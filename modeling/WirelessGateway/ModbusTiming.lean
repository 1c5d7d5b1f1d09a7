import WirelessGateway.Lib.Ticks
import WirelessGateway.ModbusRequest

namespace WirelessGateway.ModbusTiming

open CJson WirelessGateway.Types Lib.Text Lib.Ticks Modbus ModbusTransaction ModbusRequest

variable {lib : ModbusLib} {P : Platform} {msg : WebapiMsg} {env : MbEnv} {frame : ModbusFrame}

/-- pdMS_TO_TICKS at a tick rate, which is exact for results below 2^31. -/
structure TickRate (P : Platform) where
  hz : Nat
  hz_le : hz ≤ 1000
  exact : ∀ ms, ms.toNat * hz / 1000 < 2 ^ 31 → (P.msToTicks ms).toNat = ms.toNat * hz / 1000

def TickRate.ticks {P : Platform} (rate : TickRate P) (ms : Nat) : Nat := ms * rate.hz / 1000

/-- The times at which the clock is read: the start and the turns of the loop.
Between two readings the counter does not run through half its range. -/
structure Clock (env : MbEnv) where
  start : Nat
  times : List Nat
  start_tick : env.tick = stamp start
  tick_times : env.rounds.map MbRound.tick = times.map stamp
  runs : (start :: times).IsChain (fun t t' => t ≤ t' ∧ t' < t + 2 ^ 31)

/-- The request is submitted, and the library never reports a completion. -/
structure Silent (env : MbEnv) : Prop where
  submitted : env.tid ≠ 0
  early : env.early = none
  rounds : ∀ r ∈ env.rounds, r.completion = none

/-- The library waits for as long as AWT says, and without a completion the
answer is ERR 4, which comes no earlier than 500 ms behind it. -/
structure Waits (lib : ModbusLib) (P : Platform) (rate : TickRate P) (msg : WebapiMsg)
    (awt : UInt32) (env : MbEnv) (clock : Clock env) : Prop where
  timeouts : ∀ locked w, handleModbusMsg lib P ⟨locked, [], []⟩ msg env = some w →
    ∃ rx tx, w.calls.head? = some (.init rx tx, true) ∧ rx.toNat = awt.toNat ∧ tx.toNat = awt.toNat
  silent : Silent env → ∀ locked w, handleModbusMsg lib P ⟨locked, [], []⟩ msg env = some w →
    w.replies = [(mbMsg msg.id msg.fid (errorText 4) env.msgAlloc, env.room)] ∧
    ∃ n t, w.calls.drop 2 = List.replicate n (.work, true) ++ [(.cancel env.tid, true)] ∧
      clock.times[n]? = some t ∧ clock.start + rate.ticks (awt.toNat + 500) ≤ t
  returns : Silent env → (∃ t ∈ clock.times, clock.start + rate.ticks (awt.toNat + 500) ≤ t) →
    ∀ locked, (handleModbusMsg lib P ⟨locked, [], []⟩ msg env).isSome

def Honours (lib : ModbusLib) (P : Platform) (rate : TickRate P) (msg : WebapiMsg) (awt : UInt32) :
    Prop :=
  ∀ env (clock : Clock env),
    (∀ locked, handleModbusMsg lib P ⟨locked, [], []⟩ msg env =
      some (MbTask.sendMbError ⟨locked, [], []⟩ msg.id msg.fid 2 env)) ∨
    Waits lib P rate msg awt env clock

theorem chain_le {start : Nat} {times : List Nat}
    (h : (start :: times).IsChain (fun t t' => t ≤ t' ∧ t' < t + 2 ^ 31)) :
    ∀ t ∈ times, start ≤ t := by
  induction times generalizing start with
  | nil => simp
  | cons t times ih =>
      rw [List.isChain_cons_cons] at h
      intro t' ht'
      rcases List.mem_cons.1 ht' with rfl | ht'
      · exact h.1.1
      · exact Nat.le_trans h.1.1 (ih h.2 t' ht')

theorem chain_first {start limit : Nat} {times : List Nat}
    (h : (start :: times).IsChain (fun t t' => t ≤ t' ∧ t' < t + 2 ^ 31)) (hstart : start ≤ limit)
    (hsome : ∃ t ∈ times, limit ≤ t) : ∃ t ∈ times, limit ≤ t ∧ t < limit + 2 ^ 31 := by
  induction times generalizing start with
  | nil => simp at hsome
  | cons t times ih =>
      rw [List.isChain_cons_cons] at h
      by_cases ht : limit ≤ t
      · exact ⟨t, List.mem_cons_self, ht, by omega⟩
      · obtain ⟨t', ht', hle⟩ := hsome
        have htail : t' ∈ times := by
          rcases List.mem_cons.1 ht' with rfl | ht'
          · exact absurd hle ht
          · exact ht'
        obtain ⟨u, hu, hu'⟩ := ih h.2 (by omega) ⟨t', htail, hle⟩
        exact ⟨u, List.mem_cons_of_mem _ hu, hu'⟩

theorem awaitDone_silent {d : UInt32} {rounds : List MbRound} {w w' : MbTask} {cb cb' : MbCbCtx}
    (hnot : cb.done = false) (hsilent : ∀ r ∈ rounds, r.completion = none)
    (h : awaitDone d rounds w cb = some (w', cb')) :
    cb' = cb ∧ ∃ n r, w' = worked w n ∧ rounds[n]? = some r ∧
      beforeDeadline d r.tick = false := by
  induction rounds generalizing w with
  | nil => simp [awaitDone, hnot] at h
  | cons r rs ih =>
      simp only [awaitDone, hnot, Bool.not_false, Bool.true_and] at h
      by_cases hd : beforeDeadline d r.tick = true
      · rw [if_pos hd, hsilent r List.mem_cons_self, Option.elim_none] at h
        obtain ⟨hcb, n, r', hw, hr', hend⟩ := ih (fun r hr => hsilent r (List.mem_cons_of_mem _ hr)) h
        refine ⟨hcb, n + 1, r', ?_, ?_, hend⟩
        · rw [hw, call_worked]
        · rw [List.getElem?_cons_succ]
          exact hr'
      · rw [if_neg hd, Option.some.injEq, Prod.mk.injEq] at h
        refine ⟨h.2.symm, 0, r, ?_, List.getElem?_cons_zero, by simpa using hd⟩
        rw [worked_zero, h.1]

theorem handle_checked (lib : ModbusLib) {json : Json} (hjson : mbJson P msg = some json) (hok : Checked lib json)
    (w : MbTask) (env : MbEnv) :
    handleModbusMsg lib P w msg env =
      transact lib P w msg (requestFrame lib json) (requestAwt json) env := by
  simp only [handleModbusMsg, hjson, parse_of_checked hok]

theorem handle_unchecked {json : Json} (hjson : mbJson P msg = some json)
    (hbad : ¬ Checked lib json) (w : MbTask) (env : MbEnv) :
    handleModbusMsg lib P w msg env = some (w.sendMbError msg.id msg.fid 2 env) := by
  have hparse : parseMbRequest lib json = none := by
    cases h : parseMbRequest lib json with
    | none => rfl
    | some r => exact absurd (checked_of_parse h) hbad
  simp only [handleModbusMsg, hjson, hparse]

theorem transact_init {awt : UInt32} {w w' : MbTask} (hw : w.calls = [])
    (h : transact lib P w msg frame awt env = some w') :
    w'.calls.head? = some (.init awt.toUInt16 awt.toUInt16, true) := by
  have hopen : ∀ n, (worked (opened w frame awt) n).calls.head? =
      some (.init awt.toUInt16 awt.toUInt16, true) := by
    intro n
    simp [worked, opened, MbTask.call, MbTask.gwUartLockRx, hw]
  rcases transact_spec h with ⟨-, rfl⟩ | ⟨-, -, n, rfl⟩ | ⟨-, c, -, n, rfl⟩
  · rw [← worked_zero (opened w frame awt)]
    exact hopen 0
  · have hne : (worked (opened w frame awt) n).calls ≠ [] := by
      intro hnil
      have hhead := hopen n
      rw [hnil] at hhead
      cases hhead
    exact (List.head?_append_of_ne_nil _ hne).trans (hopen n)
  · unfold MbTask.formatAndSendMbResponse
    split
    · exact hopen n
    · exact hopen n

theorem transact_silent {awt : UInt32} {w w' : MbTask} (hw : w.calls = [])
    (hsilent : Silent env) (h : transact lib P w msg frame awt env = some w') :
    w'.replies = w.replies ++ [(mbMsg msg.id msg.fid (errorText 4) env.msgAlloc, env.room)] ∧
      ∃ n r, w'.calls.drop 2 = List.replicate n (.work, true) ++ [(.cancel env.tid, true)] ∧
        env.rounds[n]? = some r ∧ beforeDeadline (deadline P awt env) r.tick = false := by
  unfold transact at h
  simp only [if_neg hsilent.submitted, hsilent.early, Option.elim_none] at h
  split at h
  · cases h
  next w₁ cb hloop =>
    obtain ⟨rfl, n, r, rfl, hr, hend⟩ := awaitDone_silent rfl hsilent.rounds hloop
    simp only [MbCbCtx.zero, Bool.not_false, if_true, Option.some.injEq] at h
    subst h
    refine ⟨rfl, n, r, ?_, hr, hend⟩
    simp [MbTask.sendMbError, MbTask.sendMbMsg, MbTask.queueSend, MbTask.gwUartUnlockRx, worked,
      MbTask.call, MbTask.gwUartLockRx, hw]

theorem deadline_ticks (rate : TickRate P) {awt : UInt32} (hawt : awt.toNat ≤ 65535) :
    (P.msToTicks (awt + 500)).toNat = rate.ticks (awt.toNat + 500) ∧
      rate.ticks (awt.toNat + 500) < 2 ^ 31 := by
  have hsum : (awt + 500).toNat = awt.toNat + 500 := by
    rw [UInt32.toNat_add]
    have h500 : (500 : UInt32).toNat = 500 := rfl
    omega
  have hsmall : rate.ticks (awt.toNat + 500) < 2 ^ 31 := by
    have hmul : (awt.toNat + 500) * rate.hz ≤ 66035 * 1000 :=
      Nat.mul_le_mul (by omega) rate.hz_le
    rw [TickRate.ticks]
    omega
  refine ⟨?_, hsmall⟩
  rw [rate.exact _ (by rw [hsum]; exact hsmall), hsum, TickRate.ticks]

theorem Clock.late {awt : UInt32} (clock : Clock env) (rate : TickRate P)
    (hawt : awt.toNat ≤ 65535) {n : Nat} {r : MbRound} (hr : env.rounds[n]? = some r)
    (hend : beforeDeadline (deadline P awt env) r.tick = false) :
    ∃ t, clock.times[n]? = some t ∧ clock.start + rate.ticks (awt.toNat + 500) ≤ t := by
  obtain ⟨hticks, hsmall⟩ := deadline_ticks rate hawt
  have hmap := congrArg (fun l => l[n]?) clock.tick_times
  simp only [List.getElem?_map, hr, Option.map_some] at hmap
  obtain ⟨t, ht, htick⟩ := Option.map_eq_some_iff.1 hmap.symm
  refine ⟨t, ht, ?_⟩
  by_contra hearly
  have hle := chain_le clock.runs t (List.mem_of_getElem? ht)
  have hbefore := (before_deadline_iff (by rw [hticks]; exact hsmall) hle
    (by rw [hticks]; omega)).2 (by rw [hticks]; omega)
  rw [beforeDeadline, ← htick, deadline, clock.start_tick, decide_eq_false_iff_not] at hend
  exact hend hbefore

theorem Clock.ends {awt : UInt32} (clock : Clock env) (rate : TickRate P)
    (hawt : awt.toNat ≤ 65535)
    (hreached : ∃ t ∈ clock.times, clock.start + rate.ticks (awt.toNat + 500) ≤ t) :
    ∃ r ∈ env.rounds, beforeDeadline (deadline P awt env) r.tick = false := by
  obtain ⟨hticks, hsmall⟩ := deadline_ticks rate hawt
  obtain ⟨t, ht, hle, hlt⟩ := chain_first clock.runs (Nat.le_add_right _ _) hreached
  have hmem : stamp t ∈ env.rounds.map MbRound.tick := by
    rw [clock.tick_times]
    exact List.mem_map_of_mem ht
  obtain ⟨r, hr, htick⟩ := List.mem_map.1 hmem
  refine ⟨r, hr, ?_⟩
  have hiff := before_deadline_iff (by rw [hticks]; exact hsmall)
    (chain_le clock.runs t ht) (by rw [hticks]; exact hlt)
  rw [beforeDeadline, htick, deadline, clock.start_tick, decide_eq_false_iff_not, hiff, hticks]
  omega

theorem requestAwt_of_pos {json : Json} {awt : UInt32}
    (hawt : json.parseInt ['A', 'W', 'T'] = some awt) (hpos : 1 ≤ awt.toNat) :
    requestAwt json = awt := by
  have h0 : awt > 0 := UInt32.lt_iff_toNat_lt.2 hpos
  simp [requestAwt, hawt, Option.filter, h0]

theorem honours_bounded (rate : TickRate P) {json : Json} {awt : UInt32}
    (hjson : mbJson P msg = some json) (hawt : json.parseInt ['A', 'W', 'T'] = some awt)
    (hok : Checked lib json) (hpos : 1 ≤ awt.toNat) (hle : awt.toNat ≤ 65535) :
    Honours lib P rate msg awt := by
  intro env clock
  have hrun := fun w => handle_checked lib hjson hok w env
  rw [requestAwt_of_pos hawt hpos] at hrun
  have hnarrow : awt.toUInt16.toNat = awt.toNat := by
    rw [UInt32.toNat_toUInt16]
    omega
  refine Or.inr ⟨?_, ?_, ?_⟩
  · intro locked w h
    rw [hrun] at h
    exact ⟨_, _, transact_init rfl h, hnarrow, hnarrow⟩
  · intro hsilent locked w h
    rw [hrun] at h
    obtain ⟨hreplies, n, r, hcalls, hr, hend⟩ := transact_silent rfl hsilent h
    obtain ⟨t, ht, hlate⟩ := clock.late rate hle hr hend
    exact ⟨hreplies, n, t, hcalls, ht, hlate⟩
  · intro hsilent hreached locked
    rw [hrun]
    obtain ⟨r, hr, hend⟩ := clock.ends rate hle hreached
    exact transact_returns (Or.inr (Or.inr ⟨r, hr, Or.inr hend⟩))

def unsubmitted : MbEnv := ⟨0, none, 0, [], true, true, true⟩

def unsubmittedClock : Clock unsubmitted := ⟨0, [], rfl, rfl, List.IsChain.singleton _⟩

theorem bounded_of_honours (rate : TickRate P) {json : Json} {awt : UInt32}
    (hjson : mbJson P msg = some json) (hawt : json.parseInt ['A', 'W', 'T'] = some awt)
    (hok : Checked lib json) (h : Honours lib P rate msg awt) :
    1 ≤ awt.toNat ∧ awt.toNat ≤ 65535 := by
  have hrun := handle_checked lib hjson hok ⟨false, [], []⟩ unsubmitted
  obtain ⟨w, hw⟩ : ∃ w, transact lib P ⟨false, [], []⟩ msg (requestFrame lib json)
      (requestAwt json) unsubmitted = some w := ⟨_, rfl⟩
  have hhead := transact_init rfl hw
  rw [hw] at hrun
  rcases h unsubmitted unsubmittedClock with hrefused | hwaits
  · rw [hrefused, Option.some.injEq] at hrun
    rw [← hrun] at hhead
    cases hhead
  · obtain ⟨rx, tx, hcall, hrx, -⟩ := hwaits.timeouts false w hrun
    rw [hhead, Option.some.injEq, Prod.mk.injEq, MbCall.init.injEq] at hcall
    rw [← hcall.1.1, UInt32.toNat_toUInt16] at hrx
    by_cases hpos : 1 ≤ awt.toNat
    · rw [requestAwt_of_pos hawt hpos] at hrx
      omega
    · have hzero : awt = 0 := UInt32.toNat.inj (by
        have h0 : (0 : UInt32).toNat = 0 := rfl
        omega)
      subst hzero
      simp [requestAwt, hawt, Option.filter, mbDefaultAwtMs] at hrx

/-- An accepted AWT is honoured when it is from 1 to the largest 16-bit number,
for which the timeouts are not narrowed; no AWT is ever refused. -/
theorem awt_honoured (lib : ModbusLib) (P : Platform) (rate : TickRate P) (msg : WebapiMsg)
    (json : Json) (awt : UInt32) (hjson : mbJson P msg = some json)
    (hawt : json.parseInt ['A', 'W', 'T'] = some awt) :
    Honours lib P rate msg awt ↔ (Checked lib json → 1 ≤ awt.toNat ∧ awt.toNat ≤ 65535) := by
  constructor
  · intro h hok
    exact bounded_of_honours rate hjson hawt hok h
  · intro h
    by_cases hok : Checked lib json
    · exact honours_bounded rate hjson hawt hok (h hok).1 (h hok).2
    · intro env clock
      exact Or.inl (fun locked => handle_unchecked hjson hok ⟨locked, [], []⟩ env)

section Samples

def waiting (awt : Nat) : List (List Char × Nat) :=
  [(['A', 'D', 'R'], 1), (['F', 'N'], 3), (['A', 'W', 'T'], awt)]

def thousand (objects : List (List (List Char × Nat))) : TickRate (reads objects) where
  hz := 1000
  hz_le := Nat.le_refl _
  exact := by
    intro ms _
    rw [Nat.mul_div_cancel _ (by omega)]
    rfl

theorem awt_honoured_second :
    Honours wordLib (reads [waiting 1000]) (thousand [waiting 1000]) (asking (waiting 1000)) 1000 :=
  (awt_honoured wordLib (reads [waiting 1000]) (thousand [waiting 1000]) (asking (waiting 1000))
    (argJson (waiting 1000)) 1000 rfl rfl).2 (fun _ => by decide)

/-- Of 70000 ms the library is given the 4464 that are left in 16 bits. -/
theorem awt_narrowed :
    (∃ w, handleModbusMsg wordLib (reads [waiting 70000]) ⟨false, [], []⟩ (asking (waiting 70000))
        unsubmitted = some w ∧ w.calls.head? = some (.init 4464 4464, true)) ∧
      ¬ Honours wordLib (reads [waiting 70000]) (thousand [waiting 70000])
        (asking (waiting 70000)) 70000 := by
  have hok : Checked wordLib (argJson (waiting 70000)) := checked_of_parse
    (show parseMbRequest wordLib (argJson (waiting 70000)) =
      some (⟨1, 3, 0, 0, 0, 0, none⟩, 70000) from rfl)
  refine ⟨⟨_, handle_checked wordLib rfl hok _ _, rfl⟩, fun h => ?_⟩
  have hle := (bounded_of_honours (thousand [waiting 70000]) rfl rfl hok h).2
  exact absurd hle (by decide)

end Samples

end WirelessGateway.ModbusTiming
