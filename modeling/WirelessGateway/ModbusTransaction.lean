import WirelessGateway.ModbusText

namespace WirelessGateway.ModbusTransaction

open CJson WirelessGateway.Types Lib.Text Modbus ModbusText

variable {lib : ModbusLib} {P : Platform} {w w' : MbTask} {msg : WebapiMsg} {env : MbEnv}
variable {frame : ModbusFrame} {awt : UInt32}

def deadline (P : Platform) (awt : UInt32) (env : MbEnv) : UInt32 :=
  env.tick + P.msToTicks (awt + 500)

def reported (deadline : UInt32) : List MbRound → Option (Option ModbusFrame)
  | [] => none
  | r :: rs =>
    if beforeDeadline deadline r.tick then r.completion.or (reported deadline rs) else none

/-- How the library completes a submitted request, none when it does not do so
in time. A completion without a frame is some none. -/
def completion (P : Platform) (awt : UInt32) (env : MbEnv) : Option (Option ModbusFrame) :=
  env.early.or (reported (deadline P awt env) env.rounds)

/-- The waiting loop ends: a turn finds the clock at the deadline or behind
it, or reports a completion. -/
def Ends (P : Platform) (awt : UInt32) (env : MbEnv) : Prop :=
  env.early.isSome ∨ ∃ r ∈ env.rounds, r.completion.isSome ∨
    beforeDeadline (deadline P awt env) r.tick = false

def opened (w : MbTask) (frame : ModbusFrame) (awt : UInt32) : MbTask :=
  (w.gwUartLockRx.call (.init awt.toUInt16 awt.toUInt16)).call (.request frame)

def worked (w : MbTask) (n : Nat) : MbTask :=
  { w with calls := w.calls ++ List.replicate n (.work, w.rxLocked) }

theorem worked_zero (w : MbTask) : worked w 0 = w := by
  simp [worked]

theorem call_worked (w : MbTask) (n : Nat) : worked (w.call .work) n = worked w (n + 1) := by
  simp [worked, MbTask.call, List.replicate_succ]

@[simp] theorem mbOnComplete_done (cb : MbCbCtx) (f : Option ModbusFrame) :
    (mbOnComplete cb f).done = true := by
  unfold mbOnComplete
  split
  · split
    · split <;> rfl
    · rfl
  · rfl

theorem awaitDone_done {d : UInt32} {cb : MbCbCtx} (h : cb.done = true) (rounds : List MbRound)
    (w : MbTask) : awaitDone d rounds w cb = some (w, cb) := by
  cases rounds <;> simp [awaitDone, h]

theorem awaitDone_spec {d : UInt32} {rounds : List MbRound} {cb cb' : MbCbCtx}
    (hnot : cb.done = false) (h : awaitDone d rounds w cb = some (w', cb')) :
    ∃ n, w' = worked w n ∧ cb' = (reported d rounds).elim cb (mbOnComplete cb) := by
  induction rounds generalizing w with
  | nil => simp [awaitDone, hnot] at h
  | cons r rs ih =>
      simp only [awaitDone, hnot, Bool.not_false, Bool.true_and] at h
      by_cases hd : beforeDeadline d r.tick = true
      · rw [if_pos hd] at h
        cases hr : r.completion with
        | none =>
            rw [hr] at h
            obtain ⟨n, hw, hcb⟩ := ih h
            refine ⟨n + 1, by rw [hw, call_worked], ?_⟩
            simpa [reported, hd, hr] using hcb
        | some c =>
            rw [hr, Option.elim_some, awaitDone_done (mbOnComplete_done cb c), Option.some.injEq,
              Prod.mk.injEq] at h
            refine ⟨1, ?_, by simp [reported, hd, hr, h.2]⟩
            rw [← h.1, ← worked_zero (w.call .work), call_worked]
      · rw [if_neg hd, Option.some.injEq, Prod.mk.injEq] at h
        exact ⟨0, by rw [worked_zero, h.1], by simp [reported, hd, h.2]⟩

theorem awaitDone_returns (d : UInt32) (rounds : List MbRound) (w : MbTask) (cb : MbCbCtx)
    (h : cb.done = true ∨ ∃ r ∈ rounds, r.completion.isSome ∨ beforeDeadline d r.tick = false) :
    (awaitDone d rounds w cb).isSome := by
  induction rounds generalizing w cb with
  | nil =>
      rcases h with h | ⟨r, hr, -⟩
      · simp [awaitDone, h]
      · cases hr
  | cons r rs ih =>
      cases hdone : cb.done with
      | true => simp [awaitDone_done hdone]
      | false =>
          simp only [awaitDone, hdone, Bool.not_false, Bool.true_and]
          by_cases hd : beforeDeadline d r.tick = true
          · rw [if_pos hd]
            refine ih _ _ ?_
            obtain ⟨r', hr', hend⟩ := h.resolve_left (by simp [hdone])
            cases hc : r.completion with
            | some c => exact .inl (by simp)
            | none =>
                rcases List.mem_cons.1 hr' with rfl | hr'
                · simp [hc, hd] at hend
                · exact .inr ⟨r', hr', hend⟩
          · rw [if_neg hd]
            rfl

theorem transact_spec (h : transact lib P w msg frame awt env = some w') :
    (env.tid = 0 ∧ w' = (opened w frame awt).gwUartUnlockRx.sendMbError msg.id msg.fid 3 env) ∨
    (env.tid ≠ 0 ∧ completion P awt env = none ∧ ∃ n,
      w' = ((worked (opened w frame awt) n).call (.cancel env.tid)).gwUartUnlockRx.sendMbError
        msg.id msg.fid 4 env) ∨
    (env.tid ≠ 0 ∧ ∃ c, completion P awt env = some c ∧ ∃ n,
      w' = (worked (opened w frame awt) n).gwUartUnlockRx.formatAndSendMbResponse lib msg.id msg.fid
        (mbOnComplete .zero c) env) := by
  unfold transact at h
  by_cases htid : env.tid = 0
  · rw [if_pos htid, Option.some.injEq] at h
    exact .inl ⟨htid, h.symm⟩
  · rw [if_neg htid] at h
    refine .inr ?_
    cases he : env.early with
    | some c =>
        simp only [he, Option.elim_some, awaitDone_done (mbOnComplete_done MbCbCtx.zero c),
          mbOnComplete_done, Bool.not_true, Bool.false_eq_true, if_false, Option.some.injEq] at h
        exact .inr ⟨htid, c, by simp [completion, he], 0, by rw [worked_zero, ← h, opened]⟩
    | none =>
        simp only [he, Option.elim_none] at h
        split at h
        · cases h
        next w₁ cb hloop =>
          obtain ⟨n, rfl, rfl⟩ := awaitDone_spec rfl hloop
          have hc : completion P awt env = reported (env.tick + P.msToTicks (awt + 500)) env.rounds := by
            simp [completion, he, deadline]
          cases hrep : reported (env.tick + P.msToTicks (awt + 500)) env.rounds with
          | none =>
              simp only [hrep, Option.elim_none, MbCbCtx.zero, Bool.not_false, if_true,
                Option.some.injEq] at h
              exact .inl ⟨htid, hc.trans hrep, n, h.symm⟩
          | some c =>
              simp only [hrep, Option.elim_some, mbOnComplete_done, Bool.not_true,
                Bool.false_eq_true, if_false, Option.some.injEq] at h
              exact .inr ⟨htid, c, hc.trans hrep, n, h.symm⟩

theorem transact_returns (h : env.tid = 0 ∨ Ends P awt env) :
    (transact lib P w msg frame awt env).isSome := by
  unfold transact
  by_cases htid : env.tid = 0
  · rw [if_pos htid]
    rfl
  · rw [if_neg htid]
    have hloop := awaitDone_returns (deadline P awt env) env.rounds (opened w frame awt)
      (env.early.elim .zero (mbOnComplete .zero)) ?_
    · obtain ⟨⟨w₁, cb⟩, hw₁⟩ := Option.isSome_iff_exists.1 hloop
      unfold deadline opened at hw₁
      simp only [hw₁]
      split <;> rfl
    · rcases h.resolve_left htid with he | hr
      · obtain ⟨c, hc⟩ := Option.isSome_iff_exists.1 he
        exact .inl (by simp [hc])
      · exact .inr hr

def Asks (lib : ModbusLib) (P : Platform) (msg : WebapiMsg) (frame : ModbusFrame) (awt : UInt32) :
    Prop :=
  ∃ json, mbJson P msg = some json ∧ parseMbRequest lib json = some (frame, awt)

/-- Either nothing is asked for and the answer is ERR 2, or the request is
transacted. -/
theorem handle_cases (lib : ModbusLib) (P : Platform) (w : MbTask) (msg : WebapiMsg) (env : MbEnv) :
    ((∀ frame awt, ¬ Asks lib P msg frame awt) ∧
      handleModbusMsg lib P w msg env = some (w.sendMbError msg.id msg.fid 2 env)) ∨
    ∃ frame awt, Asks lib P msg frame awt ∧
      handleModbusMsg lib P w msg env = transact lib P w msg frame awt env := by
  unfold handleModbusMsg
  cases hj : mbJson P msg with
  | none =>
      refine .inl ⟨?_, rfl⟩
      rintro frame awt ⟨json, hjson, -⟩
      rw [hj] at hjson
      cases hjson
  | some json =>
      cases hp : parseMbRequest lib json with
      | none =>
          refine .inl ⟨?_, by simp only [hp]⟩
          rintro frame awt ⟨json', hjson, hparse⟩
          rw [hj, Option.some.injEq] at hjson
          rw [← hjson, hp] at hparse
          cases hparse
      | some r =>
          obtain ⟨frame, awt⟩ := r
          exact .inr ⟨frame, awt, ⟨json, hj, hp⟩, by simp only [hp]⟩

theorem Asks.eq {frame' : ModbusFrame} {awt' : UInt32} (h : Asks lib P msg frame awt)
    (h' : Asks lib P msg frame' awt') : frame = frame' ∧ awt = awt' := by
  obtain ⟨json, hj, hp⟩ := h
  obtain ⟨json', hj', hp'⟩ := h'
  rw [hj, Option.some.injEq] at hj'
  rw [← hj', hp, Option.some.injEq, Prod.mk.injEq] at hp'
  exact hp'

def Ended (lib : ModbusLib) (P : Platform) (msg : WebapiMsg) (env : MbEnv) : Prop :=
  ∀ frame awt, Asks lib P msg frame awt → env.tid = 0 ∨ Ends P awt env

theorem handle_returns (h : Ended lib P msg env) (w : MbTask) :
    (handleModbusMsg lib P w msg env).isSome := by
  rcases handle_cases lib P w msg env with ⟨-, he⟩ | ⟨frame, awt, hasks, he⟩
  · rw [he]
    rfl
  · rw [he]
    exact transact_returns (h frame awt hasks)

structure Disciplined (msg : WebapiMsg) (w : MbTask) : Prop where
  reply : ∃ answer queued, w.replies = [(answer, queued)] ∧ answer.id = msg.id ∧
    answer.fid = msg.fid
  locked : ∀ c locked, (c, locked) ∈ w.calls → locked = true
  unlocked : w.rxLocked = false

theorem mbMsg_id (id fid : UInt32) (text : List Char) (alloc : Bool) :
    (mbMsg id fid text alloc).id = id ∧ (mbMsg id fid text alloc).fid = fid := by
  unfold mbMsg
  split <;> exact ⟨rfl, rfl⟩

theorem disciplined_send {w : MbTask} (hreplies : w.replies = []) (hlock : w.rxLocked = false)
    (hcalls : ∀ c locked, (c, locked) ∈ w.calls → locked = true) (text : List Char) :
    Disciplined msg (w.sendMbMsg msg.id msg.fid text env) where
  reply := ⟨_, _, by rw [MbTask.sendMbMsg, MbTask.queueSend, hreplies]; rfl, mbMsg_id _ _ _ _⟩
  locked := hcalls
  unlocked := hlock

theorem worked_locked (frame : ModbusFrame) (awt : UInt32) (n : Nat) {c : MbCall} {locked : Bool}
    (h : (c, locked) ∈ (worked (opened ⟨false, [], []⟩ frame awt) n).calls) : locked = true := by
  simp only [worked, opened, MbTask.call, MbTask.gwUartLockRx, List.nil_append, List.mem_append,
    List.mem_singleton, List.mem_replicate, Prod.mk.injEq] at h
  rcases h with (⟨-, rfl⟩ | ⟨-, rfl⟩) | ⟨-, -, rfl⟩ <;> rfl

theorem handle_disciplined (h : handleModbusMsg lib P ⟨false, [], []⟩ msg env = some w') :
    Disciplined msg w' := by
  rcases handle_cases lib P ⟨false, [], []⟩ msg env with ⟨-, he⟩ | ⟨frame, awt, -, he⟩
  · rw [he, Option.some.injEq] at h
    rw [← h]
    exact disciplined_send rfl rfl (fun _ _ hc => absurd hc List.not_mem_nil) _
  · rw [he] at h
    have hopened : ∀ c locked, (c, locked) ∈ (opened ⟨false, [], []⟩ frame awt).calls →
        locked = true := by
      intro c locked hc
      exact worked_locked frame awt 0 (by rwa [worked_zero])
    rcases transact_spec h with ⟨-, rfl⟩ | ⟨-, -, n, rfl⟩ | ⟨-, c, -, n, rfl⟩
    · exact disciplined_send (w := (opened _ frame awt).gwUartUnlockRx) rfl rfl hopened _
    · refine disciplined_send rfl rfl (fun c locked hc => ?_) _
      rcases List.mem_append.1 hc with hc | hc
      · exact worked_locked frame awt n hc
      · exact (Prod.mk.inj (List.mem_singleton.1 hc)).2
    · unfold MbTask.formatAndSendMbResponse
      have hlocked : ∀ c locked, (c, locked) ∈
          (worked (opened ⟨false, [], []⟩ frame awt) n).gwUartUnlockRx.calls → locked = true :=
        fun c locked => worked_locked frame awt n
      split
      · exact disciplined_send (w := (worked _ n).gwUartUnlockRx) rfl rfl hlocked _
      · exact disciplined_send (w := (worked _ n).gwUartUnlockRx) rfl rfl hlocked _

structure Discipline (lib : ModbusLib) (P : Platform) (jobs : List (WebapiMsg × MbEnv)) : Prop where
  runs : ∀ ws, wsModbusTask lib P jobs false = some ws →
    List.Forall₂ (fun job w => Disciplined job.1 w) jobs ws
  returns : (∀ job ∈ jobs, Ended lib P job.1 job.2) → (wsModbusTask lib P jobs false).isSome

/-- Every run answers its own message once, has the port locked whenever it
calls the library, and leaves it unlocked to the next one. -/
theorem modbus_discipline (lib : ModbusLib) (P : Platform) (jobs : List (WebapiMsg × MbEnv)) :
    Discipline lib P jobs := by
  induction jobs with
  | nil => exact ⟨fun ws h => by cases h; exact .nil, fun _ => rfl⟩
  | cons job jobs ih =>
      obtain ⟨msg, env⟩ := job
      constructor
      · intro ws h
        simp only [wsModbusTask, Option.bind_eq_bind, Option.bind_eq_some_iff] at h
        obtain ⟨w, hw, ws', hws, hcons⟩ := h
        rw [Option.some.injEq] at hcons
        have hd := handle_disciplined hw
        rw [hd.unlocked] at hws
        rw [← hcons]
        exact .cons hd (ih.runs ws' hws)
      · intro hends
        obtain ⟨w, hw⟩ := Option.isSome_iff_exists.1
          (handle_returns (hends (msg, env) (by simp)) ⟨false, [], []⟩)
        obtain ⟨ws, hws⟩ := Option.isSome_iff_exists.1
          (ih.returns (fun job hjob => hends job (by simp [hjob])))
        have hd := handle_disciplined hw
        simp [wsModbusTask, hw, hd.unlocked, hws]

section Samples

def asking (fields : List (List Char × Nat)) : WebapiMsg :=
  ⟨0x1113, 5, some (bytes (argText fields)), (argText fields).length⟩

def wordLib : ModbusLib where
  mbFuncWriteCoils := 15
  modbusErrorFlag := 0x80
  isErrorFrame f := f.ucFunc &&& 0x80 != 0
  frameData f := ⟨f.pucData, 0, f.ucBufferSize / 2, 2⟩

def completes (frame : Option ModbusFrame) : MbEnv :=
  ⟨1, none, 0, [⟨1, none⟩, ⟨2, none⟩, ⟨3, some frame⟩, ⟨4, none⟩], true, true, true⟩

def readOne : List (List Char × Nat) :=
  [(['A', 'D', 'R'], 1), (['F', 'N'], 3), (['R', 'V', 'C'], 1)]

end Samples

theorem completes_ends (P : Platform) (awt : UInt32) (frame : Option ModbusFrame) :
    Ends P awt (completes frame) :=
  .inr ⟨⟨3, some frame⟩, by simp [completes], .inl rfl⟩

theorem handle_completes (lib : ModbusLib) (P : Platform) (msg : WebapiMsg)
    (frame : Option ModbusFrame) :
    (handleModbusMsg lib P ⟨false, [], []⟩ msg (completes frame)).isSome :=
  handle_returns (fun _ _ _ => .inr (completes_ends _ _ _)) _

def twoJobs : List (WebapiMsg × MbEnv) :=
  [(⟨0x1113, 4, none, 0⟩, completes none),
    (asking readOne, completes (some ⟨1, 3, 0, 1, 2, 2, some [2, 1]⟩))]

theorem modbus_discipline_two : ∃ ws, wsModbusTask wordLib (reads [readOne]) twoJobs false = some ws ∧
    List.Forall₂ (fun job w => Disciplined job.1 w) twoJobs ws := by
  have hd := modbus_discipline wordLib (reads [readOne]) twoJobs
  have hends : ∀ job ∈ twoJobs, Ended wordLib (reads [readOne]) job.1 job.2 := by
    intro job hjob frame awt _
    rcases List.mem_cons.1 hjob with rfl | hjob
    · exact .inr (completes_ends _ _ _)
    · rw [List.mem_singleton.1 hjob]
      exact .inr (completes_ends _ _ _)
  obtain ⟨ws, hws⟩ := Option.isSome_iff_exists.1 (hd.returns hends)
  exact ⟨ws, hws, hd.runs ws hws⟩

end WirelessGateway.ModbusTransaction
