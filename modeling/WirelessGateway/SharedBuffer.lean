import WirelessGateway.Steps

namespace WirelessGateway.SharedBuffer

open CJson WirelessGateway.Types Memory WsServer Transport Worker Tasks Buffers Sends WellFormed
open SoftSteps Steps Lib.Countdown Lib.Fallible Lib.Runs

variable {P : Platform} {src : Source} {s t : Server} {p : CallPtr} {px : Option CallPtr}
  {fid : UInt32} {arg : Payload}

def targets (s : Server) (pxApiCall : Option CallPtr) (ulFid : UInt32) : List CallPtr :=
  match pxApiCall with
  | some p => if (s.calls p).any (fun c => c.session.isSome) then [p] else []
  | none => s.pxWsApiWaitingForResponse.filter (isTarget s ulFid) ++
      s.pxWsApiCall.filter (isTarget s ulFid)

/-- A run of _bApiCallSendJson: the buffer, the targets that are not attempted
yet, and, as ghost state, how often the buffer has been freed. -/
structure Sending where
  srv : Server
  resp : BufPtr
  todo : List CallPtr
  frees : Nat

def startSend (s : Server) (pxApiCall : Option CallPtr) (ulFid : UInt32) (arg : Payload) :
    Sending where
  srv :=
    let call := pxApiCall.bind s.calls
    s.allocData (targets s pxApiCall ulFid).length ((call.map ApiCall.ulFid).getD ulFid)
      ((call.map ApiCall.ulId).getD 0) arg
  resp := s.net.nextBuf
  todo := targets s pxApiCall ulFid
  frees := 0

def Sending.next (x : Sending) (s : Server) (todo : List CallPtr) : Sending where
  srv := s
  resp := x.resp
  todo := todo
  frees :=
    if (x.srv.net.bufs x.resp).isSome && (s.net.bufs x.resp).isNone then x.frees + 1 else x.frees

/-- The sender attempts its next target, or the transport completes one of its
accepted sends. -/
inductive SendLabel
  | attempt (sent : Bool)
  | complete (i : Nat) (err took : Bool)

/-- The sender holds xWsApiMutex until the last target is attempted, so a
completion cannot take it before. -/
def stepSend (src : Source) (x : Sending) : SendLabel → Option (Fallible Sending)
  | .attempt sent => match x.todo with
    | [] => none
    | p :: ps => some ((sendToSession x.srv src p x.resp (fun _ => sent)).map (fun r => x.next r.1 ps))
  | .complete i err took =>
    if err && took && !x.todo.isEmpty then none
    else (vWsTransferComplete x.srv i err took).map (fun op => op.map (fun s => x.next s x.todo))

def sending (P : Platform) (src : Source) : Machine Sending SendLabel Fault where
  init x := ∃ y px fid arg, Reachable (machine P) y ∧ targets y.srv px fid ≠ [] ∧
    x = startSend y.srv px fid arg
  step := stepSend src

/-- The buffer is counted down by the accepted sends and by the targets that
are not attempted yet. -/
structure SendInv (x : Sending) : Prop where
  wf : WF x.srv
  owes : Owes x.srv.net (Function.update (fun _ => 0) x.resp x.todo.length)
  live : ∀ p ∈ x.todo, ∃ c q, x.srv.calls p = some c ∧ c.session = some q
  frees : x.frees = if x.srv.net.bufs x.resp = none then 1 else 0

theorem isTarget_live (h : isTarget s fid p = true) :
    ∃ c q, s.calls p = some c ∧ c.session = some q := by
  obtain ⟨c, hc, hm⟩ := (Option.any_eq_true _ _).1 h
  obtain ⟨q, hq⟩ := Option.isSome_iff_exists.1 (Bool.and_eq_true_iff.1 hm).2
  exact ⟨c, q, hc, hq⟩

theorem targets_live (h : p ∈ targets s px fid) :
    ∃ c q, s.calls p = some c ∧ c.session = some q := by
  cases px with
  | none =>
      rcases List.mem_append.1 h with h | h
      · exact isTarget_live (List.mem_filter.1 h).2
      · exact isTarget_live (List.mem_filter.1 h).2
  | some p' =>
      simp only [targets] at h
      split at h
      next hany =>
        obtain rfl := List.mem_singleton.1 h
        obtain ⟨c, hc, hm⟩ := (Option.any_eq_true _ _).1 hany
        obtain ⟨q, hq⟩ := Option.isSome_iff_exists.1 hm
        exact ⟨c, q, hc, hq⟩
      next => cases h

theorem start_inv (hs : Sound s) (h : targets s px fid ≠ []) : SendInv (startSend s px fid arg) where
  wf := hs.wf.same rfl rfl rfl rfl rfl rfl rfl rfl
  owes := hs.net.alloc (List.length_pos_iff.2 h) _ _ _
  live _ hp := targets_live (s := s) hp
  frees := by simp [startSend, Server.allocData]

theorem next_frees {x : Sending} (h : SendInv x) {todo : List CallPtr}
    (hkeep : x.srv.net.bufs x.resp = none → t.net.bufs x.resp = none) :
    (x.next t todo).frees = if t.net.bufs x.resp = none then 1 else 0 := by
  simp only [Sending.next, h.frees]
  cases hb : x.srv.net.bufs x.resp with
  | none => simp [hkeep hb]
  | some d => cases t.net.bufs x.resp <;> simp

theorem stepSend_inv {x : Sending} (h : SendInv x) {a : SendLabel} {res : Fallible Sending}
    (ha : stepSend src x a = some res) : Returns res SendInv := by
  cases a with
  | attempt sent =>
      simp only [stepSend] at ha
      cases htodo : x.todo with
      | nil => simp [htodo] at ha
      | cons p ps =>
          rw [htodo] at ha
          cases ha
          obtain ⟨c, q, hc, hq⟩ := h.live p (by simp [htodo])
          obtain ⟨y, hy⟩ := h.wf.attached p c q hc hq
          have howes : Owes x.srv.net (Function.update
              (Function.update (fun _ => 0) x.resp ps.length) x.resp
              (Function.update (fun _ => 0) x.resp ps.length x.resp + 1)) := by
            simpa [htodo] using h.owes
          obtain ⟨d, -, hd, -⟩ := howes.buf (b := x.resp) (by simp)
          have hlabel : Sends.Labelled x.srv.net x.resp d.fid d.sid d.arg := by
            intro d' hd'
            rw [hd, Option.some.injEq] at hd'
            subst hd'
            exact ⟨rfl, rfl, rfl⟩
          obtain ⟨m, hm, -, he⟩ := sendToSession_eq hc hq hy howes hlabel src (fun _ => sent)
          rw [he]
          refine ⟨_, rfl, ?_, hm, fun p' hp' => ?_, next_frees h fun hnone => ?_⟩
          · exact h.wf.same rfl rfl rfl rfl rfl rfl rfl rfl
          · have hp'' : p' ∈ ps := hp'
            exact h.live p' (by simp [htodo, hp''])
          · rw [hd] at hnone
            cases hnone
  | complete i err took =>
      simp only [stepSend] at ha
      split at ha
      · cases ha
      next hlock =>
        cases hop : vWsTransferComplete x.srv i err took with
        | none => simp [hop] at ha
        | some op =>
            rw [hop] at ha
            cases ha
            obtain ⟨t, rfl, hsoft, ho, hnone, hcalls⟩ := vWsTransferComplete_returns h.wf h.owes hop
            refine ⟨_, rfl, hsoft.wf h.wf, ho, fun p hp => ?_, next_frees h (hnone x.resp)⟩
            have hfree : (err && took) = false := by
              by_contra hne
              have hlock' : x.todo = [] := by
                simpa [eq_true_of_ne_false hne] using hlock
              rw [hlock'] at hp
              cases hp
            exact hcalls hfree ▸ h.live p hp

theorem sending_inv {x : Sending} (h : Reachable (sending P src) x) : SendInv x := by
  apply h.invariant
  · rintro x ⟨y, px, fid, arg, hy, hne, rfl⟩
    exact start_inv (reachable_inv hy).sound hne
  · intro x a y _ hx hstep
    obtain ⟨z, hz, hinv⟩ := stepSend_inv hx hstep
    cases hz
    exact hinv

def Finished (x : Sending) : Prop := x.todo = [] ∧ ∀ t ∈ x.srv.net.inflight, t.buf ≠ x.resp

/-- The buffer is freed once, when everything is finished, and no step uses it
after that. -/
structure FreedOnce (P : Platform) (src : Source) (x : Sending) : Prop where
  freed : x.srv.net.bufs x.resp = none ↔ Finished x
  once : x.frees = 1 ∧ Finished x ∨ x.frees = 0 ∧ ¬ Finished x
  valid : ∀ a, ¬ (sending P src).Faults x a

theorem freed_iff {x : Sending} (h : SendInv x) :
    x.srv.net.bufs x.resp = none ↔ Finished x := by
  have hc := h.owes.counts x.resp
  rw [Function.update_self] at hc
  have hholds : holds x.srv.net x.resp = 0 ↔ ∀ t ∈ x.srv.net.inflight, t.buf ≠ x.resp := by
    simp [holds, List.count_eq_zero]
  constructor
  · intro hnone
    rw [hnone] at hc
    have hz := hc.zero_of_none
    exact ⟨List.length_eq_zero_iff.1 (Nat.eq_zero_of_add_eq_zero_left hz),
      hholds.1 (Nat.eq_zero_of_add_eq_zero_right hz)⟩
  · rintro ⟨htodo, hfin⟩
    rw [hholds.2 hfin, htodo] at hc
    simpa [Counts] using hc

/-- Whatever fails, and in whatever order the accepted sends complete. -/
theorem buffer_freed_once {x : Sending} (h : Reachable (sending P src) x) : FreedOnce P src x := by
  have hinv := sending_inv h
  have hfreed := freed_iff hinv
  refine ⟨hfreed, ?_, ?_⟩
  · rw [hinv.frees]
    by_cases hnone : x.srv.net.bufs x.resp = none
    · exact .inl ⟨if_pos hnone, hfreed.1 hnone⟩
    · exact .inr ⟨if_neg hnone, fun hfin => hnone (hfreed.2 hfin)⟩
  · rintro a ⟨f, hf⟩
    obtain ⟨y, hy, -⟩ := stepSend_inv hinv hf
    cases hy

section AtOnce

theorem sendToSession_calls {b : BufPtr} {sent : CallPtr → Bool} {r : Bool}
    (h : sendToSession s src p b sent = .ok (t, r)) :
    t.calls = s.calls ∧ t.pxWsApiCall = s.pxWsApiCall := by
  obtain ⟨c, -, h⟩ := bind_eq_ok h
  obtain ⟨y, -, h⟩ := bind_eq_ok h
  obtain ⟨d, -, h⟩ := bind_eq_ok h
  dsimp only at h
  split_ifs at h
  · cases h
    exact ⟨rfl, rfl⟩
  · obtain ⟨m, -, h⟩ := bind_eq_ok h
    cases h
    exact ⟨rfl, rfl⟩

theorem attempt_step {x : Sending} {ps : List CallPtr} {sent : CallPtr → Bool} {r : Bool}
    (htodo : x.todo = p :: ps) (h : sendToSession x.srv src p x.resp sent = .ok (t, r)) :
    (sending P src).Step x (.attempt (sent p)) (x.next t ps) := by
  have hsent : sendToSession x.srv src p x.resp (fun _ => sent p) = .ok (t, r) := h
  simp only [Machine.Step, sending, stepSend, htodo, hsent]
  rfl

theorem sendToGroup_run {sent : CallPtr → Bool} (ps rest : List CallPtr) {x : Sending} {r r' : Bool}
    (hps : ∀ p ∈ ps, ∃ c, x.srv.calls p = some c)
    (htodo : x.todo = ps.filter (isTarget x.srv fid) ++ rest)
    (h : sendToGroup src fid x.resp sent ps x.srv r = .ok (t, r')) :
    ∃ y, Run (sending P src) x
        ((ps.filter (isTarget x.srv fid)).map (fun p => .attempt (sent p))) y ∧
      y.srv = t ∧ y.resp = x.resp ∧ y.todo = rest ∧ t.calls = x.srv.calls ∧
      t.pxWsApiCall = x.srv.pxWsApiCall := by
  induction ps generalizing x r with
  | nil =>
      cases h
      exact ⟨x, .start, rfl, rfl, htodo, rfl, rfl⟩
  | cons p ps ih =>
      obtain ⟨c, hc⟩ := hps p (by simp)
      have hps' : ∀ p ∈ ps, ∃ c, x.srv.calls p = some c := fun p hp => hps p (by simp [hp])
      simp only [sendToGroup, bCallFidMatch_eq hc, ok_bind] at h
      cases hm : isTarget x.srv fid p with
      | false =>
          simp only [hm, Bool.false_eq_true, if_false] at h
          rw [List.filter_cons_of_neg (by simp [hm])] at htodo ⊢
          exact ih hps' htodo h
      | true =>
          simp only [hm, if_true] at h
          rw [List.filter_cons_of_pos hm] at htodo ⊢
          obtain ⟨⟨u, r₁⟩, hsend, h⟩ := bind_eq_ok h
          obtain ⟨hcalls, hlist⟩ := sendToSession_calls hsend
          have hfilter : ps.filter (isTarget u fid) = ps.filter (isTarget x.srv fid) := by
            congr 1
            funext z
            rw [isTarget, hcalls, isTarget]
          obtain ⟨y, hrun, hy, hresp, hrest, hc', hl'⟩ := ih
            (x := x.next u (ps.filter (isTarget x.srv fid) ++ rest))
            (fun z hz => by
              obtain ⟨d, hd⟩ := hps' z hz
              exact ⟨d, hcalls ▸ hd⟩) (by simp [Sending.next, hfilter]) h
          refine ⟨y, ?_, hy, hresp, hrest, hc'.trans hcalls, hl'.trans hlist⟩
          rw [List.map_cons, ← hfilter]
          exact .cons (attempt_step htodo hsend) trivial hrun

theorem sendOne_run (hs : Sound s) (h : targets s (some p) 0 ≠ []) {env : SendEnv}
    (halloc : env.alloc = true) :
    ∃ r x, apiCallSendJson s src (some p) 0 arg env = .ok (x.srv, r) ∧ x.todo = [] ∧
      Run (sending P src) (startSend s (some p) 0 arg)
        ((targets s (some p) 0).map (fun p => .attempt (env.sent p))) x := by
  have htargets : targets s (some p) 0 = [p] := by
    simp only [targets] at h ⊢
    split at h
    next hlive => rw [if_pos hlive]
    next => exact absurd rfl h
  have hmem : p ∈ targets s (some p) 0 := by simp [htargets]
  obtain ⟨c, q, hc, hq⟩ := targets_live hmem
  have hstart : startSend s (some p) 0 arg =
      ⟨s.allocData 1 c.ulFid c.ulId arg, s.net.nextBuf, [p], 0⟩ := by
    simp [startSend, htargets, hc]
  obtain ⟨t, r, ht⟩ : ∃ t r, apiCallSendJson s src (some p) 0 arg env = .ok (t, r) := by
    obtain ⟨m, -, he⟩ := apiCallSendJson_eq hs.wf.attached hs.net hc src arg env
    exact ⟨_, _, he⟩
  have hsend := ht
  simp only [apiCallSendJson, call_eq hc, hq, halloc, ne_eq, not_true_eq_false, if_false,
    ok_bind, Option.isNone_some, Bool.false_eq_true, Bool.not_true] at hsend
  rw [hstart, htargets]
  exact ⟨r, _, ht, rfl, .cons (attempt_step rfl hsend) trivial .start⟩

theorem sendGroup_run (hs : Sound s) (h : targets s none fid ≠ []) (hfid : fid ≠ 0) {env : SendEnv}
    (halloc : env.alloc = true) :
    ∃ r x, apiCallSendJson s src none fid arg env = .ok (x.srv, r) ∧ x.todo = [] ∧
      Run (sending P src) (startSend s none fid arg)
        ((targets s none fid).map (fun p => .attempt (env.sent p))) x := by
  have hsome : ∀ p, p ∈ s.pxWsApiCall ∨ p ∈ s.pxWsApiWaitingForResponse → (s.calls p).isSome :=
    fun p hp => Option.isSome_iff_exists.2 (hs.wf.call_of_mem hp)
  have hcw := countMatch_eq (fun p hp => hsome p (.inr hp)) fid
  have hcc := countMatch_eq (fun p hp => hsome p (.inl hp)) fid
  obtain ⟨t, r, ht⟩ : ∃ t r, apiCallSendJson s src none fid arg env = .ok (t, r) := by
    obtain ⟨m, -, he⟩ := apiCallSendJson_group hs.wf.attached hs.net hs.wf.groupOrder_isSome src fid
      arg env
    exact ⟨_, _, he⟩
  have hlen : (s.pxWsApiWaitingForResponse.filter (isTarget s fid)).length +
      (s.pxWsApiCall.filter (isTarget s fid)).length ≠ 0 := by
    rw [← List.length_append]
    exact fun h0 => h (List.length_eq_zero_iff.1 h0)
  have hstart : startSend s none fid arg =
      ⟨s.allocData ((s.pxWsApiWaitingForResponse.filter (isTarget s fid)).length +
        (s.pxWsApiCall.filter (isTarget s fid)).length) fid 0 arg, s.net.nextBuf,
        targets s none fid, 0⟩ := by
    simp [startSend, targets]
  have hsend := ht
  simp only [apiCallSendJson, hfid, if_false, hcw, hcc, ok_bind, hlen, halloc, Bool.not_true,
    Bool.false_eq_true] at hsend
  rw [hstart]
  generalize hs₀ : s.allocData _ fid 0 arg = s₀ at hsend
  have hsame : s₀.calls = s.calls ∧ s₀.pxWsApiCall = s.pxWsApiCall := hs₀ ▸ ⟨rfl, rfl⟩
  have htarget : ∀ {u : Server}, u.calls = s.calls → isTarget u fid = isTarget s fid := by
    intro u hu
    funext z
    rw [isTarget, hu, isTarget]
  obtain ⟨⟨u, r₁⟩, hw, hsend⟩ := bind_eq_ok hsend
  -- the waiting calls first, then the other ones
  obtain ⟨y, hrun, rfl, hresp, htodo, hcalls, hlist⟩ := sendToGroup_run (P := P)
    (x := ⟨s₀, s.net.nextBuf, targets s none fid, 0⟩) _
    (s.pxWsApiCall.filter (isTarget s fid)) (fun p hp => hsame.1 ▸ hs.wf.call_of_mem (.inr hp))
    (by rw [htarget hsame.1]; rfl) hw
  rw [hlist, hsame.2] at hsend
  have hresp' : y.resp = s.net.nextBuf := hresp
  obtain ⟨z, hrun', rfl, -, htodo', -⟩ := sendToGroup_run (P := P) (x := y)
    s.pxWsApiCall [] (fun p hp => (hcalls.trans hsame.1) ▸ hs.wf.call_of_mem (.inl hp))
    (by rw [htodo, htarget (hcalls.trans hsame.1), List.append_nil]) (hresp' ▸ hsend)
  refine ⟨r, z, ht, htodo', ?_⟩
  rw [htarget hsame.1] at hrun
  rw [htarget (hcalls.trans hsame.1)] at hrun'
  have := hrun.append hrun'
  rwa [← List.map_append] at this

/-- Sending at once, as the other operations see it, is a run of the sender
without completions. -/
theorem apiCallSendJson_run (hs : Sound s) (h : targets s px fid ≠ [])
    (hpx : px.isSome ↔ fid = 0) {env : SendEnv} (halloc : env.alloc = true) :
    ∃ r x, apiCallSendJson s src px fid arg env = .ok (x.srv, r) ∧ x.todo = [] ∧
      Run (sending P src) (startSend s px fid arg)
        ((targets s px fid).map (fun p => .attempt (env.sent p))) x := by
  cases px with
  | some p =>
      obtain rfl : fid = 0 := hpx.1 rfl
      exact sendOne_run hs h halloc
  | none => exact sendGroup_run hs h (fun h0 => by simpa using hpx.2 h0) halloc

end AtOnce

def twoSubscribers : List Label :=
  [.registerQueue 0x1012 (some 0) true true, .connect 1 true, .connect 2 true] ++
  request 0 (0x1012, 4, 5) ++ request 1 (0x1012, 4, 6)

def subscribers : Platform := platform [(0x1012, 4, 5), (0x1012, 4, 6)]

theorem buffer_freed_once_two : ∃ x, Reachable (sending subscribers .client) x ∧
    (x.frees = 1 ∧ x.todo = []) ∧ FreedOnce subscribers .client x := by
  have h : (machine subscribers).reaches (initSystem (fun _ => 10)) twoSubscribers
      (fun y => !(targets y.srv none 0x1012).isEmpty &&
        (sending subscribers .client).reaches (startSend y.srv none 0x1012 (.json []))
          [.attempt true, .complete 0 false false, .attempt false]
          (fun x => x.frees == 1 && x.todo.isEmpty)) = true := by decide +kernel
  obtain ⟨y, hrun, hy⟩ := exists_of_reaches h
  rw [Bool.and_eq_true] at hy
  obtain ⟨x, hrun', hx⟩ := exists_of_reaches hy.2
  have hr : Reachable (sending subscribers .client) x :=
    ⟨_, _, ⟨y, none, 0x1012, .json [], ⟨_, _, ⟨_, rfl⟩, hrun⟩, by simpa using hy.1, rfl⟩, hrun'⟩
  exact ⟨x, hr, by simpa using hx, buffer_freed_once hr⟩

end WirelessGateway.SharedBuffer
