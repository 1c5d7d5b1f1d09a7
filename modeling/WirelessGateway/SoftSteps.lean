import WirelessGateway.Transport
import WirelessGateway.WellFormed
import WirelessGateway.Worker

namespace WirelessGateway.SoftSteps

open CJson WirelessGateway.Types Memory WsServer Transport Worker Buffers Sends WellFormed
open Lib.Fallible

variable {s t : Server} {p : CallPtr} {c : ApiCall}

structure Sound (s : Server) : Prop where
  wf : WF s
  net : NetOk s.net

theorem Soft.sound (h : Soft s t) (hs : Sound s) (hn : NetOk t.net) : Sound t := ⟨h.wf hs.wf, hn⟩

/-- An operation that touches only valid memory and is soft. -/
def Calm (s : Server) (op : Fallible Server) : Prop :=
  Returns op (fun t => Soft s t ∧ NetOk t.net)

theorem Calm.pure (h : Soft s t) (hn : NetOk t.net) : Calm s (pure t) := Returns.pure ⟨h, hn⟩

theorem Calm.self (hn : NetOk s.net) : Calm s (Pure.pure s) := .pure (.refl s) hn

theorem Calm.after {op : Fallible Server} (h : Soft s t) (ht : Calm t op) : Calm s op :=
  Returns.mono ht (fun _ hu => ⟨h.trans hu.1, hu.2⟩)

theorem modifyCall_eq (hc : s.calls p = some c) (f : ApiCall → ApiCall) :
    s.modifyCall p f = .ok (s.setCall p (f c)) := by
  simp [Server.modifyCall, call_eq hc]

theorem modifyCall_calm (hs : Sound s) (hc : s.calls p = some c) {f : ApiCall → ApiCall}
    (hf : Weaker c (f c)) : Calm s (s.modifyCall p f) :=
  ⟨_, modifyCall_eq hc f, .setCall hc hf, hs.net⟩

def Quiet (s t : Server) : Prop := Soft s t ∧ t.net = s.net

theorem Quiet.self (s : Server) : Quiet s s := ⟨.refl s, rfl⟩

theorem Quiet.trans {u : Server} (h : Quiet s t) (h' : Quiet t u) : Quiet s u :=
  ⟨h.1.trans h'.1, h'.2.trans h.2⟩

section Foreach

variable {act : Server → CallPtr → Fallible Server} {N : Server → CallPtr → Prop}

theorem foldlM_quiet (hstable : ∀ s t p, Soft s t → N s p → N t p)
    (hact : ∀ s p c, WF s → s.calls p = some c → Returns (act s p) (fun t => Quiet s t ∧ N t p))
    {l : List CallPtr} (hs : WF s) (hl : ∀ p ∈ l, (s.calls p).isSome) :
    Returns (l.foldlM act s) (fun t => Quiet s t ∧ ∀ p ∈ l, N t p) := by
  induction l generalizing s with
  | nil => exact .pure ⟨.self s, by simp⟩
  | cons p l ih =>
      rw [List.foldlM_cons]
      obtain ⟨c, hc⟩ := Option.isSome_iff_exists.1 (hl p (by simp))
      apply (hact s p c hs hc).bind
      rintro t ⟨ht, hp⟩
      have hl' : ∀ p' ∈ l, (t.calls p').isSome := by
        intro p' hp'
        rw [ht.1.isSome]
        exact hl p' (by simp [hp'])
      apply (ih (ht.1.wf hs) hl').mono
      rintro u ⟨hu, hall⟩
      refine ⟨ht.trans hu, fun p' hp' => ?_⟩
      rcases List.mem_cons.1 hp' with rfl | hp'
      · exact hstable t u p' hu.1 hp
      · exact hall p' hp'

/-- An action on every call of both lists establishes at each call what later
soft steps cannot undo. -/
theorem forEach_quiet (hstable : ∀ s t p, Soft s t → N s p → N t p)
    (hact : ∀ s p c, WF s → s.calls p = some c → Returns (act s p) (fun t => Quiet s t ∧ N t p))
    (hs : WF s) :
    Returns (s.forEach act) (fun t => Quiet s t ∧ ∀ p c, t.calls p = some c → N t p) := by
  apply (foldlM_quiet hstable hact hs (fun p hp => (hs.linked p).2 (List.mem_append_left _ hp))).bind
  rintro t ⟨ht, hcalls⟩
  have hts := ht.1.wf hs
  apply (foldlM_quiet hstable hact hts
    (fun p hp => (hts.linked p).2 (List.mem_append_right _ hp))).mono
  rintro u ⟨hu, hwait⟩
  refine ⟨ht.trans hu, fun p c hc => ?_⟩
  rcases (hu.1.wf hts).mem_of_call hc with hp | hp
  · rw [hu.1.lists, ht.1.lists] at hp
    exact hstable t u p hu.1 (hcalls p hp)
  · rw [hu.1.waiting] at hp
    exact hwait p hp

end Foreach

def Detached (fd : Int) (s : Server) (p : CallPtr) : Prop :=
  ∀ c q x, s.calls p = some c → c.session = some q → s.sessions q = some x → x.fd ≠ fd

theorem Detached.soft {fd : Int} (h : Soft s t) (hp : Detached fd s p) : Detached fd t p := by
  intro d q y hd hq hy
  obtain ⟨c, hc, hw⟩ := h.call_back hd
  obtain ⟨x, hx, -, hfd⟩ := h.session_back hy
  exact hfd ▸ hp c q x hc (hw.session_some hq) hx

theorem vBreakApiCallByFd_quiet (fd : Int) (hs : WF s) (hc : s.calls p = some c) :
    Returns (vBreakApiCallByFd fd s p) (fun t => Quiet s t ∧ Detached fd t p) := by
  unfold vBreakApiCallByFd
  rw [call_eq hc, ok_bind]
  cases hq : c.session with
  | none =>
      refine .pure ⟨.self s, fun c' q x hc' hq' _ => ?_⟩
      rw [hc, Option.some.injEq] at hc'
      subst hc'
      rw [hq] at hq'
      cases hq'
  | some q =>
      obtain ⟨x, hx⟩ := hs.attached p c q hc hq
      simp only [Option.isNone_some, Bool.false_eq_true, if_false, session_eq hx, ok_bind]
      by_cases hfd : x.fd = fd
      · rw [if_pos hfd, modifyCall_eq hc]
        refine ⟨_, rfl, ⟨.setCall hc (dropSession_weaker c), rfl⟩, fun c' q' _ hc' hq' _ => ?_⟩
        simp only [Server.setCall, Function.update_self, Option.some.injEq] at hc'
        subst hc'
        cases hq'
      · rw [if_neg hfd]
        refine .pure ⟨.self s, fun c' q' x' hc' hq' hx' => ?_⟩
        rw [hc, Option.some.injEq] at hc'
        subst hc'
        rw [hq, Option.some.injEq] at hq'
        subst hq'
        rw [hx, Option.some.injEq] at hx'
        exact hx' ▸ hfd

theorem vBreakApiCallsByFd_quiet (fd : Int) (hs : WF s) :
    Returns (vBreakApiCallsByFd s fd)
      (fun t => Quiet s t ∧ ∀ p c, t.calls p = some c → Detached fd t p) :=
  forEach_quiet (fun _ _ _ h hp => hp.soft h) (fun _ _ _ hs hc => vBreakApiCallByFd_quiet fd hs hc) hs

theorem vBreakApiCallsByFid_quiet (fid : UInt32) (hs : WF s) :
    Returns (vBreakApiCallsByFid s fid) (Quiet s) := by
  refine (forEach_quiet (N := fun _ _ => True) (fun _ _ _ _ _ => trivial) ?_ hs).mono
    (fun t ht => ht.1)
  intro s p c _ hc
  unfold vBreakApiCallByFid
  rw [call_eq hc, ok_bind]
  by_cases hf : c.ulFid = fid
  · rw [if_pos hf, modifyCall_eq hc]
    exact ⟨_, rfl, ⟨.setCall hc (dropSession_weaker c), rfl⟩, trivial⟩
  · rw [if_neg hf]
    exact .pure ⟨.self s, trivial⟩

theorem attempts_soft {src : Source} {arg : Payload} (hc : s.calls p = some c)
    (harg : ∀ r, arg ≠ .reply r) (hdel : src = .worker → c.toDelete = true) (hsrc : src ≠ .httpd)
    (env : SendEnv) : ∀ e ∈ attempts s src p arg env, SoftEvent s e := by
  intro e he
  obtain ⟨d, x, ht, rfl⟩ := mem_attempts he
  have hd := (target_eq_some_iff.1 ht).1
  rw [hc, Option.some.injEq] at hd
  subst hd
  exact ⟨c, x, ht, rfl, rfl, harg, hdel, hsrc, .inl rfl⟩

theorem apiCallSendJson_calm (src : Source) {arg : Payload} (hs : Sound s)
    (hc : s.calls p = some c) (harg : ∀ r, arg ≠ .reply r)
    (hdel : src = .worker → c.toDelete = true) (hsrc : src ≠ .httpd) (env : SendEnv) :
    Returns (apiCallSendJson s src (some p) 0 arg env) (fun r => Soft s r.1 ∧ NetOk r.1.net) := by
  obtain ⟨m, hm, he⟩ := apiCallSendJson_eq hs.wf.attached hs.net hc src arg env
  exact ⟨_, he, .record (attempts_soft hc harg hdel hsrc env), hm⟩

theorem groupAttempts_soft {src : Source} {fid : UInt32} {json : Bytes} {sent : CallPtr → Bool}
    {ps : List CallPtr} (hsrc : src = .handler ∨ src = .client) :
    ∀ e ∈ groupAttempts s src fid (.json json) sent ps, SoftEvent s e := by
  intro e he
  obtain ⟨p, hp, he⟩ := List.mem_filterMap.1 he
  obtain ⟨⟨c, x⟩, ht, rfl⟩ := Option.map_eq_some_iff.1 he
  have hfid := (List.mem_filter.1 hp).2
  rw [isTarget_eq (target_eq_some_iff.1 ht).1] at hfid
  simp only [Bool.and_eq_true, beq_iff_eq] at hfid
  have hw : src ≠ .worker := by rcases hsrc with rfl | rfl <;> simp
  have hh : src ≠ .httpd := by rcases hsrc with rfl | rfl <;> simp
  exact ⟨c, x, ht, rfl, hfid.1, by simp, fun h => absurd h hw, hh, .inr ⟨hw, rfl, json, rfl⟩⟩

theorem bApiCallSendJsonFidGroup_calm (hs : Sound s) {src : Source}
    (hsrc : src = .handler ∨ src = .client) (fid : UInt32) (json : Bytes) (env : SendEnv) :
    Returns (bApiCallSendJsonFidGroup s src fid json env) (fun r => Soft s r.1 ∧ NetOk r.1.net) := by
  obtain ⟨m, hm, he⟩ := apiCallSendJson_group hs.wf.attached hs.net hs.wf.groupOrder_isSome src fid
    (.json json) env
  refine ⟨_, he, ?_⟩
  split_ifs
  · exact ⟨.record (groupAttempts_soft hsrc), hm⟩
  · exact ⟨.record (by simp), hm⟩

theorem vApiCallComplete_calm (hs : Sound s) (p : CallPtr) : Calm s (vApiCallComplete s p) := by
  unfold vApiCallComplete
  by_cases hp : p ∈ s.pxWsApiCall ∨ p ∈ s.pxWsApiWaitingForResponse
  · rw [if_pos hp]
    obtain ⟨c, hc⟩ := hs.wf.call_of_mem hp
    refine modifyCall_calm hs hc ⟨?_, rfl, rfl, rfl, rfl, rfl, rfl⟩
    dsimp only
    split
    · split <;> simp
    · split <;> simp
  · rw [if_neg hp]
    exact .self hs.net

theorem bApiCallRegister_calm (hs : Sound s) (h : Option HandlerId) (fid : UInt32) (ctx : Nat)
    (took alloc : Bool) : Calm s (pure (bApiCallRegister s h fid ctx took alloc).1) := by
  have : Soft s (bApiCallRegister s h fid ctx took alloc).1 ∧
      (bApiCallRegister s h fid ctx took alloc).1.net = s.net := by
    unfold bApiCallRegister
    split
    · exact ⟨.refl s, rfl⟩
    · split_ifs
      · exact ⟨.refl s, rfl⟩
      · exact ⟨.refl s, rfl⟩
      · exact ⟨.refl s, rfl⟩
      · exact ⟨.refl s, rfl⟩
      · exact ⟨.handlers s _, rfl⟩
  exact .pure this.1 (this.2 ▸ hs.net)

theorem bApiCallUnregister_calm (hs : Sound s) (fid : UInt32) (took : Bool) :
    Calm s ((bApiCallUnregister s fid took).map Prod.fst) := by
  apply Returns.map
  unfold bApiCallUnregister
  split_ifs
  · exact .pure ⟨.refl s, hs.net⟩
  · exact .pure ⟨.refl s, hs.net⟩
  · apply (vBreakApiCallsByFid_quiet fid hs.wf).bind
    rintro t ⟨ht, hn⟩
    exact .pure ⟨ht.trans (.handlers t _), hn ▸ hs.net⟩
  · exact .pure ⟨.refl s, hs.net⟩

theorem wsServerRegisterFidQueue_calm (hs : Sound s) (fid : UInt32) (queue : Option QueueId)
    (took alloc : Bool) : Calm s (pure (wsServerRegisterFidQueue s fid queue took alloc).1) := by
  have : Soft s (wsServerRegisterFidQueue s fid queue took alloc).1 ∧
      (wsServerRegisterFidQueue s fid queue took alloc).1.net = s.net := by
    unfold wsServerRegisterFidQueue
    split_ifs
    · exact ⟨.refl s, rfl⟩
    · exact ⟨.refl s, rfl⟩
    · exact ⟨.refl s, rfl⟩
    · exact ⟨.registerQueue s fid queue, rfl⟩
  exact .pure this.1 (this.2 ▸ hs.net)

theorem touchSession_calm (hs : Sound s) {conn : ConnPtr} {k : Conn}
    (hk : s.conns conn = some k) : Calm s (touchSession s k.userData) := by
  cases hq : k.userData with
  | none => exact .self hs.net
  | some q =>
      obtain ⟨x, hx, -⟩ := hs.wf.userData conn k q hk hq
      refine ⟨_, ?_, Soft.setSession (y := { x with ulAliveTs := s.tick }) hx rfl rfl, hs.net⟩
      simp [touchSession, session_eq hx]

theorem wsServerOnControl_soft {conn : ConnPtr} (hk : (s.conns conn).isSome) (type : FrameType)
    (sent : Bool) : Soft s (wsServerOnControl s conn type sent) ∧
      (wsServerOnControl s conn type sent).net = s.net := by
  have hlog : ∀ ty, Soft s (s.log (.control conn ty sent)) :=
    fun ty => Soft.frames (by simpa [SoftEvent] using hk)
  cases type with
  | ping => exact ⟨hlog .pong, rfl⟩
  | close => exact ⟨hlog .close, rfl⟩
  | cont => exact ⟨.refl s, rfl⟩
  | text => exact ⟨.refl s, rfl⟩
  | binary => exact ⟨.refl s, rfl⟩
  | pong => exact ⟨.refl s, rfl⟩

theorem release_none {n m : Net} {b b' : BufPtr} (hb : n.bufs b = none)
    (h : n.release b' = .ok m) : m.bufs b = none := by
  obtain ⟨d, hd, rfl⟩ := release_cases h
  have hne : b ≠ b' := by
    rintro rfl
    rw [hb] at hd
    cases hd
  simpa [setBuf, Function.update_of_ne hne] using hb

/-- A completion, whatever a sender still owes. It brings no buffer back. -/
theorem vWsTransferComplete_returns (hs : WF s) {owed : BufPtr → Nat} (hn : Owes s.net owed)
    {i : Nat} {err took : Bool} {op : Fallible Server}
    (h : vWsTransferComplete s i err took = some op) :
    Returns op (fun t => Soft s t ∧ Owes t.net owed ∧
      (∀ b, s.net.bufs b = none → t.net.bufs b = none) ∧
      ((err && took) = false → t.calls = s.calls)) := by
  unfold vWsTransferComplete at h
  split at h
  · cases h
  next x hx =>
    cases h
    have hrelease : ∀ t : Server, Quiet (s.withNet (completed s.net i)) t →
        ((err && took) = false → t.calls = s.calls) →
        Returns (t.net.release x.buf >>= fun net => pure (t.withNet net)) (fun u => Soft s u ∧
          Owes u.net owed ∧ (∀ b, s.net.bufs b = none → u.net.bufs b = none) ∧
          ((err && took) = false → u.calls = s.calls)) := by
      intro t ht hcalls
      rw [ht.2]
      obtain ⟨m, hm, ho⟩ := (hn.complete hx).release
      refine .of_eq hm (.pure ⟨((Soft.withNet s _).trans ht.1).trans (.withNet t m), ho, ?_, hcalls⟩)
      exact fun b hb => release_none (n := completed s.net i) hb hm
    cases herr : err && took with
    | true =>
        simp only [if_true]
        exact (vBreakApiCallsByFd_quiet x.fd ((Soft.withNet s _).wf hs)).bind
          (fun t ht => herr ▸ hrelease t ht.1 (by simp [herr]))
    | false =>
        simp only [Bool.false_eq_true, if_false, pure_ok, ok_bind]
        exact (hrelease _ (.self _) (fun _ => rfl)).mono
          (fun t ht => ⟨ht.1, ht.2.1, ht.2.2.1, fun _ => ht.2.2.2 herr⟩)

theorem vWsTransferComplete_calm (hs : Sound s) {i : Nat} {err took : Bool} {op : Fallible Server}
    (h : vWsTransferComplete s i err took = some op) : Calm s op :=
  (vWsTransferComplete_returns hs.wf hs.net h).mono (fun _ ht => ⟨ht.1, ht.2.1⟩)

end WirelessGateway.SoftSteps
