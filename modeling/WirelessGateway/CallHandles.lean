import WirelessGateway.Clock

namespace WirelessGateway.CallHandles

open CJson WirelessGateway.Types Memory WsServer Worker Tasks Buffers Sends WellFormed SoftSteps
open Answering Steps Updates Clock Lib.Fallible Lib.Runs

variable {P : Platform} {s t : Server} {p : CallPtr} {c : ApiCall} {x : System} {r : Reply}

/-- A NULL pointer is none, and the variable that pulOutId points to is given by
its value. -/
def bApiCallGetId (s : Server) (pxApiCall : Option CallPtr) (pulOutId : Option UInt32) :
    Fallible (Option UInt32 × Bool) :=
  match pxApiCall, pulOutId with
  | some p, some out =>
    if p ∈ s.pxWsApiCall then do
      let call ← s.call p
      if call.session.isSome then pure (some call.ulId, true) else pure (some out, false)
    else pure (some out, false)
  | _, out => pure (out, false)

/-- The states in which functions of the API are called: between two steps of
the tasks, and after what the handler of a call has done so far. -/
inductive Current (P : Platform) : Server → Prop
  | between {x : System} (hr : Reachable (machine P) x) : Current P x.srv
  | handler {x : System} {r : Reply} {p : CallPtr} {acts : List HandlerAction} {t : Server}
      (hr : Reachable (machine P) x) (hp : answering x = some (r, p))
      (hrun : acts.foldlM (handlerAction p) x.srv = .ok t) : Current P t

def live (s : Server) (p : CallPtr) : Bool := (s.calls p).any (fun c => c.session.isSome)

def handleId (s : Server) (p : CallPtr) : Option UInt32 :=
  (s.calls p).bind (fun c => if c.session.isSome then some c.ulId else none)

def HandleValid (s : Server) (p : CallPtr) (out : UInt32) : Prop :=
  bApiCallGetId s (some p) (some out) =
    .ok (some ((handleId s p).getD out), (handleId s p).isSome)

theorem handler_soft (hs : Sound s) (hc : s.calls p = some c) {acts : List HandlerAction}
    (hrun : acts.foldlM (handlerAction p) s = .ok t) : Soft s t ∧ NetOk t.net := by
  have h : Returns (acts.foldlM (handlerAction p) s) (fun t => Soft s t ∧ NetOk t.net) := by
    refine Returns.foldlM (I := fun t => Soft s t ∧ NetOk t.net) ⟨.refl s, hs.net⟩ ?_
    rintro t a - ⟨ht, hn⟩
    obtain ⟨d, hd, -⟩ := ht.call hc
    exact (handlerAction_calm (Soft.sound ht hs hn) hd a).after ht
  obtain ⟨u, hu, hsoft⟩ := h
  rw [hu] at hrun
  cases hrun
  exact hsoft

theorem Current.sound (h : Current P s) : Sound s := by
  cases h with
  | between hr => exact (reachable_inv hr).sound
  | handler hr hp hrun =>
      have hs := (reachable_inv hr).sound
      obtain ⟨c, hc⟩ := hs.wf.call_of_mem (.inr (answering_waiting hr hp))
      obtain ⟨hsoft, hn⟩ := handler_soft hs hc hrun
      exact Soft.sound hsoft hs hn

theorem handleId_eq (hc : s.calls p = some c) :
    handleId s p = if c.session.isSome then some c.ulId else none := by
  simp [handleId, hc]

theorem live_eq (hc : s.calls p = some c) : live s p = c.session.isSome := by
  simp [live, hc]

theorem handleId_isSome (s : Server) (p : CallPtr) : (handleId s p).isSome = live s p := by
  cases hc : s.calls p with
  | none => simp [handleId, live, hc]
  | some c =>
      rw [handleId_eq hc, live_eq hc]
      split_ifs with h <;> simp [h]

theorem handleId_unlinked (hs : WF s) (hp : ¬ (p ∈ s.pxWsApiCall ∨
    p ∈ s.pxWsApiWaitingForResponse)) : handleId s p = none := by
  cases hc : s.calls p with
  | none => simp [handleId, hc]
  | some c => exact absurd (hs.mem_of_call hc) hp

theorem getId_listed (hp : p ∈ s.pxWsApiCall) (hc : s.calls p = some c) (out : UInt32) :
    HandleValid s p out := by
  simp only [HandleValid, bApiCallGetId, if_pos hp, call_eq hc, ok_bind, handleId_eq hc]
  split_ifs with h <;> rfl

theorem getId_unlisted (hp : p ∉ s.pxWsApiCall) (out : UInt32) :
    bApiCallGetId s (some p) (some out) = .ok (some out, false) := by
  simp only [bApiCallGetId, if_neg hp]
  rfl

/-- The handles that bApiCallGetId gets wrong are those of the live calls that
wait for a response. -/
theorem handle_valid_iff (h : Current P s) (p : CallPtr) (out : UInt32) :
    HandleValid s p out ↔ ¬ (p ∈ s.pxWsApiWaitingForResponse ∧ live s p = true) := by
  have hs := h.sound.wf
  by_cases hp : p ∈ s.pxWsApiCall
  · obtain ⟨c, hc⟩ := hs.call_of_mem (.inl hp)
    exact iff_of_true (getId_listed hp hc out) (fun hw => hs.not_waiting hp hw.1)
  by_cases hw : p ∈ s.pxWsApiWaitingForResponse
  · rw [HandleValid, getId_unlisted hp out, handleId_isSome]
    cases hl : live s p with
    | false =>
        have hid : handleId s p = none := by
          rw [← Option.not_isSome_iff_eq_none, handleId_isSome, hl]
          simp
        simp [hid]
    | true => simp [hw]
  · have hid := handleId_unlinked hs (p := p) (by simp [hp, hw])
    refine iff_of_true ?_ (fun h => hw h.1)
    rw [HandleValid, getId_unlisted hp out, hid]
    rfl

theorem target_isSome (hs : Attached s) (hc : s.calls p = some c) :
    (target s p).isSome = live s p := by
  rw [live_eq hc]
  cases hq : c.session with
  | none => simp [target_eq_none hc hq]
  | some q =>
      obtain ⟨y, -, ht⟩ := hs.target hc hq
      simp [ht]

theorem status_sent (hs : Sound s) (hc : s.calls p = some c) (src : Source) (sta : UInt32)
    (env : SendEnv) : ∃ t, bApiCallSendStatus s src p sta env =
      .ok (t, live s p && env.alloc && env.sent p) := by
  obtain ⟨m, -, he⟩ := apiCallSendJson_eq hs.wf.attached hs.net hc src (.status sta) env
  have hd : delivered s p env = (live s p && env.alloc && env.sent p) := by
    rw [delivered, target_isSome hs.wf.attached hc]
  exact ⟨_, hd ▸ he⟩

theorem completed_dead (hlive : c.session ≠ none → c.ulCallPending = 1) :
    (completed c).session = none := by
  by_cases hq : c.session = none
  · simp [Updates.completed, hq]
  · simp [Updates.completed, hlive hq]

theorem complete_ends (hr : Reachable (machine P) x) (hc : x.srv.calls p = some c) :
    ∃ t, vApiCallComplete x.srv p = .ok t ∧ live t p = false := by
  refine ⟨_, vApiCallComplete_eq (reachable_inv hr).sound.wf hc, ?_⟩
  have hd : (x.srv.setCall p (completed c)).calls p = some (completed c) := by
    simp [Server.setCall]
  rw [live_eq hd, completed_dead (live_pending hr hc)]
  rfl

theorem handler_refused (hr : Reachable (machine P) x) (h : answering x = some (r, p))
    (out : UInt32) : bApiCallGetId x.srv (some p) (some out) = .ok (some out, false) :=
  getId_unlisted ((reachable_inv hr).sound.wf.not_call (answering_waiting hr h)) out

def client : List Label :=
  [.register (some 1) 0x1013 0 true true, .registerQueue 0x1013 (some 0) true true,
    .connect 1 true] ++ request 0 (0x1013, 0, 5)

def answer : List Label := work 7 ++ [.periphTake 0, .periphAnswer 0 (some [49])] ++ work 1

theorem handle_valid_new : ∃ x, Reachable (machine (platform [(0x1013, 0, 5)])) x ∧
    handleId x.srv 0 = some 5 ∧ HandleValid x.srv 0 77 := by
  have h : (machine (platform [(0x1013, 0, 5)])).reaches (initSystem (fun _ => 10)) client
      (fun x => handleId x.srv 0 == some 5 && x.srv.pxWsApiWaitingForResponse.isEmpty) = true := by
    decide +kernel
  obtain ⟨x, hrun, hx⟩ := exists_of_reaches h
  rw [Bool.and_eq_true, beq_iff_eq, List.isEmpty_iff] at hx
  have hr : Reachable (machine (platform [(0x1013, 0, 5)])) x := ⟨_, _, ⟨_, rfl⟩, hrun⟩
  exact ⟨x, hr, hx.1, (handle_valid_iff (.between hr) 0 77).2 (by simp [hx.2])⟩

/-- The handler is invoked with a live call whose id it cannot get, although it
could send a status to it. -/
theorem handle_refused_answer : ∃ x r, Reachable (machine (platform [(0x1013, 0, 5)])) x ∧
    answering x = some (r, 0) ∧ handleId x.srv 0 = some 5 ∧ ¬ HandleValid x.srv 0 77 := by
  have h : (machine (platform [(0x1013, 0, 5)])).reaches (initSystem (fun _ => 10))
      (client ++ answer) (fun x => (answering x).any (fun t => t.2 == 0) &&
        handleId x.srv 0 == some 5) = true := by
    decide +kernel
  obtain ⟨x, hrun, hx⟩ := exists_of_reaches h
  rw [Bool.and_eq_true, beq_iff_eq] at hx
  have hr : Reachable (machine (platform [(0x1013, 0, 5)])) x := ⟨_, _, ⟨_, rfl⟩, hrun⟩
  obtain ⟨⟨r, p⟩, ha, hp⟩ := (Option.any_eq_true _ _).1 hx.1
  obtain rfl := beq_iff_eq.1 hp
  refine ⟨x, r, hr, ha, hx.2, fun hvalid => ?_⟩
  rw [HandleValid, handler_refused hr ha 77, hx.2] at hvalid
  simp at hvalid

end WirelessGateway.CallHandles
