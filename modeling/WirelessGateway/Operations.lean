import WirelessGateway.Lifecycle
import WirelessGateway.SoftSteps

namespace WirelessGateway.Operations

open CJson WirelessGateway.Types Memory WsServer Transport Worker Tasks Buffers Sends WellFormed
open SoftSteps Lifecycle Lib.Linked Lib.Fallible

variable {P : Platform} {G : Guard} {s t : Server} {p : CallPtr} {c : ApiCall}

/-- The outcome of an operation: some acts, with every buffer counted. -/
structure Does (P : Platform) (G : Guard) (s t : Server) : Prop where
  acts : Acts P G s t
  net : NetOk t.net
  handling : t.handling = s.handling

theorem Does.refl (hs : Sound s) : Does P G s s := ⟨.refl, hs.net, rfl⟩

theorem Does.trans {u : Server} (h : Does P G s t) (h' : Does P G t u) : Does P G s u :=
  ⟨h.acts.trans h'.acts, h'.net, h'.handling.trans h.handling⟩

theorem Does.act (h : Act P G s t) (hn : NetOk t.net) (hh : t.handling = s.handling := by rfl) :
    Does P G s t := ⟨.single h, hn, hh⟩

theorem Does.soft (h : Soft s t) (hn : NetOk t.net) : Does P G s t := .act (.soft h) hn h.handling

theorem Does.sound (h : Does P G s t) (hs : Sound s) : Sound t :=
  ⟨(h.acts.preserve (I := fun _ => True) (fun _ _ _ _ _ => trivial) hs.wf trivial).1, h.net⟩

theorem Act.after (h : Soft s t) {u : Server} (ht : Act P G t u) (hn : NetOk u.net)
    (hh : u.handling = t.handling := by rfl) : Does P G s u :=
  ⟨(Relation.ReflTransGen.single (.soft h)).tail ht, hn, hh.trans h.handling⟩

theorem Act.withNet {n : Net} {u : Server} (h : Act P G (s.withNet n) u) (hn : NetOk u.net)
    (hh : u.handling = s.handling := by rfl) : Does P G s u := Act.after (.withNet s n) h hn hh

structure Outside (P : Platform) (G : Guard) (s t : Server) : Prop where
  outer : ∃ s', Soft s s' ∧ Outer P G s' t
  net : NetOk t.net
  handling : t.handling = s.handling

theorem Outside.does (h : Outside P G s t) : Does P G s t := by
  obtain ⟨s', hs, ht⟩ := h.outer
  exact ⟨(Relation.ReflTransGen.single (.soft hs)).tail ht.act, h.net, h.handling⟩

theorem Outside.soft (h : Soft s t) (hn : NetOk t.net) : Outside P G s t :=
  ⟨⟨t, h, .same t⟩, hn, h.handling⟩

theorem Outside.act (h : Outer P G s t) (hn : NetOk t.net) (hh : t.handling = s.handling := by rfl) :
    Outside P G s t := ⟨⟨s, .refl s, h⟩, hn, hh⟩

theorem Outer.after (h : Soft s t) {u : Server} (ht : Outer P G t u) (hn : NetOk u.net)
    (hh : u.handling = t.handling := by rfl) : Outside P G s u :=
  ⟨⟨t, h, ht⟩, hn, hh.trans h.handling⟩

theorem unlink_free (hc : s.calls p = some c) : (s.unlink p).freeCall p = .ok (removed s p) := by
  have hc' : (s.unlink p).calls p = some c := hc
  simp only [Server.freeCall, call_eq hc', ok_bind]
  rfl

theorem anyItem_eq (hc : s.calls p = some c) : anyItem s p = .ok true := by
  simp [anyItem, call_eq hc]

section FindNext

variable {found : Server → CallPtr → Fallible Bool} {g : CallPtr → Bool}

theorem findNext_calls (hs : WF s) (hp : p ∈ s.pxWsApiCall)
    (hg : ∀ p c, s.calls p = some c → found s p = .ok (g p)) :
    s.findNext p found = .ok ((after p s.pxWsApiCall).find? g) := by
  obtain ⟨c, hc⟩ := hs.call_of_mem (.inl hp)
  have hf : findFirst (found s) (after p s.pxWsApiCall) = .ok ((after p s.pxWsApiCall).find? g) := by
    apply findFirst_ok
    intro p' hp'
    obtain ⟨c', hc'⟩ := hs.call_of_mem (.inl (mem_of_mem_after hp'))
    exact hg p' c' hc'
  simp only [Server.findNext, call_eq hc, ok_bind, hp, if_true, hf]

theorem findNext_waiting (hs : WF s) (hp : p ∈ s.pxWsApiWaitingForResponse)
    (hg : ∀ p c, s.calls p = some c → found s p = .ok (g p)) :
    s.findNext p found = .ok ((after p s.pxWsApiWaitingForResponse).find? g) := by
  obtain ⟨c, hc⟩ := hs.call_of_mem (.inr hp)
  have hf : findFirst (found s) (after p s.pxWsApiWaitingForResponse) =
      .ok ((after p s.pxWsApiWaitingForResponse).find? g) := by
    apply findFirst_ok
    intro p' hp'
    obtain ⟨c', hc'⟩ := hs.call_of_mem (.inr (mem_of_mem_after hp'))
    exact hg p' c' hc'
  simp only [Server.findNext, call_eq hc, ok_bind, hs.not_call hp, hp, if_true, if_false, hf]

theorem findNext_any_calls (hs : WF s) (hp : p ∈ s.pxWsApiCall) :
    s.findNext p anyItem = .ok (after p s.pxWsApiCall).head? := by
  rw [← find?_true]
  exact findNext_calls hs hp (fun _ _ hc => anyItem_eq hc)

theorem findNext_any_waiting (hs : WF s) (hp : p ∈ s.pxWsApiWaitingForResponse) :
    s.findNext p anyItem = .ok (after p s.pxWsApiWaitingForResponse).head? := by
  rw [← find?_true]
  exact findNext_waiting hs hp (fun _ _ hc => anyItem_eq hc)

end FindNext

theorem controlOf_soft {q : SessPtr} {x : ApiSession} (hs : WF s) (hx : s.sessions q = some x)
    (type : FrameType) (sent : Bool) : Soft s (s.log (.control x.conn type sent)) :=
  Soft.frames (by simp [SoftEvent, hs.owner q x hx])

theorem vServeApiCall_live {q : SessPtr} (hs : Sound s) (hc : s.calls p = some c)
    (hq : c.session = some q) (env : WorkerEnv) : Calm s (vServeApiCall s p env) := by
  obtain ⟨x, hx⟩ := hs.wf.attached p c q hc hq
  have hctl := controlOf_soft hs.wf hx .ping env.pingSent
  simp only [vServeApiCall, call_eq hc, ok_bind, hq, session_eq hx]
  split_ifs with hdue hsent
  · exact (vApiCallComplete_calm (Soft.sound hctl hs hs.net) p).after hctl
  · have hx' : ((s.log (.control x.conn .ping env.pingSent)).passTicks env.elapsed).sessions q =
        some x := hx
    refine ⟨_, ?_, (hctl.trans (.passTicks _ env.elapsed)).trans
      (Soft.setSession (y := { x with ulPingTs := s.tick + env.elapsed }) hx' rfl rfl), hs.net⟩
    have hc' : ((s.log (.control x.conn .ping env.pingSent)).passTicks env.elapsed).calls p =
        some c := hc
    simp only [call_eq hc', hq, session_eq hx', ok_bind]
    rfl
  · exact .self hs.net

theorem vServeApiCall_dead (hc : s.calls p = some c) (hq : c.session = none) (env : WorkerEnv) :
    vServeApiCall s p env = .ok (removed s p) := by
  simp only [vServeApiCall, call_eq hc, ok_bind, hq]
  exact unlink_free hc

theorem vServeApiCall_does (hs : Sound s) (hc : s.calls p = some c) (env : WorkerEnv) :
    Returns (vServeApiCall s p env) (fun t => Does P G s t ∧
      ∀ z ≠ p, (z ∈ s.pxWsApiCall → z ∈ t.pxWsApiCall) ∧
        (z ∈ s.pxWsApiWaitingForResponse → z ∈ t.pxWsApiWaitingForResponse)) := by
  cases hq : c.session with
  | none =>
      refine ⟨_, vServeApiCall_dead hc hq env, .act (.release hc) hs.net, fun z hz => ?_⟩
      exact ⟨(List.mem_erase_of_ne hz).2, (List.mem_erase_of_ne hz).2⟩
  | some q =>
      apply (vServeApiCall_live hs hc hq env).mono
      rintro t ⟨ht, hn⟩
      refine ⟨.soft ht hn, fun z _ => ?_⟩
      rw [ht.lists, ht.waiting]
      exact ⟨id, id⟩

theorem setCall_self (hc : s.calls p = some c) : s.setCall p c = s := by
  simp [Server.setCall, ← hc]

end WirelessGateway.Operations
