import WirelessGateway.Operations

namespace WirelessGateway.Forwarding

open CJson WirelessGateway.Types Memory WsServer Worker Tasks Buffers Sends WellFormed SoftSteps
open Lifecycle Operations Lib.Linked Lib.Fallible

variable {P : Platform} {G : Guard} {s t : Server} {p : CallPtr} {c : ApiCall}

theorem refuseCall_eq (hs : Sound s) (hc : s.calls p = some c) (env : WorkerEnv) :
    ∃ m, NetOk m ∧ refuseCall s p env = .ok (refused (s.withNet m) p c env.busy) := by
  have hs' : Attached (s.log (.refuse p)) := hs.wf.attached
  have hc' : (s.log (.refuse p)).calls p = some c := hc
  obtain ⟨m, hm, he⟩ := apiCallSendJson_eq hs' hs.net hc' .worker (.status apiCallStatusBusy) env.busy
  refine ⟨m, hm, ?_⟩
  have hrec : record (s.log (.refuse p)) m (attempts (s.log (.refuse p)) .worker p
      (.status apiCallStatusBusy) env.busy) =
      frames (s.withNet m) (.refuse p :: attempts (s.withNet m) .worker p
        (.status apiCallStatusBusy) env.busy) := by
    simp only [record, frames, Server.log, Server.withNet, List.append_assoc]
    rfl
  simp only [refuseCall, bApiCallSendStatus, he, ok_bind, hrec]
  exact modifyCall_eq (s := frames (s.withNet m) _) hc _

/-- No message can be allocated for the request of a call. -/
def stalls (c : ApiCall) (env : WorkerEnv) : Bool :=
  !env.msgAlloc ||
    (c.longTerm && (c.pucReqData.isSome && decide (0 < c.ulReqDataLen)) && !env.dataAlloc)

theorem msgAlloc_of_not_stalls {env : WorkerEnv} (h : stalls c env = false) :
    env.msgAlloc = true := by
  simpa using (Bool.or_eq_false_iff.1 h).1

theorem dataAlloc_of_not_stalls {env : WorkerEnv} (h : stalls c env = false)
    (hl : c.longTerm = true) (hdata : (c.pucReqData.isSome && decide (0 < c.ulReqDataLen)) = true) :
    env.dataAlloc = true := by
  simpa [hl, hdata] using (Bool.or_eq_false_iff.1 h).2

theorem queueSend_room {q : QueueId} (h : (s.periph q).queue.length < (s.periph q).depth)
    (r : Request) : queueSend s q r = some (pushed s q r) := if_pos h

theorem queueSend_full {q : QueueId} (h : (s.periph q).depth ≤ (s.periph q).queue.length)
    (r : Request) : queueSend s q r = none := if_neg (Nat.not_lt.2 h)

theorem forward_stalls (hc : s.calls p = some c) (q : QueueId) {env : WorkerEnv}
    (h : stalls c env = true) : vForwardCallToPeripheral s p q env = .ok (stalled s p) := by
  simp only [vForwardCallToPeripheral, call_eq hc, ok_bind]
  cases hmsg : env.msgAlloc with
  | false => rfl
  | true =>
      simp only [stalls, hmsg, Bool.not_true, Bool.false_or, Bool.and_eq_true,
        Bool.not_eq_true'] at h
      obtain ⟨⟨hl, hdata⟩, hd⟩ := h
      simp only [hl, hdata, hd, Bool.and_self, Bool.not_false, Bool.not_true, Bool.false_eq_true,
        if_true, if_false]
      rfl

theorem forward_refuses (hc : s.calls p = some c) {q : QueueId} {env : WorkerEnv}
    (h : stalls c env = false) (hfull : (s.periph q).depth ≤ (s.periph q).queue.length) :
    vForwardCallToPeripheral s p q env = refuseCall s p env := by
  simp only [vForwardCallToPeripheral, call_eq hc, ok_bind, queueSend_full hfull,
    msgAlloc_of_not_stalls h, Bool.not_true, Bool.false_eq_true, if_false]
  cases hl : c.longTerm with
  | false => rfl
  | true =>
      cases hdata : c.pucReqData.isSome && decide (0 < c.ulReqDataLen) with
      | false => simp
      | true =>
          have hd := dataAlloc_of_not_stalls h hl hdata
          simp [hd]

theorem forward_pushes (hc : s.calls p = some c) {q : QueueId} {env : WorkerEnv}
    (h : stalls c env = false) (hroom : (s.periph q).queue.length < (s.periph q).depth) :
    vForwardCallToPeripheral s p q env = .ok (forwarded s p c q) := by
  simp only [vForwardCallToPeripheral, call_eq hc, ok_bind, queueSend_room hroom,
    msgAlloc_of_not_stalls h, Bool.not_true, Bool.false_eq_true, if_false]
  cases hl : c.longTerm with
  | false =>
      have hreq : (⟨c.ulFid, c.ulId, c.pucReqData, c.ulReqDataLen⟩ : WebapiMsg) = requestOf c := by
        simp [requestOf, hl]
      rw [if_neg Bool.false_ne_true, hreq, modifyCall_eq (c := c) (by exact hc)]
      simp [forwarded, hl]
  | true =>
      have hkeep : pushed s q ⟨requestOf c, p⟩ = forwarded s p c q := by
        rw [forwarded, if_pos hl]
        exact (setCall_self (s := pushed s q ⟨requestOf c, p⟩) hc).symm
      cases hdata : c.pucReqData.isSome && decide (0 < c.ulReqDataLen) with
      | false =>
          have hreq : (⟨c.ulFid, c.ulId, none, c.ulReqDataLen⟩ : WebapiMsg) = requestOf c := by
            simp [requestOf, hl, hdata]
          rw [if_pos rfl, if_neg Bool.false_ne_true, hreq, hkeep]
          rfl
      | true =>
          have hd := dataAlloc_of_not_stalls h hl hdata
          have hreq : (⟨c.ulFid, c.ulId, c.pucReqData.map (fun bs => bs.take c.ulReqDataLen),
              c.ulReqDataLen⟩ : WebapiMsg) = requestOf c := by
            simp [requestOf, hl, hdata]
          rw [if_pos rfl, if_pos rfl, hd, hreq, hkeep]
          rfl

section Attempt

variable {q : QueueId} {env : WorkerEnv}

/-- What vForwardCallToPeripheral leaves behind. -/
def attempted (s : Server) (p : CallPtr) (c : ApiCall) (q : QueueId) (env : WorkerEnv) : Server :=
  if stalls c env then stalled s p
  else if (s.periph q).queue.length < (s.periph q).depth then forwarded s p c q
  else refused s p c env.busy

theorem vForwardCallToPeripheral_attempted (hs : Sound s) (hc : s.calls p = some c) (q : QueueId)
    (env : WorkerEnv) : ∃ m, NetOk m ∧
      vForwardCallToPeripheral s p q env = .ok ((attempted s p c q env).withNet m) := by
  obtain ⟨m, hm, hr⟩ := refuseCall_eq hs hc env
  unfold attempted
  cases hstall : stalls c env with
  | true => exact ⟨s.net, hs.net, forward_stalls hc q hstall⟩
  | false =>
      by_cases hroom : (s.periph q).queue.length < (s.periph q).depth
      · refine ⟨s.net, hs.net, (forward_pushes hc hstall hroom).trans ?_⟩
        rw [if_neg Bool.false_ne_true, if_pos hroom]
        rfl
      · refine ⟨m, hm, ((forward_refuses hc hstall (Nat.not_lt.1 hroom)).trans hr).trans ?_⟩
        rw [if_neg Bool.false_ne_true, if_neg hroom]
        rfl

theorem attempted_call (hc : s.calls p = some c) (q : QueueId) (env : WorkerEnv) :
    ∃ d, (attempted s p c q env).calls p = some d ∧ d.isNew = c.isNew ∧ d.toDelete = c.toDelete := by
  unfold attempted
  split_ifs
  · exact ⟨c, hc, rfl, rfl⟩
  · refine ⟨_, setCall_calls_self .., ?_⟩
    split <;> exact ⟨rfl, rfl⟩
  · exact ⟨_, setCall_calls_self .., rfl, rfl⟩

theorem attempted_pxWsApiCall : (attempted s p c q env).pxWsApiCall = s.pxWsApiCall := by
  unfold attempted
  split_ifs <;> rfl

theorem attempted_calls_ne {r : CallPtr} (hr : r ≠ p) :
    (attempted s p c q env).calls r = s.calls r := by
  unfold attempted
  split_ifs
  · rfl
  · exact setCall_calls_ne hr
  · exact setCall_calls_ne hr

end Attempt

section Delete

variable {item : CallPtr} {fd : Int} {fid id : UInt32}

def clientMatch (s : Server) (fd : Int) (fid id : UInt32) (p : CallPtr) : Bool :=
  (target s p).any (fun t => t.2.fd == fd && t.1.ulFid == fid && t.1.ulId == id)

theorem bCallClientIdMatch_eq (hs : Attached s) (hc : s.calls p = some c) (fd : Int)
    (fid id : UInt32) : bCallClientIdMatch fd fid id s p = .ok (clientMatch s fd fid id p) := by
  cases hq : c.session with
  | none => simp [bCallClientIdMatch, call_eq hc, hq, clientMatch, target_eq_none hc hq]
  | some q =>
      obtain ⟨x, hx, ht⟩ := hs.target hc hq
      simp [bCallClientIdMatch, call_eq hc, hq, session_eq hx, clientMatch, ht]

/-- Nothing happened to an item, nor to what is in front of it, but calls that
were taken away. -/
structure Spares (item : CallPtr) (s t : Server) : Prop where
  call : t.calls item = s.calls item
  linked : item ∈ s.pxWsApiCall → item ∈ t.pxWsApiCall
  front : ∀ z ∈ before item t.pxWsApiCall, z ∈ before item s.pxWsApiCall
  calls : ∀ z d, t.calls z = some d → s.calls z = some d

theorem Spares.refl (item : CallPtr) (s : Server) : Spares item s s :=
  ⟨rfl, id, fun _ hz => hz, fun _ _ hd => hd⟩

theorem Spares.trans {u : Server} (h : Spares item s t) (h' : Spares item t u) :
    Spares item s u where
  call := h'.call.trans h.call
  linked hi := h'.linked (h.linked hi)
  front z hz := h.front z (h'.front z hz)
  calls z d hd := h.calls z d (h'.calls z d hd)

theorem Spares.removed (hp : p ≠ item) (s : Server) : Spares item s (removed s p) where
  call := Function.update_of_ne (Ne.symm hp) _ _
  linked hi := (List.mem_erase_of_ne (Ne.symm hp)).2 hi
  front z hz := mem_before_erase hp hz
  calls z d hd := by
    by_cases hz : z = p
    · simp [hz] at hd
    · exact removed_calls_ne hz ▸ hd

theorem deleteMatching_does {items : Server → List CallPtr}
    (hitems : ∀ s, WF s → ∀ p ∈ items s, ∃ c, s.calls p = some c) (n : Nat) (hs : Sound s)
    (hitem : target s item = none) :
    Returns (deleteMatching fd fid id items n s) (fun t => Does P G s t ∧ Spares item s t) := by
  induction n generalizing s with
  | zero => exact .pure ⟨.refl hs, .refl item s⟩
  | succ n ih =>
      have hfind : findFirst (bCallClientIdMatch fd fid id s) (items s) =
          .ok ((items s).find? (clientMatch s fd fid id)) := by
        apply findFirst_ok
        intro p hp
        obtain ⟨c, hc⟩ := hitems s hs.wf p hp
        exact bCallClientIdMatch_eq hs.wf.attached hc fd fid id
      simp only [deleteMatching, hfind, ok_bind]
      cases hf : (items s).find? (clientMatch s fd fid id) with
      | none => exact .pure ⟨.refl hs, .refl item s⟩
      | some found =>
          obtain ⟨c, hc⟩ := hitems s hs.wf found (List.mem_of_find?_eq_some hf)
          have hne : found ≠ item := by
            rintro rfl
            have := List.find?_some hf
            simp [clientMatch, hitem] at this
          simp only [unlink_free hc, ok_bind]
          have hact : Does P G s (removed s found) := .act (.release hc) hs.net
          have htarget : target (removed s found) item = none := by
            simp only [target, (Spares.removed hne s).call]
            exact hitem
          apply (ih (hact.sound hs) htarget).mono
          rintro t ⟨hd, hsp⟩
          exact ⟨hact.trans hd, (Spares.removed hne s).trans hsp⟩

end Delete

/-- The item that the forward loop goes on with. All that it has passed and
left behind are parked LONG_TERM calls. -/
def ForwardAt (s : Server) (item : Option CallPtr) : Prop :=
  ∀ p, item = some p → p ∈ s.pxWsApiCall ∧
    ∀ z ∈ before p s.pxWsApiCall, ∀ c, s.calls z = some c → c.longTerm = true

theorem ForwardAt.head (s : Server) : ForwardAt s s.pxWsApiCall.head? := by
  intro p hp
  refine ⟨List.mem_of_mem_head? hp, fun z hz => ?_⟩
  rw [before_head hp] at hz
  cases hz

theorem ForwardAt.next (hs : WF s) (h : ForwardAt s (some p)) (hc : s.calls p = some c)
    (hl : c.longTerm = true) : ForwardAt s (after p s.pxWsApiCall).head? := by
  obtain ⟨hp, hfront⟩ := h p rfl
  intro p' hp'
  refine ⟨mem_of_mem_after (List.mem_of_mem_head? hp'), fun z hz d hd => ?_⟩
  rw [before_next (List.nodup_append.1 hs.nodup).1 hp hp', List.mem_append,
    List.mem_singleton] at hz
  rcases hz with hz | rfl
  · exact hfront z hz d hd
  · rw [hc, Option.some.injEq] at hd
    exact hd ▸ hl

theorem ForwardAt.erase (hs : WF s) (h : ForwardAt s (some p))
    (hl : t.pxWsApiCall = s.pxWsApiCall.erase p)
    (hcalls : ∀ z ≠ p, ∀ d, t.calls z = some d → s.calls z = some d) :
    ForwardAt t (after p s.pxWsApiCall).head? := by
  obtain ⟨hp, hfront⟩ := h p rfl
  have hn := (List.nodup_append.1 hs.nodup).1
  intro p' hp'
  have hne := ne_of_mem_after hn (List.mem_of_mem_head? hp')
  rw [hl]
  refine ⟨(List.mem_erase_of_ne hne).2 (mem_of_mem_after (List.mem_of_mem_head? hp')), ?_⟩
  rw [before_erase_head hn hp hp']
  intro z hz d hd
  have hzp : z ≠ p := by
    rintro rfl
    exact not_mem_before z _ hz
  exact hfront z hz d (hcalls z hzp d hd)

theorem removed_calls (s : Server) (p : CallPtr) :
    ∀ z ≠ p, ∀ d, (removed s p).calls z = some d → s.calls z = some d := by
  intro z hz d hd
  rwa [removed_calls_ne hz] at hd

theorem ForwardAt.spares (h : ForwardAt s (some p)) (hsp : Spares p s t) : ForwardAt t (some p) := by
  obtain ⟨hp, hfront⟩ := h p rfl
  intro p' hp'
  cases hp'
  exact ⟨hsp.linked hp, fun z hz d hd => hfront z (hsp.front z hz) d (hsp.calls z d hd)⟩

theorem deleteCall_does (hs : Sound s) (hf : ForwardAt s (some p)) (hc : s.calls p = some c)
    (hdel : c.toDelete = true) (env : WorkerEnv) :
    Returns (deleteCall s p (after p s.pxWsApiCall).head? env)
      (fun r => Does P G s r.1 ∧ ForwardAt r.1 r.2) := by
  obtain ⟨m, hm, he⟩ := apiCallSendJson_eq hs.wf.attached hs.net hc .worker
    (.status apiCallStatusDelivered) env.status
  have hsoft : Soft s (record s m (attempts s .worker p (.status apiCallStatusDelivered)
      env.status)) := .record (attempts_soft hc (by simp) (fun _ => hdel) (by simp) env.status)
  generalize hs₁ : record s m (attempts s .worker p (.status apiCallStatusDelivered) env.status) = s₁
    at he hsoft
  have hc₁ : s₁.calls p = some c := by
    rw [← hs₁]
    exact hc
  have hsound₁ : Sound s₁ := Soft.sound hsoft hs (by rw [← hs₁]; exact hm)
  have hf₁ : ForwardAt s₁ (some p) := by
    rw [← hs₁]
    exact hf
  have hlist : s₁.pxWsApiCall = s.pxWsApiCall := hsoft.lists
  simp only [deleteCall, bApiCallSendStatus, he, ok_bind, call_eq hc₁]
  cases hq : c.session with
  | none =>
      simp only [Option.isSome_none, Bool.false_eq_true, if_false, unlink_free hc₁, ok_bind]
      refine .pure ⟨Act.after hsoft (.release hc₁) hsound₁.net, ?_⟩
      rw [← hlist]
      exact hf₁.erase hsound₁.wf rfl (removed_calls s₁ p)
  | some q =>
      obtain ⟨x, hx⟩ := hsound₁.wf.attached p c q hc₁ hq
      simp only [Option.isSome_some, if_true, session_eq hx, ok_bind, modifyCall_eq hc₁]
      have hsoft₂ := hsoft.trans (Soft.setCall hc₁ (dropSession_weaker c))
      have hspare₂ : ∀ z, z ∈ before p (s₁.setCall p c.dropSession).pxWsApiCall →
          ∀ d, (s₁.setCall p c.dropSession).calls z = some d → d.longTerm = true := by
        intro z hz d hd
        have hzp : z ≠ p := by
          rintro rfl
          exact not_mem_before z _ hz
        rw [setCall_calls_ne hzp] at hd
        exact (hf₁ p rfl).2 z hz d hd
      have hf₂ : ForwardAt (s₁.setCall p c.dropSession) (some p) := by
        intro p' hp'
        cases hp'
        exact ⟨(hf₁ p rfl).1, hspare₂⟩
      have hc₂ := setCall_calls_self s₁ p c.dropSession
      have hsound₂ : Sound (s₁.setCall p c.dropSession) := Soft.sound hsoft₂ hs hsound₁.net
      generalize s₁.setCall p c.dropSession = s₂ at *
      apply (deleteMatching_does (P := P) (G := G) (fun s h p hp => h.call_of_mem (.inr hp)) _ hsound₂
        (target_eq_none hc₂ rfl)).bind
      rintro s₃ ⟨hd₃, hsp₃⟩
      have hsound₃ := hd₃.sound hsound₂
      apply (deleteMatching_does (P := P) (G := G) (fun s h p hp => h.call_of_mem (.inl hp)) _ hsound₃
        (target_eq_none (hsp₃.call.trans hc₂) rfl)).bind
      rintro s₄ ⟨hd₄, hsp₄⟩
      have hsound₄ := hd₄.sound hsound₃
      have hf₄ := (hf₂.spares hsp₃).spares hsp₄
      have hc₄ := (hsp₄.call.trans hsp₃.call).trans hc₂
      simp only [findNext_any_calls hsound₄.wf (hf₄ p rfl).1, unlink_free hc₄, ok_bind]
      refine .pure ⟨?_, hf₄.erase hsound₄.wf rfl (removed_calls s₄ p)⟩
      have h₂ : Does P G s s₂ := .soft hsoft₂ hsound₂.net
      exact ((h₂.trans hd₃).trans hd₄).trans (.act (.release hc₄) hsound₄.net)

def wouldStall (s : Server) (p : CallPtr) (env : WorkerEnv) : Bool :=
  (s.calls p).any (fun c =>
    !c.toDelete && !parked s c && (s.wsGetFidQueue c.ulFid).isSome && stalls c env)

def told (s : Server) (p : CallPtr) (env : SendEnv) : Server :=
  match s.calls p with
  | some d => if d.isNew then announced s p d env else s
  | none => s

theorem announce_told {d : ApiCall} (hs : Sound s) (hd : s.calls p = some d) (env : SendEnv)
    (next : Option CallPtr) : ∃ m, NetOk m ∧ (do
      let call ← s.call p
      if call.isNew then
        let (s, sent) ← bApiCallSendStatus s .worker p apiCallStatusDelivered env
        let s ← if sent then s.modifyCall p ApiCall.clearNew else pure s
        pure (s, next)
      else pure (s, next)) = .ok ((told s p env).withNet m, next) := by
  rw [call_eq hd, ok_bind, told, hd]
  cases hnew : d.isNew with
  | false =>
      refine ⟨s.net, hs.net, ?_⟩
      simp only [hnew, Bool.false_eq_true, if_false]
      rfl
  | true =>
      obtain ⟨m, hm, he⟩ := apiCallSendJson_eq hs.wf.attached hs.net hd .worker
        (.status apiCallStatusDelivered) env
      refine ⟨m, hm, ?_⟩
      have hd' : (record s m (attempts s .worker p (.status apiCallStatusDelivered) env)).calls p =
          some d := hd
      simp only [bApiCallSendStatus, he, ok_bind, if_true, announced, hnew]
      cases hsent : delivered s p env with
      | true =>
          simp only [if_true, modifyCall_eq hd', ok_bind]
          rfl
      | false =>
          have hkeep := setCall_self hd'
          simp only [Bool.false_eq_true, if_false, pure_ok, ok_bind]
          exact congrArg (fun u => Except.ok (u, next)) hkeep.symm

theorem told_does {d : ApiCall} (hp : p ∈ s.pxWsApiWaitingForResponse)
    (hd : s.calls p = some d) (hdel : d.toDelete = false) (env : SendEnv) {m : Net} (hm : NetOk m) :
    Does P G s ((told s p env).withNet m) ∧ (told s p env).pxWsApiCall = s.pxWsApiCall ∧
      ∀ z ≠ p, (told s p env).calls z = s.calls z := by
  cases hnew : d.isNew with
  | false =>
      have ht : told s p env = s := by simp only [told, hd, hnew, Bool.false_eq_true, if_false]
      rw [ht]
      exact ⟨.soft (.withNet s m) hm, rfl, fun _ _ => rfl⟩
  | true =>
      have ht : told s p env = announced s p d env := by simp only [told, hd, hnew, if_true]
      rw [ht]
      exact ⟨Act.withNet (n := m) (.announce hp hd hdel hnew) hm, rfl, fun z hz => setCall_calls_ne hz⟩

theorem invalid_told (hs : Sound s) (hc : s.calls p = some c) (env : SendEnv)
    (next : Option CallPtr) : ∃ m, NetOk m ∧ (do
      let (s, _) ← bApiCallSendStatus s .worker p apiCallStatusInvalid env
      let s ← (s.unlink p).freeCall p
      pure (s, next)) = .ok ((invalidated s p env).withNet m, next) := by
  obtain ⟨m, hm, he⟩ := apiCallSendJson_eq hs.wf.attached hs.net hc .worker
    (.status apiCallStatusInvalid) env
  have hc' : (record s m (attempts s .worker p (.status apiCallStatusInvalid) env)).calls p =
      some c := hc
  refine ⟨m, hm, ?_⟩
  simp only [bApiCallSendStatus, he, ok_bind, unlink_free hc']
  rfl

theorem forwardItem_does (hs : Sound s) (hf : ForwardAt s (some p)) (env : WorkerEnv)
    (hG : wouldStall s p env = true → G.stall s p) :
    Returns (forwardItem s p env) (fun r => Does P G s r.1 ∧ ForwardAt r.1 r.2) := by
  obtain ⟨hp, hfront⟩ := hf p rfl
  obtain ⟨c, hc⟩ := hs.wf.call_of_mem (.inl hp)
  simp only [forwardItem, findNext_any_calls hs.wf hp, call_eq hc, ok_bind]
  cases hdel : c.toDelete with
  | true => exact deleteCall_does hs hf hc hdel env
  | false =>
      simp only [Bool.false_eq_true, if_false]
      cases hpark : parked s c with
      | true =>
          have hl : c.longTerm = true := by
            simp only [parked, Bool.and_eq_true] at hpark
            exact hpark.1.1
          exact .pure ⟨.refl hs, hf.next hs.wf hc hl⟩
      | false =>
          simp only [Bool.false_eq_true, if_false]
          cases hq : s.wsGetFidQueue c.ulFid with
          | none =>
              obtain ⟨m, hm, he⟩ := invalid_told hs hc env.status (after p s.pxWsApiCall).head?
              exact ⟨_, he, Act.withNet (n := m) (.invalid hp hc hdel hq) hm,
                hf.erase hs.wf rfl (removed_calls _ p)⟩
          | some q =>
              obtain ⟨m, hm, he⟩ := vForwardCallToPeripheral_attempted hs hc q env
              -- every outcome moves the call behind the waiting ones
              have hact : Does P G s (((attempted s p c q env).withNet m).toWaiting p) := by
                unfold attempted
                split_ifs with hst hroom
                · have hst' := hG (by simp [wouldStall, hc, hdel, hpark, hq, hst])
                  have hstall : Does P G s ((stalled s p).toWaiting p) :=
                    .act (.stall hp hc hdel hq hst') hs.net
                  exact hstall.trans (.soft (.withNet _ m) hm)
                · exact Act.withNet (n := m) (.forward hp hc hdel hq hroom hfront) hm
                · exact Act.withNet (n := m) (.refuse hp hc hdel hq (Nat.not_lt.1 hroom)) hm
              obtain ⟨d, hd, -, hdd⟩ := attempted_call hc q env
              have hd' : (((attempted s p c q env).withNet m).toWaiting p).calls p = some d := hd
              simp only [he, ok_bind]
              obtain ⟨m', hm', ht⟩ := announce_told (hact.sound hs) hd' env.status
                (after p s.pxWsApiCall).head?
              obtain ⟨hr, hrl, hrc⟩ := told_does (P := P) (G := G)
                (List.mem_append_right _ (List.mem_singleton.2 rfl)) hd' (hdd.trans hdel) env.status hm'
              refine ⟨_, ht, hact.trans hr, hf.erase hs.wf ?_ (fun z hz e he => ?_)⟩
              · exact hrl.trans (congrArg (fun l => l.erase p) attempted_pxWsApiCall)
              · exact (attempted_calls_ne hz).symm.trans ((hrc z hz).symm.trans he)

end WirelessGateway.Forwarding
