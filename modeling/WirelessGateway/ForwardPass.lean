import WirelessGateway.Forwarding

namespace WirelessGateway.ForwardPass

open CJson WirelessGateway.Types Memory WsServer Worker Tasks Buffers Sends WellFormed SoftSteps
open Lifecycle Operations Forwarding Lib.Linked Lib.Fallible

variable {s t : Server} {p r : CallPtr} {c d : ApiCall} {x : ApiSession}

def removedAll (s : Server) (ps : List CallPtr) : Server := ps.foldl removed s

section Remove

variable {ps : List CallPtr} {fd : Int} {fid id : UInt32}

theorem removedAll_calls (s : Server) (ps : List CallPtr) (r : CallPtr) :
    (removedAll s ps).calls r = if r ∈ ps then none else s.calls r := by
  induction ps generalizing s with
  | nil => simp [removedAll]
  | cons p ps ih =>
      refine (ih (removed s p)).trans ?_
      by_cases hp : r = p
      · subst hp
        simp
      · simp [hp, removed_calls_ne hp]

theorem filter_erase {l : List CallPtr} (hn : l.Nodup) (p : CallPtr) (ps : List CallPtr) :
    (l.erase p).filter (fun r => !decide (r ∈ ps)) = l.filter (fun r => !decide (r ∈ p :: ps)) := by
  rw [hn.erase_eq_filter, List.filter_filter]
  apply List.filter_congr
  intro r _
  by_cases hr : r = p <;> simp [hr]

theorem removedAll_pxWsApiCall (hn : s.pxWsApiCall.Nodup) (ps : List CallPtr) :
    (removedAll s ps).pxWsApiCall = s.pxWsApiCall.filter (fun r => !decide (r ∈ ps)) := by
  induction ps generalizing s with
  | nil => simp [removedAll]
  | cons p ps ih => exact (ih (s := removed s p) (hn.erase p)).trans (filter_erase hn p ps)

theorem removedAll_waiting (hn : s.pxWsApiWaitingForResponse.Nodup) (ps : List CallPtr) :
    (removedAll s ps).pxWsApiWaitingForResponse =
      s.pxWsApiWaitingForResponse.filter (fun r => !decide (r ∈ ps)) := by
  induction ps generalizing s with
  | nil => simp [removedAll]
  | cons p ps ih => exact (ih (s := removed s p) (hn.erase p)).trans (filter_erase hn p ps)

theorem removedAll_trace (s : Server) (ps : List CallPtr) :
    (removedAll s ps).trace = s.trace ++ ps.map Event.free := by
  induction ps generalizing s with
  | nil => simp [removedAll]
  | cons p ps ih =>
      rw [List.map_cons, List.append_cons]
      exact ih (removed s p)

theorem removedAll_wf (hs : WF s) (ps : List CallPtr) : WF (removedAll s ps) := by
  induction ps generalizing s with
  | nil => exact hs
  | cons p ps ih => exact ih (removed_wf hs p)

theorem removedAll_sessions (s : Server) (ps : List CallPtr) :
    (removedAll s ps).sessions = s.sessions := by
  induction ps generalizing s with
  | nil => rfl
  | cons p ps ih => exact ih (removed s p)

theorem clientMatch_removedAll (s : Server) (ps : List CallPtr) (r : CallPtr) :
    clientMatch (removedAll s ps) fd fid id r = (!decide (r ∈ ps) && clientMatch s fd fid id r) := by
  simp only [clientMatch, target, removedAll_calls, removedAll_sessions]
  by_cases hr : r ∈ ps <;> simp [hr]

theorem deleteMatching_eq {items : Server → List CallPtr}
    (hitems : ∀ s p, items (removed s p) = (items s).erase p)
    (hlive : ∀ s, WF s → (items s).Nodup ∧ ∀ p ∈ items s, ∃ c, s.calls p = some c) (n : Nat)
    (hs : WF s) (hn : ((items s).filter (clientMatch s fd fid id)).length ≤ n) :
    deleteMatching fd fid id items n s =
      .ok (removedAll s ((items s).filter (clientMatch s fd fid id))) := by
  induction n generalizing s with
  | zero =>
      rw [List.length_eq_zero_iff.1 (Nat.le_zero.1 hn)]
      rfl
  | succ n ih =>
      obtain ⟨hnodup, hcalls⟩ := hlive s hs
      have hfind : findFirst (bCallClientIdMatch fd fid id s) (items s) =
          .ok ((items s).filter (clientMatch s fd fid id)).head? := by
        rw [List.head?_filter]
        apply findFirst_ok
        intro p hp
        obtain ⟨c, hc⟩ := hcalls p hp
        exact bCallClientIdMatch_eq hs.attached hc fd fid id
      simp only [deleteMatching, hfind, ok_bind]
      cases hf : (items s).filter (clientMatch s fd fid id) with
      | nil => rfl
      | cons a as =>
          have ha : a ∈ items s := (List.mem_filter.1 (hf ▸ List.mem_cons_self)).1
          obtain ⟨c, hc⟩ := hcalls a ha
          have hrest : (items (removed s a)).filter (clientMatch (removed s a) fd fid id) = as := by
            have hmatch : clientMatch (removed s a) fd fid id =
                fun r => (!decide (r ∈ [a]) && clientMatch s fd fid id r) :=
              funext (fun r => clientMatch_removedAll s [a] r)
            have hnf := hnodup.filter (clientMatch s fd fid id)
            rw [hf, List.nodup_cons] at hnf
            rw [hitems, hnodup.erase_eq_filter, hmatch, List.filter_filter]
            have hpred : (items s).filter (fun r => (!decide (r ∈ [a]) && clientMatch s fd fid id r) &&
                (r != a)) = ((items s).filter (clientMatch s fd fid id)).filter (fun r => r != a) := by
              rw [List.filter_filter]
              apply List.filter_congr
              intro r _
              by_cases hr : r = a <;> simp [hr, Bool.and_comm]
            rw [hpred, hf, List.filter_cons_of_neg (by simp), List.filter_eq_self]
            intro r hr
            exact bne_iff_ne.2 (fun he => hnf.1 (he ▸ hr))
          rw [List.head?_cons]
          simp only [unlink_free hc, ok_bind]
          rw [ih (removed_wf hs a) (by
            rw [hrest]
            rw [hf, List.length_cons] at hn
            exact Nat.le_of_succ_le_succ hn), hrest]
          rfl

end Remove

section Clear

variable {fd : Int} {fid id : UInt32}

def cleared (s : Server) (fd : Int) (fid id : UInt32) : Server :=
  let t := removedAll s (s.pxWsApiWaitingForResponse.filter (clientMatch s fd fid id))
  removedAll t (t.pxWsApiCall.filter (clientMatch t fd fid id))

theorem cleared_eq (hs : WF s) : cleared s fd fid id = removedAll s
    ((s.pxWsApiWaitingForResponse ++ s.pxWsApiCall).filter (clientMatch s fd fid id)) := by
  generalize hW : s.pxWsApiWaitingForResponse.filter (clientMatch s fd fid id) = W
  have hlist : (removedAll s W).pxWsApiCall.filter (clientMatch (removedAll s W) fd fid id) =
      s.pxWsApiCall.filter (clientMatch s fd fid id) := by
    rw [removedAll_pxWsApiCall (List.nodup_append.1 hs.nodup).1, List.filter_filter]
    apply List.filter_congr
    intro r hr
    have hrW : r ∉ W := fun hm => hs.not_waiting hr (List.mem_filter.1 (hW ▸ hm)).1
    simp [clientMatch_removedAll, hrW]
  simp only [cleared, hW, hlist, List.filter_append]
  exact (List.foldl_append).symm

theorem clientMatch_mem (hs : WF s) {r : CallPtr} : r ∈ (s.pxWsApiWaitingForResponse ++
    s.pxWsApiCall).filter (clientMatch s fd fid id) ↔ clientMatch s fd fid id r = true := by
  rw [List.mem_filter, and_iff_right_iff_imp]
  intro hm
  cases hc : s.calls r with
  | none => simp [clientMatch, target, hc] at hm
  | some d => exact List.mem_append.2 (hs.mem_of_call hc).symm

theorem cleared_calls (hs : WF s) (r : CallPtr) : (cleared s fd fid id).calls r =
    if clientMatch s fd fid id r then none else s.calls r := by
  rw [cleared_eq hs, removedAll_calls]
  simp only [clientMatch_mem hs]

theorem cleared_pxWsApiCall (hs : WF s) : (cleared s fd fid id).pxWsApiCall =
    s.pxWsApiCall.filter (fun r => !clientMatch s fd fid id r) := by
  rw [cleared_eq hs, removedAll_pxWsApiCall (List.nodup_append.1 hs.nodup).1]
  simp only [clientMatch_mem hs, Bool.decide_eq_true]

theorem cleared_waiting (hs : WF s) : (cleared s fd fid id).pxWsApiWaitingForResponse =
    s.pxWsApiWaitingForResponse.filter (fun r => !clientMatch s fd fid id r) := by
  rw [cleared_eq hs, removedAll_waiting (List.nodup_append.1 hs.nodup).2.1]
  simp only [clientMatch_mem hs, Bool.decide_eq_true]

theorem cleared_trace (hs : WF s) : (cleared s fd fid id).trace = s.trace ++
    ((s.pxWsApiWaitingForResponse ++ s.pxWsApiCall).filter (clientMatch s fd fid id)).map .free := by
  rw [cleared_eq hs, removedAll_trace]

theorem cleared_wf (hs : WF s) : WF (cleared s fd fid id) := by
  rw [cleared_eq hs]
  exact removedAll_wf hs _

theorem removedAll_withNet (s : Server) (m : Net) (ps : List CallPtr) :
    removedAll (s.withNet m) ps = (removedAll s ps).withNet m := by
  induction ps generalizing s with
  | nil => rfl
  | cons p ps ih => exact ih (removed s p)

theorem cleared_withNet (s : Server) (m : Net) :
    cleared (s.withNet m) fd fid id = (cleared s fd fid id).withNet m := by
  simp only [cleared, removedAll_withNet]
  rfl

theorem deleteMatching_cleared (hs : WF s) : (do
      let t ← deleteMatching fd fid id Server.pxWsApiWaitingForResponse
        s.pxWsApiWaitingForResponse.length s
      deleteMatching fd fid id Server.pxWsApiCall t.pxWsApiCall.length t) =
    .ok (cleared s fd fid id) := by
  rw [deleteMatching_eq (fun _ _ => rfl) (fun s hs => ⟨(List.nodup_append.1 hs.nodup).2.1,
    fun p hp => hs.call_of_mem (.inr hp)⟩) _ hs (List.length_filter_le _ _), ok_bind]
  exact deleteMatching_eq (fun _ _ => rfl) (fun s hs => ⟨(List.nodup_append.1 hs.nodup).1,
    fun p hp => hs.call_of_mem (.inl hp)⟩) _ (removedAll_wf hs _) (List.length_filter_le _ _)

end Clear

def detached (s : Server) (p : CallPtr) (c : ApiCall) (env : SendEnv) : Server :=
  (frames s (attempts s .worker p (.status apiCallStatusDelivered) env)).setCall p c.dropSession

/-- What the TO_DELETE branch leaves behind. -/
def deleted (s : Server) (p : CallPtr) (c : ApiCall) (env : SendEnv) : Server :=
  match target s p with
  | none => removed (frames s (attempts s .worker p (.status apiCallStatusDelivered) env)) p
  | some (_, x) => removed (cleared (detached s p c env) x.fd c.ulFid c.ulId) p

section Deleted

variable {env : SendEnv}

theorem detached_wf (hs : WF s) (hc : s.calls p = some c) : WF (detached s p c env) :=
  (frames_wf hs _).setCall hc (.inr rfl)

theorem clientMatch_detached (fd : Int) (fid id : UInt32) (r : CallPtr) :
    clientMatch (detached s p c env) fd fid id r = (r != p && clientMatch s fd fid id r) := by
  by_cases hr : r = p
  · subst hr
    have : target (detached s r c env) r = none := target_eq_none (setCall_calls_self _ _ _) rfl
    simp [clientMatch, this]
  · have : target (detached s p c env) r = target s r := by
      simp only [target, detached, setCall_calls_ne hr]
      rfl
    simp [clientMatch, this, hr]

theorem clientMatch_self (ht : target s p = some (c, x)) :
    clientMatch s x.fd c.ulFid c.ulId p = true := by
  simp [clientMatch, ht]

theorem deleted_calls (hs : WF s) (ht : target s p = some (c, x)) (r : CallPtr) :
    (deleted s p c env).calls r = if clientMatch s x.fd c.ulFid c.ulId r then none else s.calls r := by
  have hc := (target_eq_some_iff.1 ht).1
  simp only [deleted, ht]
  by_cases hr : r = p
  · rw [hr, removed_calls_self, clientMatch_self ht, if_pos rfl]
  · rw [removed_calls_ne hr, cleared_calls (detached_wf hs hc), clientMatch_detached,
      show (detached s p c env).calls r = s.calls r from setCall_calls_ne hr]
    simp [hr]

theorem filter_detached (env : SendEnv) (ht : target s p = some (c, x)) {l : List CallPtr} (hn : l.Nodup) :
    (l.filter (fun r => !clientMatch (detached s p c env) x.fd c.ulFid c.ulId r)).erase p =
      l.filter (fun r => !clientMatch s x.fd c.ulFid c.ulId r) := by
  rw [(hn.filter _).erase_eq_filter, List.filter_filter]
  apply List.filter_congr
  intro r _
  rw [clientMatch_detached]
  by_cases hr : r = p
  · simp [hr, clientMatch_self ht]
  · have hne : (r != p) = true := bne_iff_ne.2 hr
    simp [hne]

theorem deleted_pxWsApiCall (hs : WF s) (ht : target s p = some (c, x)) :
    (deleted s p c env).pxWsApiCall =
      s.pxWsApiCall.filter (fun r => !clientMatch s x.fd c.ulFid c.ulId r) := by
  have hc := (target_eq_some_iff.1 ht).1
  simp only [deleted, ht]
  rw [← filter_detached env ht (List.nodup_append.1 hs.nodup).1]
  exact congrArg (fun l => l.erase p) (cleared_pxWsApiCall (detached_wf hs hc))

theorem deleted_waiting (hs : WF s) (ht : target s p = some (c, x)) :
    (deleted s p c env).pxWsApiWaitingForResponse =
      s.pxWsApiWaitingForResponse.filter (fun r => !clientMatch s x.fd c.ulFid c.ulId r) := by
  have hc := (target_eq_some_iff.1 ht).1
  simp only [deleted, ht]
  rw [← filter_detached env ht (List.nodup_append.1 hs.nodup).2.1]
  exact congrArg (fun l => l.erase p) (cleared_waiting (detached_wf hs hc))

theorem deleted_trace (hs : WF s) (ht : target s p = some (c, x)) :
    (deleted s p c env).trace = s.trace ++ (attempts s .worker p (.status apiCallStatusDelivered) env ++
      ((s.pxWsApiWaitingForResponse ++ s.pxWsApiCall).filter
        (fun r => r != p && clientMatch s x.fd c.ulFid c.ulId r)).map .free ++ [.free p]) := by
  have hc := (target_eq_some_iff.1 ht).1
  simp only [deleted, ht]
  show (cleared _ _ _ _).trace ++ [.free p] = _
  rw [cleared_trace (detached_wf hs hc), funext (clientMatch_detached x.fd c.ulFid c.ulId)]
  simp [detached, frames, Server.setCall]

theorem deleted_sessions (s : Server) (p : CallPtr) (c : ApiCall) (env : SendEnv) :
    (deleted s p c env).sessions = s.sessions := by
  unfold deleted
  cases target s p with
  | none => rfl
  | some z => exact (removedAll_sessions _ _).trans (removedAll_sessions _ _)

theorem removedAll_periph (s : Server) (ps : List CallPtr) :
    (removedAll s ps).periph = s.periph := by
  induction ps generalizing s with
  | nil => rfl
  | cons p ps ih => exact ih (removed s p)

theorem deleted_periph (s : Server) (p : CallPtr) (c : ApiCall) (env : SendEnv) :
    (deleted s p c env).periph = s.periph := by
  unfold deleted
  cases target s p with
  | none => rfl
  | some z => exact (removedAll_periph _ _).trans (removedAll_periph _ _)

theorem behind_live (hs : WF s) (hkeep : ∀ r ≠ p, t.calls r = s.calls r) :
    (after p s.pxWsApiCall).filter (fun r => (t.calls r).isSome) = after p s.pxWsApiCall := by
  rw [List.filter_eq_self]
  intro r hr
  have hrp := ne_of_mem_after (List.nodup_append.1 hs.nodup).1 hr
  obtain ⟨d, hd⟩ := hs.call_of_mem (.inl (mem_of_mem_after hr))
  simp [hkeep r hrp, hd]

theorem after_cleared (hs : WF s) (hp : p ∈ s.pxWsApiCall) (ht : target s p = some (c, x))
    (env : SendEnv) :
    p ∈ (cleared (detached s p c env) x.fd c.ulFid c.ulId).pxWsApiCall ∧
      after p (cleared (detached s p c env) x.fd c.ulFid c.ulId).pxWsApiCall =
        (after p s.pxWsApiCall).filter (fun r => ((deleted s p c env).calls r).isSome) := by
  have hn := (List.nodup_append.1 hs.nodup).1
  have hs₂ : WF (detached s p c env) := detached_wf hs (target_eq_some_iff.1 ht).1
  have hself : (!clientMatch (detached s p c env) x.fd c.ulFid c.ulId p) = true := by
    simp [clientMatch_detached]
  have hlist : (cleared (detached s p c env) x.fd c.ulFid c.ulId).pxWsApiCall =
      s.pxWsApiCall.filter (fun r => !clientMatch (detached s p c env) x.fd c.ulFid c.ulId r) :=
    cleared_pxWsApiCall hs₂
  refine ⟨hlist ▸ List.mem_filter.2 ⟨hp, hself⟩, ?_⟩
  rw [hlist, after_filter (f := fun r => !clientMatch (detached s p c env) x.fd c.ulFid c.ulId r)
    hself]
  apply List.filter_congr
  intro r hr
  have hrp := ne_of_mem_after hn hr
  obtain ⟨d, hd⟩ := hs.call_of_mem (.inl (mem_of_mem_after hr))
  rw [deleted_calls hs ht, clientMatch_detached, bne_iff_ne.2 hrp, Bool.true_and]
  cases hm : clientMatch s x.fd c.ulFid c.ulId r <;> simp [hd]

theorem deleteCall_eq (hs : Sound s) (hp : p ∈ s.pxWsApiCall) (hc : s.calls p = some c)
    (env : WorkerEnv) : ∃ m, NetOk m ∧ deleteCall s p (after p s.pxWsApiCall).head? env =
      .ok ((deleted s p c env.status).withNet m, ((after p s.pxWsApiCall).filter
        (fun r => ((deleted s p c env.status).calls r).isSome)).head?) := by
  obtain ⟨m, hm, he⟩ := apiCallSendJson_eq hs.wf.attached hs.net hc .worker
    (.status apiCallStatusDelivered) env.status
  refine ⟨m, hm, ?_⟩
  generalize hevs : attempts s .worker p (.status apiCallStatusDelivered) env.status = evs at he
  have hc₁ : (record s m evs).calls p = some c := hc
  simp only [deleteCall, bApiCallSendStatus, he, ok_bind, call_eq hc₁]
  cases hq : c.session with
  | none =>
      have hdead : deleted s p c env.status = removed (frames s evs) p := by
        simp only [deleted, target_eq_none hc hq, hevs]
      have hall : (after p s.pxWsApiCall).filter
          (fun r => ((deleted s p c env.status).calls r).isSome) = after p s.pxWsApiCall := by
        rw [hdead]
        exact behind_live hs.wf fun r hr => removed_calls_ne hr
      simp only [Option.isSome_none, Bool.false_eq_true, if_false, unlink_free hc₁, ok_bind]
      rw [hall, hdead]
      rfl
  | some q =>
      obtain ⟨x, hx, ht⟩ := hs.wf.attached.target hc hq
      have hx₁ : (record s m evs).sessions q = some x := hx
      have hs₂ : WF (detached s p c env.status) := detached_wf hs.wf hc
      have hset : (record s m evs).setCall p c.dropSession =
          (detached s p c env.status).withNet m := by
        rw [detached, hevs]
        rfl
      simp only [Option.isSome_some, if_true, session_eq hx₁, ok_bind, modifyCall_eq hc₁, hset]
      have hm₂ : WF ((detached s p c env.status).withNet m) :=
        hs₂.same rfl rfl rfl rfl rfl rfl rfl rfl
      rw [← bind_assoc, deleteMatching_cleared hm₂, ok_bind, cleared_withNet]
      obtain ⟨hmem, hleft⟩ := after_cleared hs.wf hp ht env.status
      have hcl : WF ((cleared (detached s p c env.status) x.fd c.ulFid c.ulId).withNet m) :=
        (cleared_wf hs₂).same rfl rfl rfl rfl rfl rfl rfl rfl
      obtain ⟨d, hd⟩ := hcl.call_of_mem (.inl hmem)
      simp only [findNext_any_calls hcl hmem, unlink_free hd, ok_bind]
      rw [← hleft]
      simp only [deleted, ht]
      rfl

end Deleted

section Item

variable {q : QueueId} {env : WorkerEnv}

/-- What one iteration of the forward loop leaves behind. -/
def passed (s : Server) (p : CallPtr) (c : ApiCall) (env : WorkerEnv) : Server :=
  if c.toDelete then deleted s p c env.status
  else if parked s c then s
  else match s.wsGetFidQueue c.ulFid with
    | some q => told ((attempted s p c q env).toWaiting p) p env.status
    | none => invalidated s p env.status

theorem attempted_wf (hs : WF s) (hc : s.calls p = some c) (q : QueueId) (env : WorkerEnv) :
    WF (attempted s p c q env) := by
  unfold attempted
  split_ifs
  · exact frames_wf hs [_]
  · exact forwarded_wf hs hc q
  · exact refused_wf hs hc env.busy

theorem told_withNet (s : Server) (p : CallPtr) (m m' : Net) (env : SendEnv) :
    (told (s.withNet m) p env).withNet m' = (told s p env).withNet m' := by
  unfold told
  cases hd : s.calls p with
  | none => simp [Server.withNet, hd]
  | some d =>
      have hd' : (s.withNet m).calls p = some d := hd
      simp only [hd']
      split_ifs
      · rfl
      · rfl

theorem told_calls_ne (hr : r ≠ p) (env : SendEnv) : (told s p env).calls r = s.calls r := by
  unfold told
  cases hd : s.calls p with
  | none => rfl
  | some d =>
      simp only
      split_ifs
      · exact setCall_calls_ne hr
      · rfl

theorem told_pxWsApiCall (env : SendEnv) : (told s p env).pxWsApiCall = s.pxWsApiCall := by
  unfold told
  cases hd : s.calls p with
  | none => rfl
  | some d =>
      simp only
      split_ifs
      · rfl
      · rfl

theorem told_periph (env : SendEnv) : (told s p env).periph = s.periph := by
  unfold told
  cases hd : s.calls p with
  | none => rfl
  | some d =>
      simp only
      split_ifs
      · rfl
      · rfl

theorem told_trace (hd : s.calls p = some d) (env : SendEnv) : (told s p env).trace = s.trace ++
    if d.isNew then attempts s .worker p (.status apiCallStatusDelivered) env else [] := by
  simp only [told, hd]
  split_ifs
  · rfl
  · exact (List.append_nil _).symm

theorem passed_kept (hdel : c.toDelete = false) (hr : r ≠ p) :
    (passed s p c env).calls r = s.calls r := by
  simp only [passed, hdel, Bool.false_eq_true, if_false]
  split_ifs
  · rfl
  · cases hq : s.wsGetFidQueue c.ulFid with
    | none => exact removed_calls_ne hr
    | some q => exact (told_calls_ne hr env.status).trans (attempted_calls_ne hr)

theorem passed_some (hdel : c.toDelete = false) (hpark : parked s c = false)
    (hq : s.wsGetFidQueue c.ulFid = some q) :
    passed s p c env = told ((attempted s p c q env).toWaiting p) p env.status := by
  simp only [passed, hdel, hpark, hq, Bool.false_eq_true, if_false]

theorem passed_none (hdel : c.toDelete = false) (hpark : parked s c = false)
    (hq : s.wsGetFidQueue c.ulFid = none) : passed s p c env = invalidated s p env.status := by
  simp only [passed, hdel, hpark, hq, Bool.false_eq_true, if_false]

theorem passed_list (hdel : c.toDelete = false) (hpark : parked s c = false) :
    (passed s p c env).pxWsApiCall = s.pxWsApiCall.erase p := by
  cases hq : s.wsGetFidQueue c.ulFid with
  | none =>
      rw [passed_none hdel hpark hq]
      rfl
  | some q =>
      rw [passed_some hdel hpark hq]
      exact (told_pxWsApiCall env.status).trans (congrArg (fun l => l.erase p) attempted_pxWsApiCall)

theorem forwardItem_eq (hs : Sound s) (hp : p ∈ s.pxWsApiCall) (hc : s.calls p = some c)
    (env : WorkerEnv) : ∃ m, NetOk m ∧ forwardItem s p env = .ok ((passed s p c env).withNet m,
      ((after p s.pxWsApiCall).filter (fun r => ((passed s p c env).calls r).isSome)).head?) := by
  simp only [forwardItem, findNext_any_calls hs.wf hp, call_eq hc, ok_bind]
  cases hdel : c.toDelete with
  | true =>
      obtain ⟨m, hm, he⟩ := deleteCall_eq hs hp hc env
      refine ⟨m, hm, ?_⟩
      simpa only [passed, hdel, if_true] using he
  | false =>
      rw [behind_live hs.wf fun r hr => passed_kept hdel hr]
      simp only [passed, hdel, Bool.false_eq_true, if_false]
      cases hpark : parked s c with
      | true => exact ⟨s.net, hs.net, rfl⟩
      | false =>
          simp only [Bool.false_eq_true, if_false]
          cases hq : s.wsGetFidQueue c.ulFid with
          | none =>
              exact invalid_told hs hc env.status (after p s.pxWsApiCall).head?
          | some q =>
              obtain ⟨m, hm, he⟩ := vForwardCallToPeripheral_attempted hs hc q env
              obtain ⟨d, hd, -⟩ := attempted_call hc q env
              have hd' : (((attempted s p c q env).withNet m).toWaiting p).calls p = some d := hd
              have hmoved : Sound (((attempted s p c q env).withNet m).toWaiting p) := by
                have hwf := (attempted_wf hs.wf hc q env).toWaiting hd
                exact ⟨hwf.same rfl rfl rfl rfl rfl rfl rfl rfl, hm⟩
              obtain ⟨m', hm', ht⟩ := announce_told hmoved hd' env.status
                (after p s.pxWsApiCall).head?
              refine ⟨m', hm', ?_⟩
              simp only [he, ok_bind, ht]
              exact congrArg (fun u => Except.ok (u, _))
                (told_withNet ((attempted s p c q env).toWaiting p) p m m' env.status)

end Item

end WirelessGateway.ForwardPass
