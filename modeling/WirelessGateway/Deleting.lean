import WirelessGateway.Outcomes

namespace WirelessGateway.Deleting

open CJson WirelessGateway.Types Memory WsServer Worker Tasks Sends WellFormed SoftSteps Lifecycle
open Operations Forwarding ForwardPass Steps Outcomes Lib.Linked Lib.Fallible Lib.Runs

variable {P : Platform} {s t : Server} {p r : CallPtr} {c d : ApiCall} {env : WorkerEnv}

/-- The key that a live call goes by: its client's fd, its FID and its SID. -/
def keyOf (s : Server) (p : CallPtr) : Option (Int × UInt32 × UInt32) :=
  (target s p).map (fun t => (t.2.fd, t.1.ulFid, t.1.ulId))

theorem clientMatch_eq (fd : Int) (fid id : UInt32) :
    clientMatch s fd fid id r = (keyOf s r == some (fd, fid, id)) := by
  unfold clientMatch keyOf
  cases target s r with
  | none => rfl
  | some t =>
      simp only [Option.any_some, Option.map_some, Bool.and_assoc]
      rfl

theorem keyOf_eq {x : ApiSession} (h : target s p = some (c, x)) :
    keyOf s p = some (x.fd, c.ulFid, c.ulId) := by
  simp [keyOf, h]

theorem passed_behind (hs : WF s) (hc : s.calls p = some c) (env : WorkerEnv)
    (hr : r ∈ after p s.pxWsApiCall) :
    (passed s p c env).calls r = s.calls r ∨
      ((passed s p c env).calls r = none ∧ c.toDelete = true ∧ (keyOf s p).isSome ∧
        keyOf s r = keyOf s p) := by
  have hrp := ne_of_mem_after (List.nodup_append.1 hs.nodup).1 hr
  cases hdel : c.toDelete with
  | true =>
      have hpass : passed s p c env = deleted s p c env.status := by simp [passed, hdel]
      rw [hpass]
      cases ht : target s p with
      | none =>
          simp only [deleted, ht]
          exact .inl (removed_calls_ne hrp)
      | some z =>
          obtain ⟨c', x⟩ := z
          obtain rfl : c = c' := Option.some.inj (hc.symm.trans (target_eq_some_iff.1 ht).1)
          rw [deleted_calls hs ht, clientMatch_eq, keyOf_eq ht]
          by_cases hm : keyOf s r = some (x.fd, c.ulFid, c.ulId)
          · exact .inr ⟨if_pos (beq_iff_eq.2 hm), rfl, rfl, hm⟩
          · exact .inl (if_neg (by simpa using hm))
  | false => exact .inl (passed_kept hdel hrp)

theorem passed_ahead (hs : WF s) (hp : p ∈ s.pxWsApiCall) (hc : s.calls p = some c) :
    ahead ((after p s.pxWsApiCall).filter (fun r => ((passed s p c env).calls r).isSome)).head?
        (passed s p c env).pxWsApiCall =
      (after p s.pxWsApiCall).filter (fun r => ((passed s p c env).calls r).isSome) := by
  have hn := (List.nodup_append.1 hs.nodup).1
  -- the list has lost some calls, and the live ones are not among them
  obtain ⟨f, hlist, hleft⟩ : ∃ f : CallPtr → Bool,
      (passed s p c env).pxWsApiCall = s.pxWsApiCall.filter f ∧
      (after p s.pxWsApiCall).filter (fun r => ((passed s p c env).calls r).isSome) =
        (after p s.pxWsApiCall).filter f := by
    have herase : s.pxWsApiCall.erase p = s.pxWsApiCall.filter (fun r => r != p) :=
      hn.erase_eq_filter p
    have hself : (after p s.pxWsApiCall).filter (fun r => r != p) = after p s.pxWsApiCall := by
      rw [List.filter_eq_self]
      exact fun r hr => bne_iff_ne.2 (ne_of_mem_after hn hr)
    cases hdel : c.toDelete with
    | true =>
        simp only [passed, hdel, if_true]
        cases ht : target s p with
        | none =>
            simp only [deleted, ht]
            exact ⟨_, herase, (behind_live hs fun r hr => removed_calls_ne hr).trans hself.symm⟩
        | some z =>
            obtain ⟨c', x⟩ := z
            obtain rfl : c = c' := Option.some.inj (hc.symm.trans (target_eq_some_iff.1 ht).1)
            refine ⟨_, deleted_pxWsApiCall hs ht, List.filter_congr fun r hr => ?_⟩
            obtain ⟨d, hd⟩ := hs.call_of_mem (.inl (mem_of_mem_after hr))
            rw [deleted_calls hs ht]
            cases clientMatch s x.fd c.ulFid c.ulId r <;> simp [hd]
    | false =>
        rw [behind_live hs fun r hr => passed_kept hdel hr]
        cases hpark : parked s c with
        | true =>
            refine ⟨fun _ => true, ?_, by simp⟩
            simp [passed, hdel, hpark]
        | false => exact ⟨_, (passed_list hdel hpark).trans herase, hself.symm⟩
  rw [hlist, hleft]
  exact ahead_filter hn hp f

def examines (x : System) : Label → Option CallPtr
  | .worker _ => match x.worker with
    | .forward item => item
    | _ => none
  | _ => none

def todo (x : System) : List CallPtr :=
  match x.worker with
  | .forward item => ahead item x.srv.pxWsApiCall
  | _ => []

def InPass (x : System) : Prop := ∃ p, x.worker = .forward (some p)

def Deletes (s : Server) (q r : CallPtr) : Prop :=
  (∃ c, s.calls q = some c ∧ c.toDelete = true) ∧ (keyOf s q).isSome ∧ keyOf s r = keyOf s q

section Pass

variable {w x y z : System} {rest seen : List CallPtr}

theorem deletes_of_calls (hs : WF s) (ht : WF t) {q : CallPtr} (hq : t.calls q = s.calls q)
    (hr : t.calls r = s.calls r) (h : Deletes t q r) : Deletes s q r := by
  obtain ⟨⟨c, hc, hdel⟩, hsome, hkey⟩ := h
  obtain ⟨⟨c', k⟩, htq⟩ : ∃ z, target t q = some z := by
    simpa [keyOf, Option.isSome_iff_exists] using hsome
  obtain ⟨hc', u, hu, hk⟩ := target_eq_some_iff.1 htq
  obtain rfl : c = c' := Option.some.inj (hc.symm.trans hc')
  rw [keyOf_eq htq] at hkey
  obtain ⟨⟨d, l⟩, htr, hl⟩ : ∃ z, target t r = some z ∧
      (z.2.fd, z.1.ulFid, z.1.ulId) = (k.fd, c.ulFid, c.ulId) := by
    simpa [keyOf] using hkey
  obtain ⟨hd, v, hv, hl'⟩ := target_eq_some_iff.1 htr
  simp only [Prod.mk.injEq] at hl
  obtain rfl := ht.session_unique hl' hk hl.1
  -- the two calls have the same session in the first state as well
  obtain ⟨k₀, hk₀, hs₀⟩ := hs.attached.target (hq ▸ hc) hu
  obtain ⟨l₀, hl₀, hs₁⟩ := hs.attached.target (hr ▸ hd) hv
  have hkl : k₀ = l₀ := Option.some.inj (hk₀.symm.trans hl₀)
  refine ⟨⟨c, hq ▸ hc, hdel⟩, by simp [keyOf_eq hs₀], ?_⟩
  rw [keyOf_eq hs₀, keyOf_eq hs₁, hkl, hl.2.1, hl.2.2]

/-- What the forward loop has done to the calls that it set out to examine. -/
structure Passing (y : System) (rest seen : List CallPtr) (z : System) : Prop where
  order : (seen ++ todo z).Sublist rest
  same : ∀ r ∈ todo z, z.srv.calls r = y.srv.calls r
  missed : ∀ r ∈ rest, r ∈ seen ++ todo z ∨ ∃ q ∈ seen, Deletes y.srv q r

theorem passing_step (hy : Reachable (machine P) y) (hw : Reachable (machine P) w)
    (h : Passing y rest seen w) (hpass : InPass w) {a : Label} (hstep : (machine P).Step w a z) :
    Passing y rest (seen ++ (examines w a).toList) z := by
  obtain ⟨p, hpc⟩ := hpass
  have hwf := (reachable_inv hw).sound.wf
  rcases worker_or_other a with ⟨env, rfl⟩ | ha
  · obtain ⟨hp, c, m, hc, rfl⟩ := forward_step hw hpc hstep
    have htodo : todo w = p :: after p w.srv.pxWsApiCall := by simp only [todo, hpc, ahead]
    have hleft : todo ⟨(passed w.srv p c env).withNet m, .forward ((after p w.srv.pxWsApiCall).filter
        (fun r => ((passed w.srv p c env).calls r).isSome)).head?, w.httpd⟩ =
        (after p w.srv.pxWsApiCall).filter (fun r => ((passed w.srv p c env).calls r).isSome) :=
      passed_ahead hwf hp hc
    have hexam : (examines w (.worker env)).toList = [p] := by simp only [examines, hpc, Option.toList_some]
    have hsame := htodo ▸ h.same
    rw [hexam]
    refine ⟨?_, ?_, ?_⟩
    · rw [hleft, List.append_assoc]
      exact ((List.Sublist.cons_cons p List.filter_sublist).append_left seen).trans (htodo ▸ h.order)
    · intro r hr
      rw [hleft, List.mem_filter] at hr
      rcases passed_behind hwf hc env hr.1 with hcall | ⟨hnone, -⟩
      · exact hcall.trans (hsame r (List.mem_cons_of_mem p hr.1))
      · rw [hnone] at hr
        simp at hr
    · intro r hr
      have hmissed := htodo ▸ h.missed r hr
      rcases hmissed with hmem | ⟨q, hq, hdel⟩
      · rw [List.mem_append, List.mem_cons] at hmem
        rcases hmem with hmem | rfl | hmem
        · exact .inl (List.mem_append_left _ (List.mem_append_left _ hmem))
        · exact .inl (List.mem_append_left _ (List.mem_append_right _ (by simp)))
        · rcases passed_behind hwf hc env hmem with hcall | ⟨-, hdel, hsome, hkey⟩
          · -- a call that is left is examined later on
            refine .inl (List.mem_append_right _ ?_)
            obtain ⟨d, hd⟩ := hwf.call_of_mem (.inl (mem_of_mem_after hmem))
            rw [hleft, List.mem_filter, hcall, hd]
            exact ⟨hmem, rfl⟩
          · refine .inr ⟨p, by simp, ?_⟩
            exact deletes_of_calls (reachable_inv hy).sound.wf hwf (hsame p (by simp))
              (hsame r (List.mem_cons_of_mem p hmem)) ⟨⟨c, hc, hdel⟩, hsome, hkey⟩
      · exact .inr ⟨q, List.mem_append_left _ hq, hdel⟩
  · -- the worker holds the mutex
    have hexam : examines w a = none := by
      cases a <;> first | rfl | exact absurd rfl (ha _)
    obtain ⟨u, hu, hworker, hb⟩ := step_beside (reachable_inv hw) ha
      (allows_anything P w a) hstep
    cases hu
    have hstill := hb.2 (by rw [hpc]; rfl)
    have htodo : todo z = todo w := by simp only [todo, hworker, hstill.lists]
    rw [hexam, Option.toList_none, List.append_nil]
    refine ⟨htodo ▸ h.order, ?_, htodo ▸ h.missed⟩
    rw [htodo, hstill.calls]
    exact h.same

theorem passing_run (hy : Reachable (machine P) y) {as : List Label}
    (h : Along (machine P) (fun w _ _ => InPass w) y as z) :
    Passing y (todo y) ((machine P).trail examines y as) z := by
  induction h with
  | start => exact ⟨by simp [Machine.trail], fun _ _ => rfl, fun r hr => .inl (by simpa [Machine.trail] using hr)⟩
  | step hrun hstep hpass ih =>
      rw [hrun.trail_snoc]
      exact passing_step hy (hrun.reachable hy) ih hpass hstep

end Pass

structure Deletion (P : Platform) (x : System) (p : CallPtr) (c : ApiCall) (k : ApiSession)
    (env : SendEnv) (y : System) : Prop where
  cleared : ∀ r, keyOf y.srv r ≠ keyOf x.srv p
  gone : y.srv.calls p = none ∧ p ∉ y.srv.pxWsApiCall ∧ p ∉ y.srv.pxWsApiWaitingForResponse
  others : ∀ r, keyOf x.srv r ≠ keyOf x.srv p → y.srv.calls r = x.srv.calls r
  calls : y.srv.pxWsApiCall = x.srv.pxWsApiCall.filter (fun r => keyOf x.srv r ≠ keyOf x.srv p)
  waiting : y.srv.pxWsApiWaitingForResponse =
    x.srv.pxWsApiWaitingForResponse.filter (fun r => keyOf x.srv r ≠ keyOf x.srv p)
  told : y.srv.trace = x.srv.trace ++
    ((if env.alloc then
      [.queue .worker p k.conn c.ulFid c.ulId (.status apiCallStatusDelivered) (env.sent p)]
    else []) ++
    ((x.srv.pxWsApiWaitingForResponse ++ x.srv.pxWsApiCall).filter
      (fun r => r ≠ p ∧ keyOf x.srv r = keyOf x.srv p)).map .free ++ [.free p])
  rest : todo y = (after p x.srv.pxWsApiCall).filter (fun r => keyOf x.srv r ≠ keyOf x.srv p)
  pass : ∀ as z, Along (machine P) (fun w _ _ => InPass w) y as z →
    ((machine P).trail examines y as ++ todo z).Sublist (todo y) ∧
    ∀ r ∈ todo y, ((machine P).trail examines y as ++ todo z).count r = 1 ∨
      ∃ q ∈ (machine P).trail examines y as, Deletes y.srv q r

theorem keyOf_filter {x : ApiSession} (ht : target s p = some (c, x)) (l : List CallPtr) :
    l.filter (fun r => !clientMatch s x.fd c.ulFid c.ulId r) =
      l.filter (fun r => keyOf s r ≠ keyOf s p) := by
  apply List.filter_congr
  intro r _
  rw [clientMatch_eq, keyOf_eq ht]
  by_cases h : keyOf s r = some (x.fd, c.ulFid, c.ulId) <;> simp [h]

section Deleted

variable {k : ApiSession}

theorem deleted_calls_key (hs : WF s) (ht : target s p = some (c, k)) (env : SendEnv)
    (r : CallPtr) : (deleted s p c env).calls r =
      if keyOf s r = keyOf s p then none else s.calls r := by
  rw [deleted_calls hs ht, clientMatch_eq, keyOf_eq ht]
  simp only [beq_iff_eq]

theorem keyOf_deleted (hs : WF s) (ht : target s p = some (c, k)) (env : SendEnv) (r : CallPtr) :
    keyOf (deleted s p c env) r ≠ keyOf s p := by
  have hcall := deleted_calls_key hs ht env r
  by_cases hkey : keyOf s r = keyOf s p
  · rw [if_pos hkey] at hcall
    have hdead : keyOf (deleted s p c env) r = none := by simp [keyOf, target, hcall]
    rw [hdead, keyOf_eq ht]
    simp
  · rw [if_neg hkey] at hcall
    have hsame : keyOf (deleted s p c env) r = keyOf s r := by
      simp only [keyOf, target, hcall, deleted_sessions]
    rwa [hsame]

theorem deleted_told (hs : WF s) (ht : target s p = some (c, k)) (env : SendEnv) :
    (deleted s p c env).trace = s.trace ++
      ((if env.alloc then
        [.queue .worker p k.conn c.ulFid c.ulId (.status apiCallStatusDelivered) (env.sent p)]
      else []) ++
      ((s.pxWsApiWaitingForResponse ++ s.pxWsApiCall).filter
        (fun r => r ≠ p ∧ keyOf s r = keyOf s p)).map .free ++ [.free p]) := by
  have hfilter : (fun r => r != p && clientMatch s k.fd c.ulFid c.ulId r) =
      fun r => decide (r ≠ p ∧ keyOf s r = keyOf s p) := by
    funext r
    rw [clientMatch_eq, keyOf_eq ht, Bool.decide_and]
    congr 1
    · by_cases hrp : r = p <;> simp [hrp]
    · exact beq_eq_decide _ _
  rw [deleted_trace hs ht]
  simp only [attempts, ht, hfilter]

end Deleted

theorem Passing.counted {y z : System} {rest seen : List CallPtr} (h : Passing y rest seen z)
    (hn : rest.Nodup) :
    ∀ r ∈ rest, (seen ++ todo z).count r = 1 ∨ ∃ q ∈ seen, Deletes y.srv q r :=
  fun r hr => (h.missed r hr).imp_left (List.count_eq_one_of_mem (h.order.nodup hn))

/-- After a TO_DELETE call has been processed no live call has its key. All
the other calls are left as they are, and the pass goes on with them. -/
theorem deletion {x y : System} {k : ApiSession} (hr : Reachable (machine P) x)
    (hpc : x.worker = .forward (some p)) (ht : target x.srv p = some (c, k))
    (hdel : c.toDelete = true) (h : (machine P).Step x (.worker env) y) :
    Deletion P x p c k env.status y := by
  have hs := (reachable_inv hr).sound.wf
  obtain ⟨hp, c', m, hc', rfl⟩ := forward_step hr hpc h
  obtain rfl : c' = c := Option.some.inj (hc'.symm.trans (target_eq_some_iff.1 ht).1)
  have hpass : passed x.srv p c' env = deleted x.srv p c' env.status := by simp [passed, hdel]
  have hcalls := deleted_calls_key hs ht env.status
  have hlist : (passed x.srv p c' env).pxWsApiCall =
      x.srv.pxWsApiCall.filter (fun r => keyOf x.srv r ≠ keyOf x.srv p) := by
    rw [hpass, deleted_pxWsApiCall hs ht, keyOf_filter ht]
  have hwait : (passed x.srv p c' env).pxWsApiWaitingForResponse =
      x.srv.pxWsApiWaitingForResponse.filter (fun r => keyOf x.srv r ≠ keyOf x.srv p) := by
    rw [hpass, deleted_waiting hs ht, keyOf_filter ht]
  have hrest : todo ⟨(passed x.srv p c' env).withNet m, .forward ((after p x.srv.pxWsApiCall).filter
      (fun r => ((passed x.srv p c' env).calls r).isSome)).head?, x.httpd⟩ =
      (after p x.srv.pxWsApiCall).filter (fun r => keyOf x.srv r ≠ keyOf x.srv p) := by
    refine (passed_ahead hs hp hc').trans (List.filter_congr fun r hr => ?_)
    obtain ⟨d, hd⟩ := hs.call_of_mem (.inl (mem_of_mem_after hr))
    rw [hpass, hcalls, hd]
    by_cases hkey : keyOf x.srv r = keyOf x.srv p <;> simp [hkey]
  rw [hpass] at hlist hwait hrest ⊢
  refine ⟨keyOf_deleted hs ht env.status, ⟨?_, ?_, ?_⟩, fun r hkey => ?_, hlist, hwait,
    deleted_told hs ht env.status, hrest, fun as z hrun => ?_⟩
  · exact (hcalls p).trans (if_pos rfl)
  · show p ∉ (deleted x.srv p c' env.status).pxWsApiCall
    rw [hlist]
    simp
  · show p ∉ (deleted x.srv p c' env.status).pxWsApiWaitingForResponse
    rw [hwait]
    simp
  · exact (hcalls r).trans (if_neg hkey)
  · have hn : ((after p x.srv.pxWsApiCall).filter
        (fun r => keyOf x.srv r ≠ keyOf x.srv p)).Nodup :=
      (nodup_after (List.nodup_append.1 hs.nodup).1).filter _
    have hpassing := passing_run (hr.step (hpass ▸ h)) hrun
    exact ⟨hpassing.order, hpassing.counted (hrest ▸ hn)⟩

def takeBack : List Label :=
  [.registerQueue 0x1013 (some 0) true true, .connect 1 true] ++
  request 0 (0x1013, 4, 5) ++ request 0 (0x1013, 8, 5) ++ request 0 (0x1013, 0, 5) ++
  request 0 (0x1013, 0, 6)

def subscriber : Platform := platform [(0x1013, 4, 5), (0x1013, 8, 5), (0x1013, 0, 5), (0x1013, 0, 6)]

theorem deletion_takeBack : ∃ x y c k, x.srv.pxWsApiWaitingForResponse = [0] ∧
    x.srv.pxWsApiCall = [1, 2, 3] ∧ Deletion subscriber x 1 c k okSend y := by
  have h : (machine subscriber).reaches (initSystem (fun _ => 10)) (takeBack ++ work 9)
      (fun x => x.srv.pxWsApiWaitingForResponse == [0] && x.srv.pxWsApiCall == [1, 2, 3] &&
        (examines x (.worker okEnv) == some 1) && (target x.srv 1).any (fun t => t.1.toDelete)) =
      true := by decide +kernel
  obtain ⟨x, hrun, hx⟩ := exists_of_reaches h
  have hr : Reachable (machine subscriber) x := ⟨_, _, ⟨_, rfl⟩, hrun⟩
  simp only [Bool.and_eq_true, beq_iff_eq, Option.any_eq_true] at hx
  obtain ⟨⟨⟨hwait, hcall⟩, hexam⟩, ⟨c, k⟩, ht, hdel⟩ := hx
  have hpc : x.worker = .forward (some 1) := by
    cases hw : x.worker with
    | forward item => simpa [examines, hw] using hexam
    | _ => simp [examines, hw] at hexam
  obtain ⟨y, hy, -⟩ := step_does (P := subscriber) (reachable_inv hr)
    (allows_anything subscriber x (.worker okEnv)) rfl
  exact ⟨x, y, c, k, hwait, hcall, deletion hr hpc ht hdel (congrArg some hy)⟩

end WirelessGateway.Deleting
