import Mathlib.Algebra.GroupWithZero.Nat
import WirelessGateway.Clock
import WirelessGateway.Handlers
import WirelessGateway.OneShots
import WirelessGateway.StatusProtocol

namespace WirelessGateway.Throttle

open CJson WirelessGateway.Types Memory WsServer Transport Worker Tasks Sends WellFormed SoftSteps
open Lifecycle Operations Forwarding ForwardPass Steps Provenance Accepted OneShots Outcomes
open Deleting Updates Handlers Clock Lib.Linked Lib.Fallible Lib.Runs Lib.Ticks

variable {P : Platform} {s t : Server} {p q : CallPtr} {c d : ApiCall} {env : WorkerEnv}
  {x y z w : System} {a : Label}

section Forwards

variable {O : CallPtr → Bool}

theorem forwards_quiet {l : List Event} (ht : t.trace = s.trace ++ l)
    (h : ∀ e ∈ l, forwardKey O e = none) : forwards t O = forwards s O := by
  rw [forwards, ht, List.filterMap_append, List.filterMap_eq_nil_iff.2 h, List.append_nil, forwards]

theorem aside_quiet {e : Event} (he : isAside e = true) : forwardKey O e = none := by
  cases e with
  | forward => cases he
  | _ => rfl

theorem attempts_quiet {src : Source} {arg : Payload} {e : SendEnv} :
    ∀ i ∈ attempts s src q arg e, forwardKey O i = none := by
  intro i hi
  obtain ⟨c, k, -, rfl⟩ := mem_attempts hi
  rfl

theorem soft_forwards (h : Soft s t) : forwards t O = forwards s O := by
  obtain ⟨evs, ht, haside⟩ := h.trace
  exact forwards_quiet ht (fun e he => aside_quiet (soft_aside (haside e he)))

theorem answered_forwards (s : Server) (q : CallPtr) (c : ApiCall) (r : Reply) (e : SendEnv) :
    forwards (answered s q c r e) O = forwards s O := by
  refine forwards_quiet (answered_trace s q c r e) (fun i hi => ?_)
  rcases List.mem_append.1 hi with hi | hi
  · obtain ⟨c, k, -, rfl⟩ := mem_replyFrames hi
    rfl
  · rcases List.mem_cons.1 hi with rfl | hi
    · rfl
    · split at hi
      · cases hi
      · rw [List.mem_singleton.1 hi]
        rfl

theorem deleted_forwards (hs : WF s) (hc : s.calls q = some c) (e : SendEnv) :
    forwards (deleted s q c e) O = forwards s O := by
  cases ht : target s q with
  | none =>
      have htrace : (deleted s q c e).trace = s.trace ++
          (attempts s .worker q (.status apiCallStatusDelivered) e ++ [.free q]) := by
        simp [deleted, ht, removed, frames, Server.log, Server.unlink]
      refine forwards_quiet htrace (fun i hi => ?_)
      rcases List.mem_append.1 hi with hi | hi
      · exact attempts_quiet i hi
      · rw [List.mem_singleton.1 hi]
        rfl
  | some z =>
      obtain ⟨c', k⟩ := z
      obtain rfl : c = c' := Option.some.inj (hc.symm.trans (target_eq_some_iff.1 ht).1)
      refine forwards_quiet (deleted_trace hs ht) (fun i hi => ?_)
      simp only [List.mem_append, List.mem_map, List.mem_singleton] at hi
      rcases hi with (hi | ⟨r, -, rfl⟩) | rfl
      · exact attempts_quiet i hi
      · rfl
      · rfl

theorem attempted_forwards (hO : O q = false) (u : QueueId) :
    forwards (attempted s q c u env) O = forwards s O := by
  unfold attempted
  split_ifs
  · exact forwards_quiet (l := [.stall q]) rfl (by simp [forwardKey])
  · exact forwards_quiet (l := [.forward q u (requestOf c)]) rfl (by simp [forwardKey, hO])
  · refine forwards_quiet (l := .refuse q :: attempts s .worker q (.status apiCallStatusBusy) env.busy)
      rfl (fun i hi => ?_)
    rcases List.mem_cons.1 hi with rfl | hi
    · rfl
    · exact attempts_quiet i hi

theorem told_forwards (hc : s.calls q = some c) (e : SendEnv) :
    forwards (told s q e) O = forwards s O := by
  refine forwards_quiet (told_trace hc e) (fun i hi => ?_)
  split at hi
  · exact attempts_quiet i hi
  · cases hi

theorem passed_forwards (hs : WF s) (hc : s.calls q = some c) (hO : O q = false) :
    forwards (passed s q c env) O = forwards s O := by
  unfold passed
  split_ifs
  · exact deleted_forwards hs hc env.status
  · rfl
  · split
    next u _ =>
      obtain ⟨d, hd, -⟩ := attempted_call hc u env
      have hd' : ((attempted s q c u env).toWaiting q).calls q = some d := hd
      exact (told_forwards hd' env.status).trans (attempted_forwards hO u)
    next =>
      refine forwards_quiet (invalidated_trace s q env.status) (fun i hi => ?_)
      rcases List.mem_append.1 hi with hi | hi
      · exact attempts_quiet i hi
      · rw [List.mem_singleton.1 hi]
        rfl

theorem step_forwards (hr : Reachable (machine P) x) (h : (machine P).Step x a y)
    (hp : examines x a ≠ some p) : forwards y.srv (· == p) = forwards x.srv (· == p) := by
  rcases step_outcome hr h with ⟨env, rfl, hout⟩ | ⟨-, -, hapart⟩
  · have hs := (reachable_inv hr).sound.wf
    generalize y.srv = t at hout ⊢
    generalize y.worker = pc at hout
    cases hout with
    | turned => rfl
    | @swept q =>
        exact forwards_quiet (l := [.free q]) (by simp [removed, Server.log, Server.unlink])
          (by simp [forwardKey])
    | kept _ _ _ hsoft => exact soft_forwards hsoft
    | @passed q c m hw _ hc =>
        have hne : q ≠ p := fun he => hp (by simp [examines, hw, he])
        exact passed_forwards (O := (· == p)) hs hc (by simpa using hne)
    | received => exact forwards_quiet (l := []) (by simp [Server.receive]) (by simp)
    | @unanswered r => exact forwards_quiet (l := [.handled r]) rfl (by simp [forwardKey])
    | @answered r q c s m _ _ _ hsoft =>
        have hhandled : forwards ((answered (s.withNet m) q c r env.reply).handled r) (· == p) =
            forwards (answered (s.withNet m) q c r env.reply) (· == p) :=
          forwards_quiet (l := [.handled r]) rfl (by simp [forwardKey])
        exact hhandled.trans ((answered_forwards ..).trans (soft_forwards (hsoft.trans (.withNet s m))))
    | @broadcast r q next c s m _ _ hsoft =>
        exact (answered_forwards (s.withNet m) q c r env.reply).trans
          (soft_forwards (hsoft.trans (.withNet s m)))
  · obtain ⟨evs, ht, haside⟩ := apart_trace hapart
    exact forwards_quiet ht (fun e he => aside_quiet (haside e he))

end Forwards

section Linked

theorem deleted_mem {e : SendEnv} (hs : WF s) (hc : s.calls q = some c) (hp : p ∈ s.pxWsApiCall)
    (hne : p ≠ q) (hlive : ((deleted s q c e).calls p).isSome) : p ∈ (deleted s q c e).pxWsApiCall := by
  cases ht : target s q with
  | none =>
      simp only [deleted, ht]
      exact (List.mem_erase_of_ne hne).2 hp
  | some z =>
      obtain ⟨c', k⟩ := z
      obtain rfl : c = c' := Option.some.inj (hc.symm.trans (target_eq_some_iff.1 ht).1)
      rw [deleted_calls hs ht] at hlive
      rw [deleted_pxWsApiCall hs ht, List.mem_filter]
      split_ifs at hlive with hm
      · simp at hlive
      · exact ⟨hp, by simp [hm]⟩

theorem passed_mem (hs : WF s) (hc : s.calls q = some c) (hp : p ∈ s.pxWsApiCall) (hne : p ≠ q)
    (hlive : ((passed s q c env).calls p).isSome) : p ∈ (passed s q c env).pxWsApiCall := by
  cases hdel : c.toDelete with
  | false =>
      cases hpark : parked s c with
      | true => simpa [passed, hdel, hpark] using hp
      | false => exact passed_list hdel hpark ▸ (List.mem_erase_of_ne hne).2 hp
  | true =>
      have hpass : passed s q c env = deleted s q c env.status := by simp [passed, hdel]
      rw [hpass] at hlive ⊢
      exact deleted_mem hs hc hp hne hlive

theorem step_linked (hr : Reachable (machine P) x) (h : (machine P).Step x a y)
    (hp : p ∈ x.srv.pxWsApiCall) (hexam : examines x a ≠ some p) (hlive : (y.srv.calls p).isSome) :
    p ∈ y.srv.pxWsApiCall := by
  have hs := (reachable_inv hr).sound.wf
  rcases step_outcome hr h with ⟨env, rfl, hout⟩ | ⟨-, -, hapart⟩
  · generalize y.srv = t at hout hlive ⊢
    generalize y.worker = pc at hout
    have hanswered : ∀ {q r s c m}, q ∈ x.srv.pxWsApiWaitingForResponse → Soft x.srv s →
        p ∈ (answered (s.withNet m) q c r env.reply).pxWsApiCall := by
      intro q r s c m hq hsoft
      refine answered_mem (s := s.withNet m) (hsoft.lists ▸ hp) ?_
      rintro rfl
      exact hs.not_waiting hp hq
    cases hout with
    | turned => exact hp
    | @swept q =>
        refine (List.mem_erase_of_ne ?_).2 hp
        rintro rfl
        simp at hlive
    | kept _ _ _ hsoft => exact hsoft.lists ▸ hp
    | @passed q c m hw _ hc =>
        have hne : p ≠ q := fun he => hexam (by simp [examines, hw, he])
        exact passed_mem hs hc hp hne hlive
    | received => exact hp
    | unanswered => exact hp
    | answered _ _ hq hsoft => exact hanswered hq hsoft
    | broadcast _ hq hsoft => exact hanswered hq hsoft
  · obtain ⟨s', hsoft, houter⟩ := hapart.1.outer
    obtain ⟨c, hc⟩ := hs.call_of_mem (.inl hp)
    have hlt : p < s'.nextCall := hsoft.nextCall ▸ hs.nextCall p (by simp [hc])
    exact outer_mem houter (hsoft.lists ▸ hp) hlt

end Linked

section Interval

theorem changed_kept (h : Relation.ReflTransGen Change c d) :
    d.ulPollIntervalTicks = c.ulPollIntervalTicks ∧ d.longTerm = c.longTerm := by
  induction h with
  | refl => exact ⟨rfl, rfl⟩
  | tail _ hch ih =>
      cases hch with
      | clearNew => exact ⟨ih.1, (clearNew_longTerm _).trans ih.2⟩
      | _ => exact ih

theorem passed_calls_none (hs : WF s) (hc : s.calls q = some c) (hnone : s.calls p = none) :
    (passed s q c env).calls p = none := by
  have hne : p ≠ q := by
    rintro rfl
    rw [hc] at hnone
    cases hnone
  cases hdel : c.toDelete with
  | false => exact (passed_kept hdel hne).trans hnone
  | true =>
      have hpass : passed s q c env = deleted s q c env.status := by simp [passed, hdel]
      rw [hpass]
      cases ht : target s q with
      | none =>
          simp only [deleted, ht]
          exact (removed_calls_ne hne).trans hnone
      | some z =>
          obtain ⟨c', k⟩ := z
          obtain rfl : c = c' := Option.some.inj (hc.symm.trans (target_eq_some_iff.1 ht).1)
          rw [deleted_calls hs ht, hnone, ite_self]

theorem worker_calls_none (hr : Reachable (machine P) x)
    (h : (machine P).Step x (.worker env) y) (hnone : x.srv.calls p = none) :
    y.srv.calls p = none := by
  have hs := (reachable_inv hr).sound.wf
  have hsame : ∀ {u : Server}, Soft x.srv u → u.calls p = none := fun hu =>
    Option.not_isSome_iff_eq_none.1 (by rw [hu.isSome, hnone]; simp)
  have hanswered : ∀ {q r s c m}, Soft x.srv s → s.calls q = some c →
      (answered (s.withNet m) q c r env.reply).calls p = none := by
    intro q r s c m hsoft hc
    have hne : p ≠ q := by
      rintro rfl
      rw [hsame hsoft] at hc
      cases hc
    exact (answered_calls_ne r env.reply hne).trans (hsame (hsoft.trans (.withNet s m)))
  have hout := (worker_outcome hr h).1
  generalize y.srv = t at hout ⊢
  generalize y.worker = pc at hout
  cases hout with
  | turned => exact hnone
  | @swept q _ _ _ hc =>
      by_cases hpq : p = q
      · exact hpq ▸ removed_calls_self _ _
      · exact (removed_calls_ne hpq).trans hnone
  | kept _ _ _ hsoft => exact hsame hsoft
  | passed _ _ hc => exact passed_calls_none hs hc hnone
  | received => exact hnone
  | unanswered => exact hnone
  | answered _ _ _ hsoft hc => exact hanswered hsoft hc
  | broadcast _ _ hsoft hc => exact hanswered hsoft hc

theorem step_born (hr : Reachable (machine P) x) (h : (machine P).Step x a y)
    (hnone : x.srv.calls p = none) (hd : y.srv.calls p = some d) :
    ∃ n json, .accept p n json d ∈ y.srv.trace ∧
      d.ulPollIntervalTicks = framePollInterval P json := by
  have hnew : ¬ p < x.srv.nextCall := by
    intro hlt
    rw [step_calls_none hr h hlt hnone] at hd
    cases hd
  rcases step_outcome hr h with ⟨env, rfl, -⟩ | ⟨-, -, hapart⟩
  · rw [worker_calls_none hr h hnone] at hd
    cases hd
  · obtain ⟨s', hsoft, houter⟩ := hapart.1.outer
    have hnone' : s'.calls p = none :=
      Option.not_isSome_iff_eq_none.1 (by rw [hsoft.isSome, hnone]; simp)
    have hsame : y.srv.calls p ≠ s'.calls p := by
      rw [hd, hnone']
      exact Option.some_ne_none d
    generalize y.srv = t at hd houter hsame ⊢
    cases houter with
    | @accept n k q alloc json fl sid hh =>
        by_cases hp : p = s'.nextCall
        · have hc : (accepted s' n json (acceptedCall P alloc json q sid hh)).calls p =
              some (acceptedCall P alloc json q sid hh) := hp ▸ allocCall_calls_self s' _
          rw [hc, Option.some.injEq] at hd
          subst hd
          exact ⟨n, json, List.mem_append_right _ (by simp [hp]), rfl⟩
        · exact absurd (allocCall_calls_ne hp) hsame
    | @connect fd alloc => cases alloc <;> exact absurd rfl hsame
    | disconnect => exact absurd (congrFun (hangUp_calls ..).1 p) hsame
    | _ => exact absurd rfl hsame

theorem reachable_interval (hr : Reachable (machine P) x) {n : ConnPtr} {json : Json}
    (hc : x.srv.calls p = some c) (hm : .accept p n json d ∈ x.srv.trace) :
    c.ulPollIntervalTicks = framePollInterval P json := by
  refine hr.invariant (I := fun x => ∀ p n json c d, x.srv.calls p = some c →
    .accept p n json d ∈ x.srv.trace → c.ulPollIntervalTicks = framePollInterval P json) ?_ ?_
    p n json c d hc hm
  · rintro x ⟨depth, rfl⟩ p n json c d hc
    cases hc
  · intro x a y hr hi h p n json e d he hm
    have hacc := reachable_accepts (hr.step h)
    cases hc : x.srv.calls p with
    | none =>
        obtain ⟨n', json', hm', hinterval⟩ := step_born hr h hc he
        cases hacc.increasing.eq hm hm' rfl rfl
        exact hinterval
    | some c =>
        obtain ⟨n', json', c₀, hm', -⟩ := (reachable_accepts hr).born p c hc
        cases hacc.increasing.eq hm (step_trace hr h hm') rfl rfl
        have hlt := (reachable_inv hr).sound.wf.nextCall p (by simp [hc])
        obtain ⟨c', hc', hch⟩ := (step_writes h).changed hlt he
        rw [hc, Option.some.injEq] at hc'
        rw [(changed_kept hch).1, ← hc']
        exact hi p n json c d hc hm'

theorem framePollInterval_lt (hP : ∀ ms, P.msToTicks ms ≤ ms) (json : Json) :
    (framePollInterval P json).toNat < 2 ^ 31 := by
  unfold framePollInterval
  split
  next i _ _ =>
    split_ifs with hi
    · have hle := UInt32.le_iff_toNat_le.1 (hP i.toUInt32)
      have hlt : i.toUInt32.toNat < 2 ^ 31 := by
        rw [← Nat.not_le, ← toInt32_neg_iff, Int32.toInt32_toUInt32]
        exact Int32.not_lt.2 (Int32.le_of_lt hi)
      exact Nat.lt_of_le_of_lt hle hlt
    · decide
  next => decide

end Interval

section Armed

variable {n : UInt32}

theorem reachable_waiting (hr : Reachable (machine P) x) (hp : p ∈ x.srv.pxWsApiWaitingForResponse)
    (hc : x.srv.calls p = some c) :
    c.toDelete = false ∧ ∃ u, x.srv.wsGetFidQueue c.ulFid = some u := by
  refine reachable_acts (I := fun s => ∀ p ∈ s.pxWsApiWaitingForResponse, ∀ c, s.calls p = some c →
    c.toDelete = false ∧ ∃ u, s.wsGetFidQueue c.ulFid = some u) ?_ ?_ hr p hp c hc
  · intro depth p hp
    cases hp
  · intro s t hs hact hi p hp d hd
    have hwas : ∃ c u, s.calls p = some c ∧ c.toDelete = false ∧ s.wsGetFidQueue c.ulFid = some u := by
      rcases StatusProtocol.act_waiting hact hp with hp | ⟨-, hup⟩
      · obtain ⟨c, hc⟩ := hs.call_of_mem (.inr hp)
        obtain ⟨hdel, u, hu⟩ := hi p hp c hc
        exact ⟨c, u, hc, hdel, hu⟩
      · exact hup
    obtain ⟨c, u, hc, hdel, hu⟩ := hwas
    obtain ⟨c', hc', hev⟩ := act_evolves hact hd (hs.nextCall p (by simp [hc]))
    obtain rfl := Option.some.inj (hc.symm.trans hc')
    exact ⟨hev.toDelete.trans hdel, u, hev.fid ▸ act_routes hact hu⟩

structure Repeats (s : Server) (c : ApiCall) : Prop where
  longTerm : c.longTerm = true
  told : c.isNew = false
  kept : c.toDelete = false
  routed : ∃ u, s.wsGetFidQueue c.ulFid = some u

theorem Repeats.step (hc : x.srv.calls p = some c) (hk : Repeats x.srv c) (hr : Reachable (machine P) x)
    (h : (machine P).Step x a y) (hd : y.srv.calls p = some d) : Repeats y.srv d := by
  obtain ⟨u, hu⟩ := hk.routed
  obtain ⟨c', hc', hev⟩ := step_evolves hr h ((reachable_inv hr).sound.wf.nextCall p (by simp [hc])) hd
  obtain rfl := Option.some.inj (hc.symm.trans hc')
  have hroute := step_acts (I := fun s => s.wsGetFidQueue c.ulFid = some u)
    (fun _ _ _ hact hi => act_routes hact hi) hr h hu
  exact ⟨hev.longTerm.trans hk.longTerm, hev.isNew hk.told, hev.toDelete.trans hk.kept, u,
    hev.fid ▸ hroute⟩

def Armed (p : CallPtr) (n : UInt32) (s : Server) : Prop :=
  ∃ c, s.calls p = some c ∧ Repeats s c ∧ c.ulNextPollTick = n

theorem Armed.step (hA : Armed p n x.srv) (hr : Reachable (machine P) x)
    (h : (machine P).Step x a y) (hans : answeredIn x a ≠ some p)
    (hlive : (y.srv.calls p).isSome) : Armed p n y.srv := by
  obtain ⟨c, hc, hk, hn⟩ := hA
  obtain ⟨d, hd⟩ := Option.isSome_iff_exists.1 hlive
  obtain ⟨c', hc', hpoll⟩ := (step_ticks hr h).polls hans hd
    ((reachable_inv hr).sound.wf.nextCall p (by simp [hc]))
  obtain rfl := Option.some.inj (hc.symm.trans hc')
  exact ⟨d, hd, hk.step hc hr h hd, hpoll.trans hn⟩

theorem answering_responds (hr : Reachable (machine P) x)
    (h : (machine P).Step x (.worker env) y) {r : Reply} (hans : answering x = some (r, p)) :
    ∃ t, respond x.srv p r env = .ok t ∧ y.srv.calls = t.calls ∧ y.srv.tick = t.tick := by
  obtain ⟨u, pc, hu, hworker⟩ := answering_step hr hans
  obtain ⟨z, hz, rfl⟩ := map_eq_ok (Option.some.inj h)
  obtain ⟨t, ht, rfl⟩ := map_eq_ok ((hworker env).symm.trans hz)
  exact ⟨t, ht, hu t⟩

theorem respond_polls {r : Reply} (ht : respond s p r env = .ok t) (hlt : p < s.nextCall)
    (hc : s.calls p = some c) (hl : c.longTerm = true) (hd : t.calls p = some d) :
    d.ulNextPollTick = t.tick + c.ulPollIntervalTicks := by
  have hresp := (respond_responds s p r env).result t ht
  have htick := hresp.timeless.tick
  obtain ⟨u, b, hu, hb, hcase⟩ := hresp
  obtain ⟨c', hc', hch⟩ := hu.writes.changed hlt hb
  obtain rfl := Option.some.inj (hc.symm.trans hc')
  obtain ⟨hinterval, hlong⟩ := changed_kept hch
  have hsteady := (hcase.resolve_left (by simp [hlong, hl])).2
  obtain ⟨e, he, hpoll⟩ := hsteady.timeless.polls p d (Option.some_ne_none p) hd
    (Nat.lt_of_lt_of_le hlt hu.timeless.nextCall)
  rw [setCall_calls_self, Option.some.injEq] at he
  rw [hpoll, ← he, htick, ← hinterval, ← hu.timeless.tick]
  rfl

theorem answer_armed (hr : Reachable (machine P) x) (h : (machine P).Step x (.worker env) y)
    {r : Reply} (hans : answering x = some (r, p)) (hc : x.srv.calls p = some c)
    (hl : c.longTerm = true) (hnew : c.isNew = false) : p ∈ y.srv.pxWsApiCall ∧
      Armed p (y.srv.tick + c.ulPollIntervalTicks) y.srv := by
  have hlt := (reachable_inv hr).sound.wf.nextCall p (by simp [hc])
  obtain ⟨hdel, hroute⟩ := reachable_waiting hr (answering_waiting hr hans) hc
  obtain ⟨-, s, e, m, hsoft, he, -, hlist⟩ := answering_outcome hr h hans
  have hmem : p ∈ y.srv.pxWsApiCall := by
    obtain ⟨c', hc', hw⟩ := hsoft.call_back he
    obtain rfl := Option.some.inj (hc.symm.trans hc')
    rw [hlist, answered, if_pos (hw.longTerm.trans hl)]
    exact List.mem_append_right _ (List.mem_singleton.2 rfl)
  obtain ⟨d, hd⟩ := (reachable_inv (hr.step h)).sound.wf.call_of_mem (.inl hmem)
  have hk : Repeats x.srv c := ⟨hl, hnew, hdel, hroute⟩
  obtain ⟨t, ht, hcalls, htick⟩ := answering_responds hr h hans
  have hpoll := respond_polls ht hlt hc hl (hcalls ▸ hd)
  exact ⟨hmem, d, hd, hk.step hc hr h hd, htick ▸ hpoll⟩

end Armed

section Taken

variable {n : UInt32}

/-- The forward loop takes a call up: it goes to the end of the waiting calls,
and its request goes to the queue of its FID, if it can be allocated and the
queue has room. A full queue makes for BUSY. -/
structure TakenUp (z w : System) (p : CallPtr) (env : WorkerEnv) : Prop where
  moved : w.srv.pxWsApiCall = z.srv.pxWsApiCall.erase p ∧
    w.srv.pxWsApiWaitingForResponse = z.srv.pxWsApiWaitingForResponse ++ [p]
  tried : ∃ c q, z.srv.calls p = some c ∧ z.srv.wsGetFidQueue c.ulFid = some q ∧
    w.srv.trace = z.srv.trace ++
      if stalls c env then [.stall p]
      else if (z.srv.periph q).queue.length < (z.srv.periph q).depth then
        [.forward p q (requestOf c)]
      else .refuse p :: attempts z.srv .worker p (.status apiCallStatusBusy) env.busy

theorem attempted_waiting (s : Server) (p : CallPtr) (c : ApiCall) (u : QueueId) (env : WorkerEnv) :
    (attempted s p c u env).pxWsApiWaitingForResponse = s.pxWsApiWaitingForResponse := by
  unfold attempted
  split_ifs <;> rfl

theorem attempted_trace (s : Server) (p : CallPtr) (c : ApiCall) (u : QueueId) (env : WorkerEnv) :
    (attempted s p c u env).trace = s.trace ++
      if stalls c env then [.stall p]
      else if (s.periph u).queue.length < (s.periph u).depth then [.forward p u (requestOf c)]
      else .refuse p :: attempts s .worker p (.status apiCallStatusBusy) env.busy := by
  unfold attempted
  split_ifs <;> rfl

theorem told_old (hc : s.calls p = some c) (hnew : c.isNew = false) (e : SendEnv) : told s p e = s := by
  simp only [told, hc, hnew, Bool.false_eq_true, if_false]

theorem Repeats.parked_iff (hk : Repeats s c) :
    parked s c = true ↔ (s.tick - c.ulNextPollTick).toInt32 < 0 := by
  simp [parked, hk.longTerm, hk.told]

theorem armed_parked (hr : Reachable (machine P) z) (hw : z.worker = .forward (some p))
    (h : (machine P).Step z (.worker env) w) (hA : Armed p n z.srv)
    (hn : (z.srv.tick - n).toInt32 < 0) : ∃ m, w.srv = z.srv.withNet m := by
  obtain ⟨-, c, m, hc, rfl⟩ := forward_step hr hw h
  obtain ⟨c', hc', hk, rfl⟩ := hA
  obtain rfl := Option.some.inj (hc.symm.trans hc')
  have hpass : passed z.srv p c env = z.srv := by simp [passed, hk.kept, hk.parked_iff.2 hn]
  exact ⟨m, by rw [hpass]⟩

theorem armed_takenUp (hr : Reachable (machine P) z) (hw : z.worker = .forward (some p))
    (h : (machine P).Step z (.worker env) w) (hA : Armed p n z.srv)
    (hn : ¬ (z.srv.tick - n).toInt32 < 0) : TakenUp z w p env := by
  obtain ⟨hp, c, m, hc, rfl⟩ := forward_step hr hw h
  obtain ⟨c', hc', hk, rfl⟩ := hA
  obtain rfl := Option.some.inj (hc.symm.trans hc')
  obtain ⟨u, hu⟩ := hk.routed
  have hpark : parked z.srv c = false := eq_false_of_ne_true (fun he => hn (hk.parked_iff.1 he))
  obtain ⟨d, hd, hnew, -⟩ := attempted_call hc u env
  have hpass : passed z.srv p c env = (attempted z.srv p c u env).toWaiting p := by
    rw [passed_some hk.kept hpark hu]
    exact told_old (s := (attempted z.srv p c u env).toWaiting p) hd (hnew.trans hk.told) env.status
  rw [hpass]
  have hnot := (reachable_inv hr).sound.wf.not_waiting hp
  refine ⟨⟨congrArg (fun l => l.erase p) attempted_pxWsApiCall, ?_⟩, c, u, hc, hu, attempted_trace ..⟩
  show (attempted z.srv p c u env).pxWsApiWaitingForResponse.erase p ++ [p] = _
  rw [attempted_waiting, List.erase_of_not_mem hnot]

end Taken

section Elapsed

def elapsed (P : Platform) (y : System) (as : List Label) : Nat :=
  ((machine P).trail (fun x a => some (spent x a)) y as).sum

theorem elapsed_append {C : System → Label → System → Prop} {as : List Label}
    (h : Along (machine P) C y as z) (bs : List Label) :
    elapsed P y (as ++ bs) = elapsed P y as + elapsed P z bs := by
  rw [elapsed, h.trail_append, List.sum_append, elapsed, elapsed]

theorem elapsed_snoc {C : System → Label → System → Prop} {as : List Label}
    (h : Along (machine P) C y as z) (a : Label) :
    elapsed P y (as ++ [a]) = elapsed P y as + spent z a := by
  rw [elapsed, h.trail_snoc, List.sum_append, elapsed]
  simp

theorem elapsed_tick {C : System → Label → System → Prop} {as : List Label} (hr : Reachable (machine P) y)
    (h : Along (machine P) C y as z) :
    z.srv.tick = stamp (y.srv.tick.toNat + elapsed P y as) := by
  induction h with
  | start => exact (stamp_toNat y.srv.tick).symm
  | step hrun hstep _ ih =>
      rw [elapsed_snoc hrun, ← Nat.add_assoc]
      exact (step_ticks (hrun.reachable hr) hstep).stamp ih

theorem elapsed_parked_iff {C : System → Label → System → Prop} {as : List Label} {d : UInt32}
    (hr : Reachable (machine P) y) (h : Along (machine P) C y as z) (hd : d.toNat < 2 ^ 31)
    (hlt : elapsed P y as < d.toNat + 2 ^ 31) :
    (z.srv.tick - (y.srv.tick + d)).toInt32 < 0 ↔ elapsed P y as < d.toNat := by
  have hiff := before_deadline_iff (a := y.srv.tick.toNat) hd
    (Nat.le_add_right _ (elapsed P y as)) (by omega)
  rw [stamp_toNat, ← elapsed_tick hr h] at hiff
  rw [hiff, Nat.add_lt_add_iff_left]

end Elapsed

section Throttled

def Unanswered (p : CallPtr) (x : System) (a : Label) (_ : System) : Prop := answeredIn x a ≠ some p

/-- A call that is polled again no sooner than its delay, in ticks since a
reply, and as soon as the forward loop gets to it after that. -/
structure Throttled (P : Platform) (y : System) (p : CallPtr) (delay : Nat) : Prop where
  early : ∀ as z, Run (machine P) y as z → elapsed P y as < delay →
    forwards z.srv (· == p) = forwards y.srv (· == p)
  due : ∀ as z env w, Along (machine P) (Unanswered p) y as z → z.worker = .forward (some p) →
    (machine P).Step z (.worker env) w → delay ≤ elapsed P y as →
    elapsed P y as < delay + 2 ^ 31 → TakenUp z w p env
  pass : ∀ as z bs w, Along (machine P) (Unanswered p) y as z →
    z.worker = .forward z.srv.pxWsApiCall.head? → p ∈ z.srv.pxWsApiCall →
    Along (machine P) (fun x _ _ => InPass x) z bs w → ¬ InPass w →
    delay ≤ elapsed P y as → elapsed P y (as ++ bs) < delay + 2 ^ 31 →
    (∃ q ∈ (machine P).trail examines z bs, Deletes z.srv q p) ∨
    ∃ cs env ds u v, bs = cs ++ .worker env :: ds ∧ Run (machine P) z cs u ∧
      u.worker = .forward (some p) ∧ (machine P).Step u (.worker env) v ∧ TakenUp u v p env

variable {n : UInt32}

theorem examines_eq_some (h : examines x a = some p) :
    ∃ env, a = .worker env ∧ x.worker = .forward (some p) := by
  cases a with
  | worker env =>
      cases hw : x.worker with
      | forward item => exact ⟨env, rfl, by simpa [examines, hw] using h⟩
      | _ => simp [examines, hw] at h
  | _ => cases h

theorem answeredIn_waiting (hr : Reachable (machine P) x) (h : answeredIn x a = some p) :
    p ∈ x.srv.pxWsApiWaitingForResponse := by
  cases a with
  | worker env =>
      obtain ⟨⟨r, q⟩, hans, rfl⟩ := Option.map_eq_some_iff.1 h
      exact answering_waiting hr hans
  | _ => cases h

def Parked (p : CallPtr) (n : UInt32) (s : Server) : Prop :=
  s.calls p = none ∨ (p ∈ s.pxWsApiCall ∧ Armed p n s)

/-- Before the next poll a call is neither answered nor forwarded. -/
theorem Parked.step (hA : Parked p n z.srv) (hr : Reachable (machine P) z)
    (h : (machine P).Step z a w) (hlt : p < z.srv.nextCall) (hn : (z.srv.tick - n).toInt32 < 0) :
    Parked p n w.srv ∧ forwards w.srv (· == p) = forwards z.srv (· == p) := by
  rcases hA with hnone | ⟨hp, hA⟩
  · refine ⟨.inl (step_calls_none hr h hlt hnone), step_forwards hr h (fun hexam => ?_)⟩
    obtain ⟨env, rfl, hw⟩ := examines_eq_some hexam
    obtain ⟨-, c, m, hc, -⟩ := forward_step hr hw h
    rw [hnone] at hc
    cases hc
  · have hstays : forwards w.srv (· == p) = forwards z.srv (· == p) ∧
        ((w.srv.calls p).isSome → p ∈ w.srv.pxWsApiCall) := by
      by_cases hexam : examines z a = some p
      · obtain ⟨env, rfl, hw⟩ := examines_eq_some hexam
        obtain ⟨m, hsrv⟩ := armed_parked hr hw h hA hn
        rw [hsrv]
        exact ⟨rfl, fun _ => hp⟩
      · exact ⟨step_forwards hr h hexam, step_linked hr h hp hexam⟩
    refine ⟨?_, hstays.1⟩
    cases hd : w.srv.calls p with
    | none => exact .inl hd
    | some d =>
        have hlive : (w.srv.calls p).isSome := by simp [hd]
        have hans : answeredIn z a ≠ some p := fun he =>
          (reachable_inv hr).sound.wf.not_waiting hp (answeredIn_waiting hr he)
        exact .inr ⟨hstays.2 hlive, hA.step hr h hans hlive⟩

theorem run_nextCall {C : System → Label → System → Prop} {as : List Label}
    (hr : Reachable (machine P) y) (h : Along (machine P) C y as z) (hlt : p < y.srv.nextCall) :
    p < z.srv.nextCall :=
  h.invariant (I := fun z => p < z.srv.nextCall) hr hlt (fun _ _ _ hr hi hstep _ => step_nextCall hr hstep hi)

variable {d : UInt32} {as : List Label}

theorem parked_run (hr : Reachable (machine P) y) (hd : d.toNat < 2 ^ 31)
    (hlt : p < y.srv.nextCall) (hA : Parked p (y.srv.tick + d) y.srv) (h : Run (machine P) y as z)
    (he : elapsed P y as < d.toNat) : Parked p (y.srv.tick + d) z.srv ∧
      forwards z.srv (· == p) = forwards y.srv (· == p) := by
  induction h with
  | start => exact ⟨hA, rfl⟩
  | step hrun hstep _ ih =>
      rw [elapsed_snoc hrun] at he
      have he' := Nat.lt_of_le_of_lt (Nat.le_add_right _ _) he
      obtain ⟨hA', hsame⟩ := ih he'
      have hn := (elapsed_parked_iff hr hrun hd (by omega)).2 he'
      obtain ⟨hA'', hsame'⟩ := hA'.step (hrun.reachable hr) hstep (run_nextCall hr hrun hlt) hn
      exact ⟨hA'', hsame'.trans hsame⟩

theorem armed_run (hr : Reachable (machine P) y) (hlt : p < y.srv.nextCall) (hA : Armed p n y.srv)
    (h : Along (machine P) (Unanswered p) y as z) : z.srv.calls p = none ∨ Armed p n z.srv := by
  refine (h.invariant (I := fun z => p < z.srv.nextCall ∧ (z.srv.calls p = none ∨ Armed p n z.srv))
    hr ⟨hlt, .inr hA⟩ ?_).2
  rintro z a w hz ⟨hlt, hi⟩ hstep hans
  refine ⟨step_nextCall hz hstep hlt, ?_⟩
  rcases hi with hnone | hA
  · exact .inl (step_calls_none hz hstep hlt hnone)
  · cases hd : w.srv.calls p with
    | none => exact .inl rfl
    | some d => exact .inr (hA.step hz hstep hans (by simp [hd]))

theorem due_takenUp (hr : Reachable (machine P) y) (hd : d.toNat < 2 ^ 31)
    (hlt : p < y.srv.nextCall) (hA : Armed p (y.srv.tick + d) y.srv)
    (h : Along (machine P) (Unanswered p) y as z) (hw : z.worker = .forward (some p))
    (hstep : (machine P).Step z (.worker env) w) (hle : d.toNat ≤ elapsed P y as)
    (hwin : elapsed P y as < d.toNat + 2 ^ 31) : TakenUp z w p env := by
  have hz := h.reachable hr
  obtain ⟨-, c, m, hc, -⟩ := forward_step hz hw hstep
  have hlive : z.srv.calls p ≠ none := by simp [hc]
  have hA' := (armed_run hr hlt hA h).resolve_left hlive
  refine armed_takenUp hz hw hstep hA' (fun hn => ?_)
  exact Nat.not_lt.2 hle ((elapsed_parked_iff hr h hd hwin).1 hn)

theorem pass_unanswered {z w : System} {a : Label} (h : InPass z) : Unanswered p z a w := by
  obtain ⟨q, hw⟩ := h
  cases a with
  | worker => simp [Unanswered, answeredIn, answering, hw]
  | _ =>
      intro he
      cases he

theorem pass_examines {bs : List Label} (hz : Reachable (machine P) z)
    (hw : z.worker = .forward z.srv.pxWsApiCall.head?) (hp : p ∈ z.srv.pxWsApiCall)
    (h : Along (machine P) (fun x _ _ => InPass x) z bs w) (hend : ¬ InPass w) :
    p ∈ (machine P).trail examines z bs ∨
      ∃ q ∈ (machine P).trail examines z bs, Deletes z.srv q p := by
  have hpassing := passing_run hz h
  have htodo : todo z = z.srv.pxWsApiCall := by
    rw [todo, hw]
    exact ahead_head _
  have hdone : todo w = [] := by
    cases hpc : w.worker with
    | forward item =>
        cases item with
        | none => simp [todo, hpc, ahead]
        | some q => exact absurd ⟨q, hpc⟩ hend
    | _ => simp [todo, hpc]
  have hmissed := hpassing.missed p (htodo ▸ hp)
  rwa [hdone, List.append_nil] at hmissed

/-- The polls of a LONG_TERM call are throttled by the delay that it was accepted
with. -/
theorem poll_throttled (hP : ∀ ms, P.msToTicks ms ≤ ms) (hr : Reachable (machine P) x)
    {conn : ConnPtr} {json : Json} {c₀ : ApiCall} (hm : .accept p conn json c₀ ∈ x.srv.trace)
    {r : Reply} (hans : answering x = some (r, p)) (hc : x.srv.calls p = some c)
    (hl : c.longTerm = true) (hnew : c.isNew = false) (h : (machine P).Step x (.worker env) y) :
    Throttled P y p (framePollInterval P json).toNat := by
  have hd := framePollInterval_lt hP json
  have hy := hr.step h
  have hlt := step_nextCall hr h ((reachable_inv hr).sound.wf.nextCall p (by simp [hc]))
  obtain ⟨hp, hA⟩ := answer_armed hr h hans hc hl hnew
  rw [reachable_interval hr hc hm] at hA
  refine ⟨fun as z hrun he => (parked_run hy hd hlt (.inr ⟨hp, hA⟩) hrun he).2,
    fun as z env w hrun hw hstep hle hwin => due_takenUp hy hd hlt hA hrun hw hstep hle hwin, ?_⟩
  intro as z bs w hrun hw hpz hpass hend hle hwin
  rcases pass_examines (hrun.reachable hy) hw hpz hpass hend with hexam | hdel
  · obtain ⟨cs, a, ds, u, v, rfl, hcs, hstep, hobs⟩ := hpass.mem_trail hexam
    obtain ⟨env, rfl, hwu⟩ := examines_eq_some hobs
    have hall := hrun.append (hcs.imp (fun _ _ _ hin => pass_unanswered hin))
    have hsum := elapsed_append hrun cs
    rw [elapsed_append hrun, elapsed_append hcs] at hwin
    exact .inr ⟨cs, env, ds, u, v, rfl, hcs.run, hwu, hstep,
      due_takenUp hy hd hlt hA hall hwu hstep (by omega) (by omega)⟩
  · exact .inl hdel

end Throttled

section Samples

def delayedText (sid : Nat) : Bytes :=
  bytes (['\x7b', '"', 'F', 'I', 'D', '"', ':'] ++ digits 0x1011 ++
    [',', '"', 'F', 'L', 'A', 'G', 'S', '"', ':', '4', ',', '"', 'S', 'I', 'D', '"', ':'] ++
    digits sid ++ [',', '"', 'A', 'R', 'G', '"', ':', '\x7b', '"', 'R', 'D', 'L', '"', ':', '1', '0',
      '0', '\x7d', '\x7d'])

def delayedJson (sid : Nat) : Json :=
  .object [(bytes ['F', 'I', 'D'], .number 0x1011 0x1011),
    (bytes ['F', 'L', 'A', 'G', 'S'], .number 4 4),
    (bytes ['S', 'I', 'D'], .number (Int32.ofNat sid) sid),
    (bytes ['A', 'R', 'G'], .object [(bytes ['R', 'D', 'L'], .number 100 100)])]

def delayed : Platform where
  parse text := ([5, 6].find? (fun sid => delayedText sid == text)).map delayedJson
  print _ := bytes ['\x7b', '"', 'R', 'D', 'L', '"', ':', '1', '0', '0', '\x7d']
  msToTicks t := t

def subscription (sid : Nat) : List Label :=
  [.frame 0 .text (some (delayedText sid)) true, .text ⟨true, true, okSend⟩]

def polled (x : System) : Bool :=
  (answering x).any (fun t => t.2 == 0) &&
    (x.srv.calls 0).any (fun c => c.longTerm && !c.isNew) &&
    x.srv.trace.any (fun
      | .accept p _ json _ => p == 0 && framePollInterval delayed json == 100
      | _ => false)

theorem of_polled (h : polled x = true) : (∃ r, answering x = some (r, 0)) ∧
    (∃ c, x.srv.calls 0 = some c ∧ c.longTerm = true ∧ c.isNew = false) ∧
    ∃ n json c, .accept 0 n json c ∈ x.srv.trace ∧ framePollInterval delayed json = 100 := by
  simp only [polled, Bool.and_eq_true] at h
  obtain ⟨⟨hans, hcall⟩, htrace⟩ := h
  obtain ⟨⟨r, q⟩, hans, hq⟩ := (Option.any_eq_true ..).1 hans
  obtain ⟨c, hc, hflags⟩ := (Option.any_eq_true ..).1 hcall
  obtain ⟨e, he, hkind⟩ := List.any_eq_true.1 htrace
  refine ⟨⟨r, ?_⟩, ⟨c, hc, by simpa using hflags⟩, ?_⟩
  · have hzero : q = 0 := beq_iff_eq.1 hq
    rw [hans, hzero]
  · cases e with
    | accept p n json c =>
        simp only [Bool.and_eq_true, beq_iff_eq] at hkind
        obtain ⟨rfl, hinterval⟩ := hkind
        exact ⟨n, json, c, he, hinterval⟩
    | _ => cases hkind

def firstPoll : List Label :=
  [.registerQueue 0x1011 (some 0) true true, .connect 1 true] ++ subscription 5 ++ work 7

def secondPoll : List Label :=
  firstPoll ++ [.periphTake 0] ++ subscription 6 ++ work 9 ++ [.periphAnswer 0 none] ++ work 1

def wait : List Label := [.tick 100] ++ work 7

theorem poll_throttled_second : ∃ x y, Reachable (machine delayed) x ∧
    (machine delayed).Step x (.worker okEnv) y ∧ Throttled delayed y 0 100 := by
  have h : (machine delayed).reaches (initSystem (fun _ => 10)) secondPoll (fun x => polled x &&
      (machine delayed).reaches x [.worker okEnv] (fun _ => true)) = true := by decide +kernel
  obtain ⟨x, hrun, hx⟩ := exists_of_reaches h
  rw [Bool.and_eq_true] at hx
  obtain ⟨⟨r, hans⟩, ⟨c, hc, hl, hnew⟩, n, json, c₀, hm, hinterval⟩ := of_polled hx.1
  obtain ⟨y, hstep, -⟩ := exists_step_of_reaches hx.2
  have hr : Reachable (machine delayed) x := ⟨_, _, ⟨_, rfl⟩, hrun⟩
  have hthrottled := poll_throttled (P := delayed) (fun _ => UInt32.le_refl _) hr hm hans hc hl hnew hstep
  rw [hinterval] at hthrottled
  exact ⟨x, y, hr, hstep, hthrottled⟩

/-- When the loop gets to the first call in time, the request of the second one
still takes all the room of the queue. -/
theorem poll_refused : ∃ x y z w r c n json c₀, Reachable (machine delayed) x ∧
    .accept 0 n json c₀ ∈ x.srv.trace ∧ framePollInterval delayed json = 100 ∧
    answering x = some (r, 0) ∧ x.srv.calls 0 = some c ∧ c.longTerm = true ∧ c.isNew = false ∧
    (machine delayed).Step x (.worker okEnv) y ∧
    Along (machine delayed) (Unanswered 0) y wait z ∧ elapsed delayed y wait = 100 ∧
    z.worker = .forward (some 0) ∧ (target z.srv 0).isSome ∧
    (machine delayed).Step z (.worker okEnv) w ∧
    forwards w.srv (· == 0) = forwards y.srv (· == 0) := by
  have h : (machine delayed).reaches (initSystem (fun _ => 1)) secondPoll (fun x => polled x &&
      (machine delayed).reaches x [.worker okEnv] (fun y => elapsed delayed y wait == 100 &&
        (machine delayed).check (fun x a => answeredIn x a != some 0) (fun z =>
          examines z (.worker okEnv) == some 0 && ((target z.srv 0).isSome &&
          (machine delayed).reaches z [.worker okEnv] (fun w =>
            forwards w.srv (· == 0) == forwards y.srv (· == 0)))) y wait)) = true := by
    decide +kernel
  obtain ⟨x, hrun, hx⟩ := exists_of_reaches h
  rw [Bool.and_eq_true] at hx
  obtain ⟨⟨r, hans⟩, ⟨c, hc, hl, hnew⟩, n, json, c₀, hm, hinterval⟩ := of_polled hx.1
  obtain ⟨y, hxy, hy⟩ := exists_step_of_reaches hx.2
  rw [Bool.and_eq_true, beq_iff_eq] at hy
  obtain ⟨z, hyz, hz⟩ := exists_of_check hy.2
  simp only [Bool.and_eq_true, beq_iff_eq] at hz
  obtain ⟨hexam, hlive, hw⟩ := hz
  obtain ⟨-, -, hpc⟩ := examines_eq_some hexam
  obtain ⟨w, hzw, hsame⟩ := exists_step_of_reaches hw
  have hunanswered := hyz.imp (Q := Unanswered 0) (fun _ _ _ hne => bne_iff_ne.1 hne)
  exact ⟨x, y, z, w, r, c, n, json, c₀, ⟨_, _, ⟨_, rfl⟩, hrun⟩, hm, hinterval, hans, hc, hl, hnew,
    hxy, hunanswered, hy.1, hpc, hlive, hzw, beq_iff_eq.1 hsame⟩

end Samples

end WirelessGateway.Throttle
