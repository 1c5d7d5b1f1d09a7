import WirelessGateway.Accepted
import WirelessGateway.Completions
import WirelessGateway.Deleting

namespace WirelessGateway.Handlers

open CJson WirelessGateway.Types Memory WsServer Transport Worker Tasks Sends WellFormed SoftSteps
open Lifecycle Operations Forwarding ForwardPass Steps Provenance Accepted WirelessGateway.Lists Outcomes Deleting
open Updates Completions Lib.Linked Lib.Fallible Lib.Runs

variable {P : Platform} {s t : Server} {p : CallPtr} {c d : ApiCall} {env : WorkerEnv}
  {x y : System} {a : Label}

structure Answer where
  call : CallPtr
  handler : Option HandlerId
  pending : UInt32
  msg : WebapiMsg

structure Invocation where
  handler : HandlerId
  ulPending : UInt32
  pucData : Option Bytes
  ulDataLen : Nat
deriving DecidableEq

def Answer.invocation (e : Answer) : Option Invocation :=
  e.handler.map (fun h => ⟨h, e.pending, e.msg.data, e.msg.len⟩)

def answerOf (x : System) : Label → Option Answer
  | .worker _ => (answering x).bind (fun t =>
      (x.srv.calls t.2).map (fun c => ⟨t.2, c.fHandler, c.ulCallPending, t.1.msg⟩))
  | _ => none

abbrev logged (P : Platform) : Machine (System × List Answer) Label Fault :=
  (machine P).carry [] (fun x a l => l ++ (answerOf x a).toList)

def answersTo (l : List Answer) (p : CallPtr) : List Answer := l.filter (fun e => e.call == p)

def invocations (l : List Answer) (p : CallPtr) : List Invocation :=
  (answersTo l p).filterMap Answer.invocation

def argLength (P : Platform) (json : Json) : Nat := ((frameArg P true json).map List.length).getD 0

/-- The documented contract of a handler, for a call that is released: an
invocation with the ARG of its frame while it is pending, and one last
invocation for it to clean up. -/
def Contract (P : Platform) (json : Json) (h : HandlerId) (l : List Invocation) : Prop :=
  ∃ pre last, l = pre ++ [last] ∧ last.handler = h ∧ last.ulPending = 0 ∧
    (∀ i ∈ pre, i.ulPending ≠ 0) ∧
    ∃ i ∈ pre, i.handler = h ∧ i.pucData = frameArg P true json ∧ i.ulDataLen = argLength P json

/-- Every call with a handler that a step releases has met the contract. -/
def HonouredStep (P : Platform) (z : System × List Answer) (_ : Label) (w : System × List Answer) :
    Prop :=
  ∀ p n json c h, .accept p n json c ∈ z.1.srv.trace → c.fHandler = some h →
    (z.1.srv.calls p).isSome → w.1.srv.calls p = none → Contract P json h (invocations w.2 p)

abbrev overheard (P : Platform) : Machine ((System × List Answer) × List Input) Label Fault :=
  (logged P).carry [] (fun z a l => l ++ inputsOf z.1 a)

inductive Releases (x : System) (p : CallPtr) : Prop
  | swept {c : ApiCall} (h : serves x.worker = some p) (hc : x.srv.calls p = some c)
      (hq : c.session = none)
  | deleted {q : CallPtr} (h : x.worker = .forward (some q)) (hd : Deletes x.srv q p)
  | spent {c : ApiCall} (h : x.worker = .forward (some p)) (hc : x.srv.calls p = some c)
      (hdel : c.toDelete = true)
  | invalid {c : ApiCall} (h : x.worker = .forward (some p)) (hc : x.srv.calls p = some c)
      (hdel : c.toDelete = false) (hpark : parked x.srv c = false)
      (hq : x.srv.wsGetFidQueue c.ulFid = none)
  | answered {r : Reply} {c : ApiCall} (h : answering x = some (r, p))
      (hc : x.srv.calls p = some c) (hl : c.longTerm = false)

def Repeats (P : Platform) (json : Json) (m : WebapiMsg) : Prop :=
  m.data = frameArg P true json ∧ m.len = argLength P json

/-- A call has had a message that repeats its ARG before it was completed, and
one after that. -/
def Finished (P : Platform) (json : Json) (i : List Input) (p : CallPtr) : Prop :=
  (∃ k m, i[k]? = some (.message p m) ∧ .completion p ∉ i.take k ∧ Repeats P json m) ∧
    ∃ k m, i[k]? = some (.message p m) ∧ .completion p ∈ i.take k

/-- A call with a handler is released only when it is finished. -/
def FinishedStep (P : Platform) (z : (System × List Answer) × List Input) (a : Label)
    (_ : (System × List Answer) × List Input) : Prop :=
  ∀ p n json c h, .accept p n json c ∈ z.1.1.srv.trace → c.fHandler = some h →
    (∃ env, a = .worker env) → Releases z.1.1 p → Finished P json z.2 p

section Releases

theorem step_nextCall (hr : Reachable (machine P) x) (h : (machine P).Step x a y)
    (hp : p < x.srv.nextCall) : p < y.srv.nextCall :=
  step_acts (I := fun s => p < s.nextCall)
    (fun _ _ _ hact hi => Nat.lt_of_lt_of_le hi (act_nextCall hact)) hr h hp

theorem step_calls_none (hr : Reachable (machine P) x) (h : (machine P).Step x a y)
    (hp : p < x.srv.nextCall) (hnone : x.srv.calls p = none) : y.srv.calls p = none := by
  refine (step_acts (I := fun s => p < s.nextCall ∧ s.calls p = none) ?_ hr h ⟨hp, hnone⟩).2
  rintro s t _ hact ⟨hlt, hs⟩
  refine ⟨Nat.lt_of_lt_of_le hlt (act_nextCall hact), ?_⟩
  cases ht : t.calls p with
  | none => rfl
  | some d =>
      obtain ⟨c, hc, -⟩ := act_evolves hact ht hlt
      rw [hs] at hc
      cases hc

theorem step_evolves (hr : Reachable (machine P) x) (h : (machine P).Step x a y)
    (hp : p < x.srv.nextCall) (hd : y.srv.calls p = some d) :
    ∃ c, x.srv.calls p = some c ∧ Evolves c d := by
  have hkeep := step_acts (I := fun s => p < s.nextCall ∧
    ∀ d, s.calls p = some d → ∃ c, x.srv.calls p = some c ∧ Evolves c d) ?_ hr h
    ⟨hp, fun d hd => ⟨d, hd, .refl d⟩⟩
  · exact hkeep.2 d hd
  · rintro s t _ hact ⟨hlt, hs⟩
    refine ⟨Nat.lt_of_lt_of_le hlt (act_nextCall hact), fun e he => ?_⟩
    obtain ⟨c, hc, hev⟩ := act_evolves hact he hlt
    obtain ⟨b, hb, hev'⟩ := hs c hc
    exact ⟨b, hb, hev'.trans hev⟩

theorem outer_calls {G : Guard} (h : Outer P G s t) (hp : p < s.nextCall) :
    t.calls p = s.calls p := by
  cases h with
  | same => rfl
  | @connect fd alloc => cases alloc <;> rfl
  | disconnect => exact congrFun (hangUp_calls ..).1 p
  | accept => exact allocCall_calls_ne (Nat.ne_of_lt hp)
  | _ => rfl

theorem removed_none_iff {q : CallPtr} (hp : (s.calls p).isSome) :
    (removed s q).calls p = none ↔ p = q := by
  by_cases hpq : p = q
  · simp [hpq]
  · rw [removed_calls_ne hpq]
    simp [hpq, Option.isSome_iff_ne_none.1 hp]

theorem setCall_isSome {q : CallPtr} (hp : (s.calls p).isSome) (e : ApiCall) :
    ((s.setCall q e).calls p).isSome := by
  by_cases hpq : p = q
  · simp [hpq]
  · rwa [setCall_calls_ne hpq]

theorem attempted_isSome {q : QueueId} {r : CallPtr} (hp : (s.calls p).isSome) :
    ((attempted s r d q env).calls p).isSome := by
  unfold attempted
  split_ifs
  · exact hp
  · exact setCall_isSome (s := pushed s q ⟨requestOf d, r⟩) hp _
  · exact setCall_isSome (s := frames s _) hp _

theorem told_isSome {r : CallPtr} {e : SendEnv} (hp : (s.calls p).isSome) :
    ((told s r e).calls p).isSome := by
  unfold told
  split
  · split_ifs
    · exact setCall_isSome (s := frames s _) hp _
    · exact hp
  · exact hp

theorem passed_none_iff {q : CallPtr} (hs : WF s) (hp : (s.calls p).isSome)
    (hd : s.calls q = some d) : (passed s q d env).calls p = none ↔
      (d.toDelete = true ∧ (p = q ∨ Deletes s q p)) ∨
      (d.toDelete = false ∧ parked s d = false ∧ s.wsGetFidQueue d.ulFid = none ∧ p = q) := by
  cases hdel : d.toDelete with
  | true =>
      have hpass : passed s q d env = deleted s q d env.status := by simp [passed, hdel]
      rw [hpass]
      cases ht : target s q with
      | none =>
          have hnot : ¬ Deletes s q p := fun h => by simp [Deletes, keyOf, ht] at h
          have hrem : deleted s q d env.status = removed (frames s
              (attempts s .worker q (.status apiCallStatusDelivered) env.status)) q := by
            rw [deleted, ht]
          rw [hrem, removed_none_iff (by exact hp)]
          simp [hnot]
      | some z =>
          obtain ⟨d', k⟩ := z
          obtain rfl : d = d' := Option.some.inj (hd.symm.trans (target_eq_some_iff.1 ht).1)
          have hkey : Deletes s q p ↔ keyOf s p = keyOf s q := by
            simp [Deletes, hd, hdel, keyOf_eq ht]
          rw [deleted_calls hs ht, clientMatch_eq, ← keyOf_eq ht, hkey]
          by_cases hm : keyOf s p = keyOf s q
          · simp [hm]
          · have hpq : p ≠ q := fun he => hm (by rw [he])
            simp [hm, hpq, Option.isSome_iff_ne_none.1 hp]
  | false =>
      cases hpark : parked s d with
      | true =>
          have hpass : passed s q d env = s := by simp [passed, hdel, hpark]
          rw [hpass]
          simp [Option.isSome_iff_ne_none.1 hp]
      | false =>
          cases hq : s.wsGetFidQueue d.ulFid with
          | none =>
              rw [passed_none hdel hpark hq, invalidated, removed_none_iff (by exact hp)]
              simp
          | some u =>
              rw [passed_some hdel hpark hq]
              have hlive : ((told ((attempted s q d u env).toWaiting q) q env.status).calls p).isSome :=
                told_isSome (s := (attempted s q d u env).toWaiting q) (attempted_isSome hp)
              simp [Option.isSome_iff_ne_none.1 hlive]

theorem answered_none_iff {q : CallPtr} {r : Reply} {e : SendEnv} (hp : (s.calls p).isSome) :
    (answered s q c r e).calls p = none ↔ p = q ∧ c.longTerm = false := by
  unfold answered
  cases c.longTerm with
  | true =>
      have hlive : ((rearmed (frames s (replyFrames s q r e ++ [.respond q r])) q c).calls p).isSome :=
        setCall_isSome (s := frames s _) hp _
      simp [Option.isSome_iff_ne_none.1 hlive]
  | false =>
      have hlive : ((frames s (replyFrames s q r e ++ [.respond q r])).calls p).isSome := hp
      simp [removed_none_iff hlive]

theorem releases_serves {q : CallPtr} (h : serves x.worker = some q) :
    Releases x p ↔ p = q ∧ ∃ c, x.srv.calls q = some c ∧ c.session = none := by
  have hforward : ∀ u, x.worker ≠ .forward (some u) := by
    intro u hw
    rw [hw] at h
    cases h
  constructor
  · rintro (⟨h', hc, hq⟩ | ⟨h', -⟩ | ⟨h', -⟩ | ⟨h', -⟩ | ⟨h', -⟩)
    · rw [h, Option.some.injEq] at h'
      exact ⟨h'.symm, _, h' ▸ hc, hq⟩
    · exact absurd h' (hforward _)
    · exact absurd h' (hforward _)
    · exact absurd h' (hforward _)
    · rcases answering_worker h' with ⟨hw, -⟩ | hw
      · simp [hw, serves] at h
      · simp [hw, serves] at h
  · rintro ⟨rfl, c, hc, hq⟩
    exact .swept h hc hq

theorem releases_forward {q : CallPtr} (h : x.worker = .forward (some q))
    (hd : x.srv.calls q = some d) : Releases x p ↔
      (d.toDelete = true ∧ (p = q ∨ Deletes x.srv q p)) ∨
      (d.toDelete = false ∧ parked x.srv d = false ∧ x.srv.wsGetFidQueue d.ulFid = none ∧ p = q) := by
  constructor
  · rintro (⟨h', -⟩ | ⟨h', hdel⟩ | ⟨h', hc, hdel⟩ | ⟨h', hc, hdel, hpark, hq⟩ | ⟨h', -⟩)
    · simp [h, serves] at h'
    · simp only [h, WorkerPc.forward.injEq, Option.some.injEq] at h'
      subst h'
      obtain ⟨c, hc, hcd⟩ := hdel.1
      obtain rfl : d = c := Option.some.inj (hd.symm.trans hc)
      exact .inl ⟨hcd, .inr hdel⟩
    · simp only [h, WorkerPc.forward.injEq, Option.some.injEq] at h'
      subst h'
      obtain rfl := Option.some.inj (hd.symm.trans hc)
      exact .inl ⟨hdel, .inl rfl⟩
    · simp only [h, WorkerPc.forward.injEq, Option.some.injEq] at h'
      subst h'
      obtain rfl := Option.some.inj (hd.symm.trans hc)
      exact .inr ⟨hdel, hpark, hq, rfl⟩
    · rcases answering_worker h' with ⟨hw, -⟩ | hw
      · simp [hw] at h
      · simp [hw] at h
  · rintro (⟨hdel, rfl | hdels⟩ | ⟨hdel, hpark, hq, rfl⟩)
    · exact .spent h hd hdel
    · exact .deleted h hdels
    · exact .invalid h hd hdel hpark hq

theorem releases_answering {q : CallPtr} {r : Reply} (h : answering x = some (r, q)) :
    Releases x p ↔ p = q ∧ ∃ c, x.srv.calls q = some c ∧ c.longTerm = false := by
  have hw : serves x.worker = none ∧ ∀ u, x.worker ≠ .forward (some u) := by
    rcases answering_worker h with ⟨hw, -⟩ | hw
    · simp [hw, serves]
    · simp [hw, serves]
  constructor
  · rintro (⟨h', -⟩ | ⟨h', -⟩ | ⟨h', -⟩ | ⟨h', -⟩ | ⟨h', hc, hl⟩)
    · simp [hw.1] at h'
    · exact absurd h' (hw.2 _)
    · exact absurd h' (hw.2 _)
    · exact absurd h' (hw.2 _)
    · rw [h, Option.some.injEq, Prod.mk.injEq] at h'
      exact ⟨h'.2.symm, _, h'.2 ▸ hc, hl⟩
  · rintro ⟨rfl, c, hc, hl⟩
    exact .answered h hc hl

theorem not_releases (hserves : serves x.worker = none) (hforward : ∀ q, x.worker ≠ .forward (some q))
    (hans : answering x = none) : ¬ Releases x p := by
  rintro (⟨h', -⟩ | ⟨h', -⟩ | ⟨h', -⟩ | ⟨h', -⟩ | ⟨h', -⟩)
  · simp [hserves] at h'
  · exact hforward _ h'
  · exact hforward _ h'
  · exact hforward _ h'
  · simp [hans] at h'

theorem weaker_longTerm {q : CallPtr} (h : Soft s t) (hd : t.calls q = some d) :
    (∃ c, s.calls q = some c ∧ c.longTerm = false) ↔ d.longTerm = false := by
  obtain ⟨c, hc, hw⟩ := h.call_back hd
  simp [hc, hw.longTerm]

theorem step_releases (hr : Reachable (machine P) x) (h : (machine P).Step x a y)
    (hp : (x.srv.calls p).isSome) :
    y.srv.calls p = none ↔ (∃ env, a = .worker env) ∧ Releases x p := by
  have hs := (reachable_inv hr).sound.wf
  have hlive : ∀ {u : Server}, Soft x.srv u → (u.calls p).isSome := fun hu => (hu.isSome p).trans hp
  rcases step_outcome hr h with ⟨env, rfl, hout⟩ | ⟨hne, -, hapart⟩
  · rw [and_iff_right ⟨env, rfl⟩]
    have hnone := Option.isSome_iff_ne_none.1 hp
    generalize y.srv = t at hout
    generalize y.worker = pc at hout
    cases hout with
    | turned hturn =>
        obtain ⟨hserves, hforward, hans⟩ := turn_idle hturn
        simp [not_releases hserves hforward hans, hnone]
    | @swept q c _ hserve hc hq =>
        rw [releases_serves hserve, removed_none_iff hp]
        simp [hc, hq]
    | @kept q c _ _ hserve hc hq hsoft =>
        rw [releases_serves hserve]
        simp [hc, hq, Option.isSome_iff_ne_none.1 (hlive hsoft)]
    | @passed q d m hw _ hd =>
        rw [releases_forward hw hd]
        exact passed_none_iff hs hp hd
    | received hw =>
        have hnot : ¬ Releases x p := not_releases (by simp [hw, serves]) (by simp [hw])
          (by simp [hw, answering])
        simp only [hnot, iff_false]
        exact hnone
    | @unanswered r hw hans =>
        have hnot : ¬ Releases x p := by
          rcases hw with hw | hw
          · exact not_releases (by simp [hw, serves]) (by simp [hw]) hans
          · exact not_releases (by simp [hw, serves]) (by simp [hw]) hans
        simp only [hnot, iff_false]
        exact hnone
    | @answered r q c s m hw hans _ hsoft hc =>
        rw [releases_answering hans, weaker_longTerm hsoft hc]
        exact answered_none_iff (hlive (hsoft.trans (.withNet s m)))
    | @broadcast r q next c s m hw _ hsoft hc =>
        rw [releases_answering (r := r) (q := q) (by simp [answering, hw]), weaker_longTerm hsoft hc]
        exact answered_none_iff (hlive (hsoft.trans (.withNet s m)))
  · obtain ⟨s', hsoft, houter⟩ := hapart.1.outer
    have hlt : p < s'.nextCall := hsoft.nextCall ▸ hs.nextCall p hp
    rw [outer_calls houter hlt]
    refine iff_of_false (Option.isSome_iff_ne_none.1 (hlive hsoft)) ?_
    rintro ⟨⟨env, he⟩, -⟩
    exact hne env he

end Releases

section Completed

theorem pending_zero (hr : Reachable (machine P) x) (hc : x.srv.calls p = some c)
    (h : c.ulCallPending = 0) : c.session = none := by
  by_contra hlive
  rw [live_pending hr hc hlive] at h
  cases h

def Resting : WorkerPc → Prop
  | .receive | .taken _ | .broadcast _ _ | .idle => True
  | _ => False

def Abandoned (p : CallPtr) (s : Server) : Prop :=
  p ∈ s.pxWsApiCall ∧ ∀ c, s.calls p = some c → c.session = none

def Doomed (p : CallPtr) (x : System) : Prop :=
  p < x.srv.nextCall ∧ (x.srv.calls p = none ∨
    (Resting x.worker ∧ Abandoned p x.srv) ∨
    (Serving x.worker ∧ Unswept p x))

theorem doomed_not_answering (hr : Reachable (machine P) x) (hd : Doomed p x) {r : Reply} :
    answering x ≠ some (r, p) := by
  intro h
  have hs := (reachable_inv hr).sound.wf
  have hwait := answering_waiting hr h
  obtain ⟨c, hc⟩ := hs.call_of_mem (.inr hwait)
  rcases hd.2 with hnone | ⟨-, hcall, -⟩ | ⟨hserving, -⟩
  · rw [hc] at hnone
    cases hnone
  · exact hs.not_waiting hcall hwait
  · rcases answering_worker h with ⟨hw, -⟩ | hw
    · simp [hw, Serving] at hserving
    · simp [hw, Serving] at hserving

theorem answered_mem {q : CallPtr} {r : Reply} {e : SendEnv} (hp : p ∈ s.pxWsApiCall) (hpq : p ≠ q) :
    p ∈ (answered s q c r e).pxWsApiCall := by
  unfold answered
  cases c.longTerm with
  | true => exact List.mem_append_left _ ((List.mem_erase_of_ne hpq).2 hp)
  | false => exact (List.mem_erase_of_ne hpq).2 hp

theorem outer_mem {G : Guard} (h : Outer P G s t) (hp : p ∈ s.pxWsApiCall) (hlt : p < s.nextCall) :
    p ∈ t.pxWsApiCall := by
  cases h with
  | @connect fd alloc => cases alloc <;> exact hp
  | @disconnect n k => cases k.userData <;> exact hp
  | accept => exact List.mem_append_left _ ((List.mem_erase_of_ne (Nat.ne_of_lt hlt)).2 hp)
  | _ => exact hp

theorem soft_dead (h : Soft s t) (hdead : ∀ c, s.calls p = some c → c.session = none) :
    ∀ c, t.calls p = some c → c.session = none := by
  intro d hd
  obtain ⟨c, hc, hw⟩ := h.call_back hd
  rcases hw.session with he | he
  · rw [he, hdead c hc]
  · exact he

theorem abandoned_step (hr : Reachable (machine P) x) (h : (machine P).Step x a y)
    (hlt : p < x.srv.nextCall) (hrest : Resting x.worker) (hp : Abandoned p x.srv) :
    (Resting y.worker ∧ Abandoned p y.srv) ∨ (Serving y.worker ∧ Unswept p y) := by
  obtain ⟨hmem, hdead⟩ := hp
  have hs := (reachable_inv hr).sound.wf
  have hanswered : ∀ {q : CallPtr} {r : Reply} {s : Server} {c : ApiCall} {m : Net} {e : SendEnv},
      q ∈ x.srv.pxWsApiWaitingForResponse → Soft x.srv s →
      Abandoned p (answered (s.withNet m) q c r e) := by
    intro q r s c m e hq hsoft
    have hpq : p ≠ q := by
      rintro rfl
      exact hs.not_waiting hmem hq
    refine ⟨answered_mem (s := s.withNet m) (hsoft.lists ▸ hmem) hpq, fun d hd => ?_⟩
    rw [answered_calls_ne r e hpq] at hd
    exact soft_dead hsoft hdead d hd
  rcases step_outcome hr h with ⟨env, rfl, hout⟩ | ⟨hne, hworker, hapart⟩
  · obtain ⟨s', pc, h'⟩ := y
    simp only at hout ⊢
    cases hout with
    | turned hturn =>
        cases hw : x.worker with
        | idle =>
            rw [hw] at hturn
            cases hturn
            exact .inr ⟨trivial, hdead, .inr (.inr (.head hmem))⟩
        | receive =>
            rw [hw, turn] at hturn
            split_ifs at hturn
            cases hturn
            exact .inl ⟨trivial, hmem, hdead⟩
        | taken r =>
            rw [hw, turn] at hturn
            split_ifs at hturn
            cases hturn
            exact .inl ⟨trivial, hmem, hdead⟩
        | broadcast r it =>
            rw [hw] at hturn
            cases hturn
        | _ => simp [hw, Resting] at hrest
    | swept hserve =>
        cases hw : x.worker <;> simp [hw, serves, Resting] at hserve hrest
    | kept hserve =>
        cases hw : x.worker <;> simp [hw, serves, Resting] at hserve hrest
    | passed hw => simp [hw, Resting] at hrest
    | received => exact .inl ⟨trivial, hmem, hdead⟩
    | unanswered => exact .inl ⟨trivial, hmem, hdead⟩
    | answered _ _ hq hsoft => exact .inl ⟨trivial, hanswered hq hsoft⟩
    | broadcast _ hq hsoft => exact .inl ⟨trivial, hanswered hq hsoft⟩
  · obtain ⟨s', hsoft, houter⟩ := hapart.1.outer
    have hlt' : p < s'.nextCall := hsoft.nextCall ▸ hlt
    refine .inl ⟨hworker ▸ hrest, outer_mem houter (hsoft.lists ▸ hmem) hlt', fun d hd => ?_⟩
    rw [outer_calls houter hlt'] at hd
    exact soft_dead hsoft hdead d hd

theorem unswept_cases (hu : Unswept p x) : Serving x.worker ∨ x.srv.calls p = none := by
  cases hw : x.worker with
  | serveCalls item => exact .inl trivial
  | serveWaiting item => exact .inl trivial
  | served => exact .inr (by simpa [Unswept, hw] using hu.2)
  | _ => exact absurd hu.2 (by simp [hw])

theorem doomed_step (hr : Reachable (machine P) x) (h : (machine P).Step x a y) (hd : Doomed p x) :
    Doomed p y := by
  obtain ⟨hlt, hd⟩ := hd
  refine ⟨step_nextCall hr h hlt, ?_⟩
  rcases hd with hnone | ⟨hrest, hp⟩ | ⟨hserving, hu⟩
  · exact .inl (step_calls_none hr h hlt hnone)
  · exact .inr (abandoned_step hr h hlt hrest hp)
  · have hu' := unswept_step hr hu h hserving
    rcases unswept_cases hu' with hserving' | hnone
    · exact .inr (.inr ⟨hserving', hu'⟩)
    · exact .inl hnone

theorem answered_doomed {r : Reply} {e : SendEnv} (hq : c.session = none) :
    (answered s p c r e).calls p = none ∨ Abandoned p (answered s p c r e) := by
  unfold answered
  cases c.longTerm with
  | true =>
      refine .inr ⟨List.mem_append_right _ (List.mem_singleton.2 rfl), fun d hd => ?_⟩
      have hd' : ((frames s (replyFrames s p r e ++ [.respond p r])).setCall p
          (c.setNextPoll (s.tick + c.ulPollIntervalTicks))).calls p = some d := hd
      rw [setCall_calls_self, Option.some.injEq] at hd'
      rw [← hd']
      exact hq
  | false => exact .inl (removed_calls_self _ p)

theorem answering_outcome (hr : Reachable (machine P) x) (h : (machine P).Step x (.worker env) y)
    {r : Reply} (hans : answering x = some (r, p)) : Resting y.worker ∧
      ∃ s c m, Soft x.srv s ∧ s.calls p = some c ∧
        y.srv.calls = (answered (s.withNet m) p c r env.reply).calls ∧
        y.srv.pxWsApiCall = (answered (s.withNet m) p c r env.reply).pxWsApiCall := by
  have hidle := answering_worker hans
  have hout := (worker_outcome hr h).1
  generalize y.srv = t at hout ⊢
  generalize y.worker = pc at hout ⊢
  cases hout with
  | turned hturn => simp [(turn_idle hturn).2.2] at hans
  | unanswered _ hnone => simp [hnone] at hans
  | @answered r' q d s m _ hans' _ hsoft hd =>
      rw [hans, Option.some.injEq, Prod.mk.injEq] at hans'
      obtain ⟨rfl, rfl⟩ := hans'
      exact ⟨trivial, s, d, m, hsoft, hd, rfl, rfl⟩
  | @broadcast r' q next d s m hw _ hsoft hd =>
      obtain ⟨rfl, rfl⟩ : r' = r ∧ q = p := by simpa [answering, hw] using hans
      exact ⟨trivial, s, d, m, hsoft, hd, rfl, rfl⟩
  | swept hserve => rcases hidle with ⟨hw, -⟩ | hw <;> simp [hw, serves] at hserve
  | kept hserve => rcases hidle with ⟨hw, -⟩ | hw <;> simp [hw, serves] at hserve
  | passed hw' => rcases hidle with ⟨hw, -⟩ | hw <;> simp [hw] at hw'
  | received hw' => rcases hidle with ⟨hw, -⟩ | hw <;> simp [hw] at hw'

/-- Whoever is answered after its completion is not answered again. -/
theorem doomed_start (hr : Reachable (machine P) x) (h : (machine P).Step x (.worker env) y)
    {r : Reply} (hans : answering x = some (r, p)) (hc : x.srv.calls p = some c)
    (hzero : c.ulCallPending = 0) : Doomed p y := by
  have hlt := (reachable_inv hr).sound.wf.nextCall p (by simp [hc])
  refine ⟨step_nextCall hr h hlt, ?_⟩
  obtain ⟨hrest, s, d, m, hsoft, hd, hcalls, hlist⟩ := answering_outcome hr h hans
  have hdead : d.session = none := by
    refine soft_dead hsoft (fun e he => ?_) d hd
    rw [hc, Option.some.injEq] at he
    exact he ▸ pending_zero hr hc hzero
  rw [Abandoned, hcalls, hlist]
  exact (answered_doomed hdead).imp id fun hab => .inl ⟨hrest, hab⟩

end Completed

section Invoked

theorem answering_step (hr : Reachable (machine P) x) {r : Reply} (h : answering x = some (r, p)) :
    ∃ (u : Server → Server) (pc : WorkerPc), (∀ s, (u s).calls = s.calls ∧ (u s).tick = s.tick) ∧
      ∀ env, workerStep x.srv x.worker env = (respond x.srv p r env).map (fun s => (u s, pc)) := by
  have hx := reachable_inv hr
  have hs := hx.sound.wf
  rcases answering_worker h with ⟨hw, hid, hpick⟩ | hw
  · refine ⟨fun s => s.handled r, .receive, fun _ => ⟨rfl, rfl⟩, fun env => ?_⟩
    simp only [hw, workerStep, hid, if_false, findFirst_id hs, hpick, ok_bind]
    cases respond x.srv p r env <;> rfl
  · have hpc := hx.pc
    rw [hw] at hpc
    have hnext := findNext_waiting hs hpc.2.2.1
      (fun _ _ hc => bCallFidMatch_eq (s := x.srv) hc r.msg.fid)
    refine ⟨id, .broadcast r ((after p x.srv.pxWsApiWaitingForResponse).find?
      (isTarget x.srv r.msg.fid)), fun _ => ⟨rfl, rfl⟩, fun env => ?_⟩
    simp only [hw, workerStep, hnext, ok_bind]
    cases respond x.srv p r env <;> rfl

theorem uninvoked (hr : Reachable (machine P) x)
    (h : (answerOf x (.worker env)).bind Answer.invocation = none) (acts : List HandlerAction) :
    workerStep x.srv x.worker { env with handler := acts } = workerStep x.srv x.worker env := by
  cases hans : answering x with
  | some z =>
      obtain ⟨r, p⟩ := z
      obtain ⟨c, hc⟩ := (reachable_inv hr).sound.wf.call_of_mem (.inr (answering_waiting hr hans))
      have hhandler : c.fHandler = none := by
        simpa [answerOf, hans, hc, Answer.invocation] using h
      obtain ⟨u, pc, -, hstep⟩ := answering_step hr hans
      have hquiet : ∀ env, invokeHandler x.srv p env = .ok x.srv := by
        intro env
        simp [invokeHandler, call_eq hc, ok_bind, hhandler]
      rw [hstep, hstep]
      simp only [respond, hquiet, ok_bind]
  | none =>
      cases hw : x.worker with
      | serveCalls item => cases item <;> rfl
      | serveWaiting item => cases item <;> rfl
      | forward item => cases item <;> rfl
      | taken r =>
          have hs := (reachable_inv hr).sound.wf
          by_cases hid : r.msg.id = 0
          · simp only [workerStep, if_pos hid]
          · have hpick : picked x.srv r.msg.id = none := by
              simpa [answering, hw, hid] using hans
            simp only [workerStep, if_neg hid, findFirst_id hs, hpick, ok_bind]
      | broadcast r it =>
          cases it with
          | none => rfl
          | some p => simp [answering, hw] at hans
      | _ => rfl

end Invoked

section Log

variable {l : List Answer}

structure Log (x : System) (l : List Answer) : Prop where
  accepted : ∀ e ∈ l, ∃ n json c, .accept e.call n json c ∈ x.srv.trace ∧ e.handler = c.fHandler
  longTerm : ∀ e ∈ l, ∀ c, x.srv.calls e.call = some c → c.longTerm = true
  last : ∀ p, (∀ e ∈ answersTo l p, e.pending ≠ 0) ∨ (Doomed p x ∧
    ∃ pre e, answersTo l p = pre ++ [e] ∧ e.pending = 0 ∧ ∀ i ∈ pre, i.pending ≠ 0)

theorem step_trace {e : Event} (hr : Reachable (machine P) x) (h : (machine P).Step x a y)
    (he : e ∈ x.srv.trace) : e ∈ y.srv.trace := by
  refine step_acts (I := fun s => e ∈ s.trace) (fun s t _ hact hi => ?_) hr h he
  obtain ⟨l, ht, -⟩ := act_trace hact
  exact ht ▸ List.mem_append_left l hi

theorem log_quiet (hr : Reachable (machine P) x) (h : (machine P).Step x a y) (hl : Log x l) :
    Log y l where
  accepted e he := by
    obtain ⟨n, json, c, hm, hh⟩ := hl.accepted e he
    exact ⟨n, json, c, step_trace hr h hm, hh⟩
  longTerm e he d hd := by
    obtain ⟨n, json, c, hm, -⟩ := hl.accepted e he
    have hlt := ((reachable_accepts hr).asks _ _ _ _ hm).1
    obtain ⟨c', hc', hev⟩ := step_evolves hr h hlt hd
    exact hev.longTerm.trans (hl.longTerm e he c' hc')
  last p := (hl.last p).imp_right fun hp => ⟨doomed_step hr h hp.1, hp.2⟩

theorem answersTo_snoc (l : List Answer) (e : Answer) : answersTo (l ++ [e]) e.call =
    answersTo l e.call ++ [e] := by
  simp [answersTo]

theorem answersTo_snoc_ne (l : List Answer) {e : Answer} (h : p ≠ e.call) :
    answersTo (l ++ [e]) p = answersTo l p := by
  simp [answersTo, Ne.symm h]

theorem mem_answersTo {e : Answer} : e ∈ answersTo l p ↔ e ∈ l ∧ e.call = p := by
  simp [answersTo]

theorem answerOf_eq_some {e : Answer} (h : answerOf x a = some e) : ∃ env r c, a = .worker env ∧
    answering x = some (r, e.call) ∧ x.srv.calls e.call = some c ∧
    e = ⟨e.call, c.fHandler, c.ulCallPending, r.msg⟩ := by
  cases a with
  | worker env =>
      obtain ⟨t, ht, hm⟩ := Option.bind_eq_some_iff.1 h
      obtain ⟨c, hc, rfl⟩ := Option.map_eq_some_iff.1 hm
      exact ⟨env, t.1, c, rfl, ht, hc, rfl⟩
  | _ => cases h

section Answer

variable {e : Answer}

theorem answer_accepted (hr : Reachable (machine P) x) (h : (machine P).Step x a y)
    (he : answerOf x a = some e) :
    ∃ n json c, .accept e.call n json c ∈ y.srv.trace ∧ e.handler = c.fHandler := by
  obtain ⟨env, r, c, -, -, hc, heq⟩ := answerOf_eq_some he
  obtain ⟨n, json, c₀, hm, hev⟩ := (reachable_accepts hr).born _ c hc
  refine ⟨n, json, c₀, step_trace hr h hm, ?_⟩
  rw [heq]
  exact hev.handler

theorem answer_longTerm (hr : Reachable (machine P) x) (h : (machine P).Step x a y)
    (he : answerOf x a = some e) (hd : y.srv.calls e.call = some d) : d.longTerm = true := by
  obtain ⟨env, r, c, rfl, hans, hc, -⟩ := answerOf_eq_some he
  have hlt := (reachable_inv hr).sound.wf.nextCall e.call (by simp [hc])
  obtain ⟨c', hc', hev⟩ := step_evolves hr h hlt hd
  obtain rfl : c = c' := Option.some.inj (hc.symm.trans hc')
  rw [hev.longTerm]
  by_contra hone
  have hfree := (step_releases hr h (by simp [hc])).2
    ⟨⟨env, rfl⟩, .answered hans hc (eq_false_of_ne_true hone)⟩
  rw [hd] at hfree
  cases hfree

theorem answer_last (hr : Reachable (machine P) x) (h : (machine P).Step x a y) (hl : Log x l)
    (he : answerOf x a = some e) : (∀ i ∈ answersTo l e.call ++ [e], i.pending ≠ 0) ∨
      (Doomed e.call y ∧ ∃ pre i, answersTo l e.call ++ [e] = pre ++ [i] ∧ i.pending = 0 ∧
        ∀ j ∈ pre, j.pending ≠ 0) := by
  obtain ⟨env, r, c, rfl, hans, hc, heq⟩ := answerOf_eq_some he
  have hpending : e.pending = c.ulCallPending := by rw [heq]
  rcases hl.last e.call with hpre | ⟨hdoomed, -⟩
  · by_cases hzero : e.pending = 0
    · exact .inr ⟨doomed_start hr h hans hc (hpending.symm.trans hzero),
        answersTo l e.call, e, rfl, hzero, hpre⟩
    · refine .inl fun i hi => ?_
      rcases List.mem_append.1 hi with hi | hi
      · exact hpre i hi
      · exact List.mem_singleton.1 hi ▸ hzero
  · exact absurd hans (doomed_not_answering hr hdoomed)

theorem log_answer (hr : Reachable (machine P) x) (h : (machine P).Step x a y) (hl : Log x l)
    (he : answerOf x a = some e) : Log y (l ++ [e]) := by
  have hq := log_quiet hr h hl
  refine ⟨fun i hi => ?_, fun i hi d hd => ?_, fun p => ?_⟩
  · rcases List.mem_append.1 hi with hi | hi
    · exact hq.accepted i hi
    · exact List.mem_singleton.1 hi ▸ answer_accepted hr h he
  · rcases List.mem_append.1 hi with hi | hi
    · exact hq.longTerm i hi d hd
    · rw [List.mem_singleton.1 hi] at hd
      exact answer_longTerm hr h he hd
  · by_cases hp : p = e.call
    · rw [hp, answersTo_snoc]
      exact answer_last hr h hl he
    · rw [answersTo_snoc_ne l hp]
      exact hq.last p

end Answer

theorem log_step (hr : Reachable (machine P) x) (h : (machine P).Step x a y) (hl : Log x l) :
    Log y (l ++ (answerOf x a).toList) := by
  cases he : answerOf x a with
  | none => simpa using log_quiet hr h hl
  | some e => exact log_answer hr h hl he

theorem reachable_log {z : System × List Answer} (h : Reachable (logged P) z) : Log z.1 z.2 := by
  refine h.carry_invariant (I := Log) (fun s _ => ⟨?_, ?_, ?_⟩)
    (fun _ _ _ _ hr hi hstep => log_step hr hstep hi)
  · simp
  · simp
  · exact fun p => .inl (by simp [answersTo])

end Log

section Contract

variable {l : List Answer} {h : HandlerId} {json : Json}

theorem invocations_eq (hh : ∀ e ∈ answersTo l p, e.handler = some h) :
    invocations l p = (answersTo l p).map (fun e => ⟨h, e.pending, e.msg.data, e.msg.len⟩) := by
  rw [invocations, ← List.filterMap_eq_map]
  exact List.filterMap_congr fun e he => by simp [Answer.invocation, hh e he]

theorem contract_iff (hl : Log x l) (hh : ∀ e ∈ answersTo l p, e.handler = some h) :
    Contract P json h (invocations l p) ↔
      (∃ e ∈ answersTo l p, e.pending ≠ 0 ∧ Repeats P json e.msg) ∧
      ∃ e ∈ answersTo l p, e.pending = 0 := by
  rw [invocations_eq hh]
  constructor
  · rintro ⟨pre, last, heq, -, hzero, hpre, i, hi, -, hdata, hlen⟩
    have himage : ∀ j ∈ pre ++ [last], ∃ e ∈ answersTo l p,
        (⟨h, e.pending, e.msg.data, e.msg.len⟩ : Invocation) = j := by
      rw [← heq]
      exact fun j hj => List.mem_map.1 hj
    obtain ⟨e, he, rfl⟩ := himage i (List.mem_append_left _ hi)
    obtain ⟨e₀, he₀, rfl⟩ := himage last (List.mem_append_right _ (List.mem_singleton.2 rfl))
    exact ⟨⟨e, he, hpre _ hi, hdata, hlen⟩, e₀, he₀, hzero⟩
  · rintro ⟨⟨e, he, hpend, hdata, hlen⟩, e₀, he₀, hzero⟩
    rcases hl.last p with hall | ⟨-, pre, last, heq, hlast, hpre⟩
    · exact absurd hzero (hall e₀ he₀)
    · rw [heq] at he ⊢
      have hin : e ∈ pre := by
        rcases List.mem_append.1 he with he | he
        · exact he
        · exact absurd hlast (List.mem_singleton.1 he ▸ hpend)
      rw [List.map_append]
      refine ⟨_, _, rfl, rfl, hlast, ?_, _, List.mem_map_of_mem hin, rfl, hdata, hlen⟩
      rintro i hi
      obtain ⟨e', he', rfl⟩ := List.mem_map.1 hi
      exact hpre e' he'

theorem Log.handler_eq (hl : Log x l) (ha : Accepts P x.srv) {n : ConnPtr}
    (hm : .accept p n json c ∈ x.srv.trace) (hc : c.fHandler = some h) :
    ∀ e ∈ answersTo l p, e.handler = some h := by
  intro e he
  obtain ⟨hin, rfl⟩ := mem_answersTo.1 he
  obtain ⟨n', json', c', hm', hh⟩ := hl.accepted e hin
  cases ha.increasing.eq hm hm' rfl rfl
  rw [hh, hc]

theorem releases_isSome (h : Releases x p) : (x.srv.calls p).isSome := by
  rcases h with ⟨-, hc, -⟩ | ⟨-, -, hkey, heq⟩ | ⟨-, hc, -⟩ | ⟨-, hc, -⟩ | ⟨-, hc, -⟩
  · simp [hc]
  · rw [← heq, keyOf, Option.isSome_map] at hkey
    obtain ⟨z, hz⟩ := Option.isSome_iff_exists.1 hkey
    simp [(target_eq_some_iff.1 hz).1]
  · simp [hc]
  · simp [hc]
  · simp [hc]

/-- Whether the step that releases a call leaves the contract of its handler met
is settled before it: an answer in that step is the only one of its call. -/
theorem released_contract {z w : System × List Answer} {n : ConnPtr}
    (hr : Reachable (logged P) z) (hstep : (logged P).Step z a w)
    (hm : .accept p n json c ∈ z.1.srv.trace) (hc : c.fHandler = some h)
    (hrel : Releases z.1 p) : Contract P json h (invocations w.2 p) ↔
      (∃ e ∈ answersTo z.2 p, e.pending ≠ 0 ∧ Repeats P json e.msg) ∧
      ∃ e ∈ answersTo z.2 p, e.pending = 0 := by
  obtain ⟨hxy, hw⟩ := carry_step_iff.1 hstep
  have hl := reachable_log hr
  have hl' := reachable_log (hr.step hstep)
  have hlive := releases_isSome hrel
  by_cases hans : ∃ e, answerOf z.1 a = some e ∧ e.call = p
  · obtain ⟨e, he, rfl⟩ := hans
    obtain ⟨env, r, d, -, hr', hd, -⟩ := answerOf_eq_some he
    obtain ⟨-, d', hd', hone⟩ := (releases_answering hr').1 hrel
    have hnone : answersTo z.2 e.call = [] := by
      rw [List.eq_nil_iff_forall_not_mem]
      intro e' he'
      obtain ⟨hin, heq⟩ := mem_answersTo.1 he'
      have hlong := hl.longTerm e' hin d' (heq ▸ hd')
      simp [hone] at hlong
    have hcons : answersTo w.2 e.call = [e] := by
      rw [hw, he, Option.toList_some, answersTo_snoc, hnone, List.nil_append]
    rw [contract_iff hl' (hl'.handler_eq (reachable_accepts (hr.step hstep).carried)
      (step_trace hr.carried hxy hm) hc), hcons, hnone]
    simp only [List.mem_singleton, List.not_mem_nil]
    grind
  · have hsame : answersTo w.2 p = answersTo z.2 p := by
      rw [hw]
      cases he : answerOf z.1 a with
      | none => simp
      | some e =>
          exact answersTo_snoc_ne _ (fun hp => hans ⟨e, he, hp.symm⟩)
    rw [invocations, hsame]
    exact contract_iff hl (hl.handler_eq (reachable_accepts hr.carried) hm hc)

end Contract

section Inputs

variable {l : List Answer} {i j : List Input} {json : Json}

/-- The answers are the messages of the inputs, with the pending counts that the
completions before them have left. -/
structure Heard (l : List Answer) (i : List Input) : Prop where
  answers : ∀ e ∈ l, ∃ k, i[k]? = some (.message e.call e.msg) ∧
    (e.pending = 0 ↔ .completion e.call ∈ i.take k)
  messages : ∀ k p m, i[k]? = some (.message p m) →
    ∃ e ∈ l, e.call = p ∧ e.msg = m ∧ (e.pending = 0 ↔ .completion p ∈ i.take k)

theorem Heard.answers_append (h : Heard l i) (j : List Input) : ∀ e ∈ l, ∃ k,
    (i ++ j)[k]? = some (.message e.call e.msg) ∧
      (e.pending = 0 ↔ .completion e.call ∈ (i ++ j).take k) := by
  intro e he
  obtain ⟨k, hk, hpend⟩ := h.answers e he
  obtain ⟨hlt, -⟩ := List.getElem?_eq_some_iff.1 hk
  refine ⟨k, ?_, ?_⟩
  · rw [List.getElem?_append_left hlt]
    exact hk
  · rw [List.take_append_of_le_length (Nat.le_of_lt hlt)]
    exact hpend

theorem Heard.append (h : Heard l i) (hj : ∀ p m, .message p m ∉ j) : Heard l (i ++ j) where
  answers := h.answers_append j
  messages k p m hk := by
    by_cases hlt : k < i.length
    · rw [List.getElem?_append_left hlt] at hk
      rw [List.take_append_of_le_length (Nat.le_of_lt hlt)]
      exact h.messages k p m hk
    · rw [List.getElem?_append_right (Nat.le_of_not_lt hlt)] at hk
      exact absurd (List.mem_of_getElem? hk) (hj p m)

theorem Heard.message (h : Heard l i) {e : Answer} (he : e.pending = 0 ↔ .completion e.call ∈ i) :
    Heard (l ++ [e]) (i ++ [.message e.call e.msg]) where
  answers e' he' := by
    rcases List.mem_append.1 he' with he' | he'
    · exact h.answers_append _ e' he'
    · rw [List.mem_singleton.1 he']
      exact ⟨i.length, List.getElem?_concat_length, by rwa [List.take_left]⟩
  messages k p m hk := by
    by_cases hlt : k < i.length
    · rw [List.getElem?_append_left hlt] at hk
      rw [List.take_append_of_le_length (Nat.le_of_lt hlt)]
      obtain ⟨e', he', hrest⟩ := h.messages k p m hk
      exact ⟨e', List.mem_append_left _ he', hrest⟩
    · obtain ⟨hle, -⟩ := List.getElem?_eq_some_iff.1 hk
      rw [List.length_append, List.length_singleton] at hle
      obtain rfl : k = i.length := by omega
      rw [List.getElem?_concat_length, Option.some.injEq, Input.message.injEq] at hk
      obtain ⟨rfl, rfl⟩ := hk
      exact ⟨e, List.mem_append_right _ (List.mem_singleton.2 rfl), rfl, rfl, by rwa [List.take_left]⟩

theorem messagesOf_eq (hr : Reachable (machine P) x) (a : Label) :
    messagesOf x a = (answerOf x a).toList.map (fun e => .message e.call e.msg) := by
  cases a with
  | worker env =>
    cases hans : answering x with
    | none => simp [messagesOf, answerOf, hans]
    | some r =>
      obtain ⟨c, hc⟩ := (reachable_inv hr).sound.wf.call_of_mem (.inr (answering_waiting hr hans))
      simp [messagesOf, answerOf, hans, hc]
  | _ => rfl

theorem heard_step (hr : Reachable (machine P) x) (hh : Heard l i) (hi : Settled i x.srv) (a : Label) :
    Heard (l ++ (answerOf x a).toList) (i ++ inputsOf x a) := by
  have hcompletions : ∀ p m, .message p m ∉ (completions x a).map Input.completion := by
    intro p m hm
    obtain ⟨q, -, hq⟩ := List.mem_map.1 hm
    cases hq
  rw [inputsOf, messagesOf_eq hr, ← List.append_assoc]
  apply Heard.append _ hcompletions
  cases he : answerOf x a with
  | none => simpa using hh
  | some e =>
    obtain ⟨env, r, c, -, -, hc, heq⟩ := answerOf_eq_some he
    have hpending : e.pending = c.ulCallPending := by rw [heq]
    exact hh.message (by rw [hpending, hi.pending_iff hc])

theorem reachable_heard {z : (System × List Answer) × List Input} (h : Reachable (overheard P) z) :
    Heard z.1.2 z.2 ∧ Settled z.2 z.1.1.srv := by
  refine h.carry_invariant (I := fun z i => Heard z.2 i ∧ Settled i z.1.srv) ?_ ?_
  · rintro ⟨x, l⟩ ⟨⟨depth, rfl⟩, rfl⟩
    refine ⟨⟨fun e he => absurd he List.not_mem_nil, fun k p m hk => ?_⟩, init_settled depth⟩
    cases hk
  · rintro z a w i hr ⟨hh, hi⟩ hstep
    obtain ⟨hxy, hw⟩ := carry_step_iff.1 hstep
    rw [hw]
    exact ⟨heard_step hr.carried hh hi a, settled_step hr.carried hxy hi⟩

theorem finished_iff (h : Heard l i) : Finished P json i p ↔
    (∃ e ∈ answersTo l p, e.pending ≠ 0 ∧ Repeats P json e.msg) ∧
      ∃ e ∈ answersTo l p, e.pending = 0 := by
  constructor
  · rintro ⟨⟨k, m, hk, hfresh, hrepeats⟩, k', m', hk', hdone⟩
    obtain ⟨e, he, hcall, rfl, hpend⟩ := h.messages k p m hk
    obtain ⟨e', he', hcall', -, hpend'⟩ := h.messages k' p m' hk'
    exact ⟨⟨e, mem_answersTo.2 ⟨he, hcall⟩, fun hzero => hfresh (hpend.1 hzero), hrepeats⟩,
      e', mem_answersTo.2 ⟨he', hcall'⟩, hpend'.2 hdone⟩
  · rintro ⟨⟨e, he, hfresh, hrepeats⟩, e', he', hzero⟩
    obtain ⟨hin, rfl⟩ := mem_answersTo.1 he
    obtain ⟨hin', hcall⟩ := mem_answersTo.1 he'
    obtain ⟨k, hk, hpend⟩ := h.answers e hin
    obtain ⟨k', hk', hpend'⟩ := h.answers e' hin'
    rw [hcall] at hk' hpend'
    exact ⟨⟨k, e.msg, hk, fun hm => hfresh (hpend.2 hm), hrepeats⟩, k', e'.msg, hk', hpend'.1 hzero⟩

theorem honoured_iff_finished {z w : (System × List Answer) × List Input}
    (hr : Reachable (overheard P) z) (hstep : (overheard P).Step z a w) :
    HonouredStep P z.1 a w.1 ↔ FinishedStep P z a w := by
  have hlogged := (carry_step_iff.1 hstep).1
  have hxy := (carry_step_iff.1 hlogged).1
  have hheard := (reachable_heard hr).1
  constructor
  · rintro hall p n json c h hm hc ⟨env, ha⟩ hrel
    have hlive := releases_isSome hrel
    have hfree := (step_releases hr.carried.carried hxy hlive).2 ⟨⟨env, ha⟩, hrel⟩
    rw [finished_iff hheard]
    exact (released_contract hr.carried hlogged hm hc hrel).1 (hall p n json c h hm hc hlive hfree)
  · rintro hall p n json c h hm hc hlive hfree
    obtain ⟨⟨env, ha⟩, hrel⟩ := (step_releases hr.carried.carried hxy hlive).1 hfree
    have hfinished := hall p n json c h hm hc ⟨env, ha⟩ hrel
    rw [finished_iff hheard] at hfinished
    exact (released_contract hr.carried hlogged hm hc hrel).2 hfinished

/-- In exactly those runs in which every call with a handler is finished when it
is released, each one has met its contract when it is released. -/
theorem honoured_along {z w : (System × List Answer) × List Input} {as : List Label}
    (hr : Reachable (overheard P) z) :
    Along (overheard P) (fun z a w => HonouredStep P z.1 a w.1) z as w ↔
      Along (overheard P) (FinishedStep P) z as w :=
  Along.congr hr (fun _ _ _ hz hstep => honoured_iff_finished hz hstep)

end Inputs

section Samples

def releasing (x : System) (p : CallPtr) : Bool :=
  (serves x.worker).any (fun q => q == p && (x.srv.calls q).any (fun c => c.session.isNone)) ||
  (match x.worker with
    | .forward (some q) => (x.srv.calls q).any (fun c => c.toDelete ||
        (q == p && !parked x.srv c && (x.srv.wsGetFidQueue c.ulFid).isNone))
    | _ => false) ||
  (answering x).any (fun t => t.2 == p && (x.srv.calls p).any (fun c => !c.longTerm))

theorem releasing_of (h : Releases x p) : releasing x p = true := by
  rcases h with ⟨h, hc, hq⟩ | ⟨h, ⟨c, hc, hdel⟩, -⟩ | ⟨h, hc, hdel⟩ | ⟨h, hc, -, hpark, hq⟩ |
    ⟨h, hc, hl⟩
  · simp [releasing, h, hc, hq]
  · simp [releasing, h, hc, hdel]
  · simp [releasing, h, hc, hdel]
  · simp [releasing, h, hc, hpark, hq]
  · simp [releasing, h, hc, hl]

def heardAt (i : List Input) (p : CallPtr) (test : WebapiMsg → Bool → Bool) : Bool :=
  (List.range i.length).any (fun k => match i[k]? with
    | some (.message q m) => q == p && test m (((i.take k).filterMap Input.completed).contains p)
    | _ => false)

theorem of_heardAt {i : List Input} {test : WebapiMsg → Bool → Bool} (h : heardAt i p test = true) :
    ∃ k m b, i[k]? = some (.message p m) ∧ (b = true ↔ .completion p ∈ i.take k) ∧ test m b = true := by
  obtain ⟨k, -, hk⟩ := List.any_eq_true.1 h
  split at hk
  next q m hm =>
    rw [Bool.and_eq_true, beq_iff_eq] at hk
    obtain ⟨rfl, htest⟩ := hk
    exact ⟨k, m, _, hm, by rw [List.contains_iff_mem, mem_completed], htest⟩
  next => cases hk

def finishing (P : Platform) (z : (System × List Answer) × List Input) : Label → Bool
  | .worker _ => z.1.1.srv.trace.all fun
    | .accept p _ json c => c.fHandler.isNone || !releasing z.1.1 p ||
        (heardAt z.2 p (fun m done => !done && m.data == frameArg P true json &&
          m.len == argLength P json) && heardAt z.2 p (fun _ done => done))
    | _ => true
  | _ => true

theorem finishedStep_of {z w : (System × List Answer) × List Input} (h : finishing P z a = true) :
    FinishedStep P z a w := by
  rintro p n json c hd hm hc ⟨env, rfl⟩ hrel
  have hboth := List.all_eq_true.1 h _ hm
  simp only [hc, releasing_of hrel, Option.isNone_some, Bool.not_true, Bool.false_or,
    Bool.and_eq_true] at hboth
  obtain ⟨k, m, b, hk, hb, htest⟩ := of_heardAt hboth.1
  obtain ⟨k', m', b', hk', hb', hdone⟩ := of_heardAt hboth.2
  simp only [Bool.and_eq_true, Bool.not_eq_true', beq_iff_eq] at htest
  refine ⟨⟨k, m, hk, fun hmem => ?_, htest.1.2, htest.2⟩, k', m', hk', hb'.1 hdone⟩
  rw [hb.2 hmem] at htest
  exact absurd htest.1.1 (by decide)

def listeners (flags : Nat) : List Label :=
  [.register (some 7) 0x1013 0 true true, .registerQueue 0x1013 (some 0) true true,
    .connect 1 true] ++ request 0 (0x1013, flags, 5) ++ request 0 (0x1013, flags, 6)

def publish : List Label := [.periphTake 0, .periphPublish 0 none]

def cleanup : List Label :=
  listeners 4 ++ work 10 ++ publish ++ work 23 ++ publish ++ work 9 ++
  [.worker { okEnv with handler := [.complete 1] }] ++ work 6

def listening : Platform := platform [(0x1013, 4, 5), (0x1013, 4, 6), (0x1013, 0, 5), (0x1013, 0, 6)]

theorem honoured_cleanup : ∃ w, Along (overheard listening)
      (fun z a w => HonouredStep listening z.1 a w.1) ((initSystem (fun _ => 10), []), []) cleanup w ∧
    w.1.1.srv.calls 1 = none ∧ invocations w.1.2 1 = [⟨7, 1, none, 0⟩, ⟨7, 0, none, 0⟩] := by
  have h : (overheard listening).check (finishing listening)
      (fun w => (w.1.1.srv.calls 1).isNone &&
        invocations w.1.2 1 == [⟨7, 1, none, 0⟩, ⟨7, 0, none, 0⟩])
      ((initSystem (fun _ => 10), []), []) cleanup = true := by decide +kernel
  obtain ⟨w, hrun, hw⟩ := exists_of_check h
  simp only [Bool.and_eq_true, Option.isNone_iff_eq_none, beq_iff_eq] at hw
  exact ⟨w, (honoured_along (.init ⟨⟨⟨_, rfl⟩, rfl⟩, rfl⟩)).2 (hrun.imp fun _ _ _ => finishedStep_of),
    hw.1, hw.2⟩

/-- The call is released with the answer to it, and its handler is never told. -/
theorem answered_uncleaned : ∃ z w, Reachable (logged listening) z ∧
    (logged listening).Step z (.worker okEnv) w ∧ ¬ HonouredStep listening z (.worker okEnv) w := by
  have h : (logged listening).reaches (initSystem (fun _ => 10), [])
      (listeners 0 ++ work 10 ++ [.periphTake 0, .periphAnswer 0 none] ++ work 8) (fun z =>
        z.1.srv.trace.any (fun
          | .accept p _ _ c => p == 0 && c.fHandler == some 7
          | _ => false) && (z.1.srv.calls 0).isSome &&
        (logged listening).reaches z [.worker okEnv] (fun w => (w.1.srv.calls 0).isNone &&
          invocations w.2 0 == [⟨7, 1, none, 0⟩])) = true := by decide +kernel
  obtain ⟨z, hrun, hz⟩ := exists_of_reaches h
  simp only [Bool.and_eq_true] at hz
  obtain ⟨⟨htrace, hlive⟩, hlast⟩ := hz
  obtain ⟨w, hstep, hw⟩ := exists_step_of_reaches hlast
  simp only [Bool.and_eq_true, Option.isNone_iff_eq_none, beq_iff_eq] at hw
  obtain ⟨e, he, hkind⟩ := List.any_eq_true.1 htrace
  refine ⟨z, w, ⟨_, _, ⟨⟨_, rfl⟩, rfl⟩, hrun⟩, hstep, fun hall => ?_⟩
  cases e with
  | accept p n json c =>
      simp only [Bool.and_eq_true, beq_iff_eq] at hkind
      obtain ⟨rfl, hc⟩ := hkind
      obtain ⟨pre, last, heq, -, hzero, -⟩ := hall 0 n json c 7 he hc hlive hw.1
      rw [hw.2] at heq
      cases pre with
      | nil =>
          cases heq
          exact absurd hzero (by decide)
      | cons i pre => simp at heq
  | _ => cases hkind

end Samples

end WirelessGateway.Handlers
