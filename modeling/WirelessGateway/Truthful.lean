import WirelessGateway.Outcomes

namespace WirelessGateway.Truthful

open CJson WirelessGateway.Types Memory WsServer Transport Worker Tasks Sends WellFormed SoftSteps
open Lifecycle Operations Forwarding ForwardPass Steps Outcomes Lib.Linked Lib.Runs

variable {P : Platform} {s t u : Server} {p r : CallPtr} {c d : ApiCall} {env : WorkerEnv}
  {x y : System} {a : Label} {l : List Event} {sta : UInt32}

def statusOf : Event → Option (CallPtr × UInt32 × Bool)
  | .queue .worker p _ _ _ (.status sta) sent => some (p, sta, sent)
  | _ => none

def statuses (l : List Event) : List (CallPtr × UInt32 × Bool) := l.filterMap statusOf

def added (s t : Server) : List Event := t.trace.drop s.trace.length

def Puts (s t : Server) (p : CallPtr) (m : WebapiMsg) (q : QueueId) : Prop :=
  (t.periph q).queue = (s.periph q).queue ++ [⟨m, p⟩]

structure Tries (x : System) (a : Label) (p : CallPtr) (c : ApiCall) (env : WorkerEnv) : Prop where
  step : a = .worker env
  item : x.worker = .forward (some p)
  live : ∃ k, target x.srv p = some (c, k)
  keeps : c.toDelete = false
  due : parked x.srv c = false

/-- The statuses of the worker tell the truth about the step. -/
structure TruthfulStep (x : System) (a : Label) (y : System) : Prop where
  delivered : ∀ p c sent, x.srv.calls p = some c → c.toDelete = false →
    (p, apiCallStatusDelivered, sent) ∈ statuses (added x.srv y.srv) →
    ∃ q, x.srv.wsGetFidQueue c.ulFid = some q ∧ Puts x.srv y.srv p (requestOf c) q
  busy : ∀ p sent, (p, apiCallStatusBusy, sent) ∈ statuses (added x.srv y.srv) →
    ∀ m q, ¬ Puts x.srv y.srv p m q
  reported : ∀ p c env, Tries x a p c env →
    (∃ q, x.srv.wsGetFidQueue c.ulFid = some q ∧ Puts x.srv y.srv p (requestOf c) q) ∨
    ∃ sta, sta ≠ apiCallStatusDelivered ∧ (p, sta, true) ∈ statuses (added x.srv y.srv)

/-- The request can be allocated, and a request that finds no room or no queue
is reported. -/
def reports (s : Server) (p : CallPtr) (c : ApiCall) (env : WorkerEnv) : Bool :=
  match s.wsGetFidQueue c.ulFid with
  | none => env.status.alloc && env.status.sent p
  | some q => !stalls c env && (decide ((s.periph q).queue.length < (s.periph q).depth) ||
      env.busy.alloc && env.busy.sent p)

def ReportingStep (x : System) (a : Label) (_ : System) : Prop :=
  ∀ p c env, Tries x a p c env → reports x.srv p c env = true

theorem added_eq (h : t.trace = s.trace ++ l) : added s t = l := by simp [added, h]

@[simp] theorem statuses_append (l k : List Event) : statuses (l ++ k) = statuses l ++ statuses k :=
  List.filterMap_append

def tell (s : Server) (p : CallPtr) (sta : UInt32) (env : SendEnv) : List (CallPtr × UInt32 × Bool) :=
  if (target s p).isSome && env.alloc then [(p, sta, env.sent p)] else []

theorem mem_tell {v : CallPtr × UInt32 × Bool} {e : SendEnv} (h : v ∈ tell s p sta e) :
    v = (p, sta, e.sent p) := by
  unfold tell at h
  split_ifs at h
  · exact List.mem_singleton.1 h
  · cases h

theorem statuses_attempts (s : Server) (p : CallPtr) (sta : UInt32) (env : SendEnv) :
    statuses (attempts s .worker p (.status sta) env) = tell s p sta env := by
  unfold attempts tell
  cases target s p with
  | none => rfl
  | some z => cases env.alloc <;> rfl

section Aside

structure Aside (s t : Server) : Prop where
  trace : ∃ l, t.trace = s.trace ++ l ∧
    ∀ v ∈ statuses l, ∃ c, s.calls v.1 = some c ∧ c.toDelete = true
  queues : ∀ q, (t.periph q).queue.length ≤ (s.periph q).queue.length

theorem Aside.soft (h : Soft s t) : Aside s t := by
  obtain ⟨l, ht, hl⟩ := h.trace
  refine ⟨⟨l, ht, ?_⟩, fun q => by rw [h.periph]⟩
  intro v hv
  obtain ⟨e, he, hev⟩ := List.mem_filterMap.1 hv
  have hsoft := hl e he
  unfold statusOf at hev
  split at hev
  next q _ _ _ sta sent =>
    cases hev
    obtain ⟨c, k, hc, -, -, -, hdel, -⟩ := hsoft
    exact ⟨c, (target_eq_some_iff.1 hc).1, hdel rfl⟩
  next => cases hev

theorem Aside.after (h : Aside s t) (hu : u.trace = t.trace ++ l) (hl : statuses l = [])
    (hq : ∀ q, (u.periph q).queue.length ≤ (t.periph q).queue.length) : Aside s u := by
  obtain ⟨⟨k, ht, hk⟩, hqueues⟩ := h
  refine ⟨⟨k ++ l, by rw [hu, ht, List.append_assoc], ?_⟩, fun q => (hq q).trans (hqueues q)⟩
  rwa [statuses_append, hl, List.append_nil]

theorem not_puts {m : WebapiMsg} {q : QueueId}
    (h : (t.periph q).queue.length ≤ (s.periph q).queue.length) : ¬ Puts s t p m q := by
  intro hput
  rw [hput, List.length_append] at h
  exact absurd h (by simp)

theorem Aside.truthful (h : Aside x.srv y.srv) (hnot : ∀ p c env, ¬ Tries x a p c env) :
    TruthfulStep x a y := by
  obtain ⟨l, ht, hl⟩ := h.trace
  refine ⟨fun p c sent hc hdel hmem => ?_, fun p sent _ m q => not_puts (h.queues q),
    fun p c env htry => absurd htry (hnot p c env)⟩
  rw [added_eq ht] at hmem
  obtain ⟨d, hd, hdd⟩ := hl _ hmem
  rw [hc, Option.some.injEq] at hd
  rw [hd, hdd] at hdel
  cases hdel

theorem Aside.quiet (h : Aside s t) (hu : u.trace = t.trace)
    (hq : ∀ q, (u.periph q).queue.length ≤ (t.periph q).queue.length) : Aside s u :=
  h.after (l := []) (by simp [hu]) rfl hq

theorem setPeriph_queue {q : QueueId} {d : Periph} (h : d.queue.length ≤ (s.periph q).queue.length)
    (q' : QueueId) : ((s.setPeriph q d).periph q').queue.length ≤ (s.periph q').queue.length := by
  by_cases hq : q' = q
  · subst hq
    simpa [Server.setPeriph] using h
  · simp [Server.setPeriph, hq]

theorem Aside.outer {G : Guard} (h : Aside s t) (ho : Outer P G t u) : Aside s u := by
  cases ho with
  | same => exact h
  | @connect fd alloc => cases alloc <;> exact h.after (l := [_]) rfl rfl (fun _ => Nat.le_refl _)
  | @disconnect conn k =>
      cases k.userData <;> exact h.after (l := [_]) rfl rfl (fun _ => Nat.le_refl _)
  | accept => exact h.after (l := [_]) rfl rfl (fun _ => Nat.le_refl _)
  | @reject conn evs _ hev =>
      refine h.after (l := evs ++ [.free t.nextCall]) (by simp [rejected]) ?_ (fun _ => Nat.le_refl _)
      rw [statuses_append, List.append_eq_nil_iff]
      refine ⟨List.filterMap_eq_nil_iff.2 fun e he => ?_, rfl⟩
      obtain ⟨_, _, _, _, rfl⟩ := hev e he
      rfl
  | take _ hr => exact h.quiet rfl (setPeriph_queue (by simp [hr]))
  | post => exact h.quiet rfl (setPeriph_queue (Nat.le_refl _))
  | drop => exact h.quiet rfl (setPeriph_queue (Nat.le_refl _))

theorem Aside.refl (s : Server) : Aside s s := .soft (.refl s)

theorem statuses_replyFrames (s : Server) (p : CallPtr) (r : Reply) (env : SendEnv) :
    statuses (replyFrames s p r env) = [] := by
  refine List.filterMap_eq_nil_iff.2 fun e he => ?_
  obtain ⟨_, _, _, rfl⟩ := mem_replyFrames he
  rfl

theorem Aside.answered {r : Reply} {e : SendEnv} (h : Aside s t) : Aside s (answered t p c r e) := by
  refine h.after (answered_trace t p c r e) ?_ (fun q => ?_)
  · rw [statuses_append, statuses_replyFrames]
    cases c.longTerm <;> rfl
  · rw [(answered_messages t p c r e).periph]

theorem statuses_free (ps : List CallPtr) : statuses (ps.map .free) = [] :=
  List.filterMap_eq_nil_iff.2 fun e he => by
    obtain ⟨p, -, rfl⟩ := List.mem_map.1 he
    rfl

theorem deleted_aside (hs : WF s) (hc : s.calls p = some c) (hdel : c.toDelete = true)
    (e : SendEnv) : Aside s (deleted s p c e) := by
  refine ⟨?_, fun q => by rw [deleted_periph]⟩
  cases ht : target s p with
  | none =>
      refine ⟨[.free p], ?_, by simp [statuses, statusOf]⟩
      simp [deleted, ht, attempts, frames, removed, Server.log, Server.unlink]
  | some z =>
      obtain ⟨c', k⟩ := z
      obtain rfl : c = c' := Option.some.inj (hc.symm.trans (target_eq_some_iff.1 ht).1)
      refine ⟨_, deleted_trace hs ht, fun v hv => ?_⟩
      rw [statuses_append, statuses_append, statuses_attempts, statuses_free] at hv
      have htell : v ∈ tell s p apiCallStatusDelivered e := by simpa [statuses, statusOf] using hv
      rw [mem_tell htell]
      exact ⟨c, hc, hdel⟩

end Aside

section Attempt

/-- The statuses that come of an attempt to forward a call. -/
def verdict (s : Server) (p : CallPtr) (c : ApiCall) (env : WorkerEnv) :
    List (CallPtr × UInt32 × Bool) :=
  match s.wsGetFidQueue c.ulFid with
  | none => tell s p apiCallStatusInvalid env.status
  | some q =>
    if !stalls c env && decide ((s.periph q).depth ≤ (s.periph q).queue.length) then
      tell s p apiCallStatusBusy env.busy
    else if c.isNew then tell s p apiCallStatusDelivered env.status
    else []

theorem statuses_told {d : ApiCall} (ht : t.trace = s.trace ++ l) (hd : t.calls p = some d)
    (e : SendEnv) : statuses (added s (told t p e)) =
      statuses l ++ if d.isNew then tell t p apiCallStatusDelivered e else [] := by
  have htrace := told_trace hd e
  rw [ht, List.append_assoc] at htrace
  rw [added_eq htrace, statuses_append, apply_ite statuses, statuses_attempts]
  rfl

theorem tell_same {d : ApiCall} (hc : s.calls p = some c) (hd : t.calls p = some d)
    (hq : d.session = c.session) (hs : t.sessions = s.sessions) (e : SendEnv) :
    tell t p sta e = tell s p sta e := by
  have hsome : (target t p).isSome = (target s p).isSome := by
    simp only [target, hc, hd, hs, hq, Option.bind_some]
    cases c.session <;> simp
  rw [tell, hsome, tell]

theorem passed_verdict (hc : s.calls p = some c) (hdel : c.toDelete = false)
    (hpark : parked s c = false) : statuses (added s (passed s p c env)) = verdict s p c env := by
  rw [verdict]
  cases hq : s.wsGetFidQueue c.ulFid with
  | none =>
      rw [passed_none hdel hpark hq, added_eq (invalidated_trace s p env.status), statuses_append,
        statuses_attempts]
      exact List.append_nil _
  | some q =>
      rw [passed_some hdel hpark hq, attempted]
      cases hstall : stalls c env with
      | true => exact statuses_told (t := (stalled s p).toWaiting p) (l := [.stall p]) rfl hc env.status
      | false =>
          by_cases hroom : (s.periph q).queue.length < (s.periph q).depth
          · have hcall : ((forwarded s p c q).toWaiting p).calls p =
                some (if c.longTerm then c else c.dropReqData) := setCall_calls_self ..
            have hsame : (if c.longTerm then c else c.dropReqData).isNew = c.isNew ∧
                (if c.longTerm then c else c.dropReqData).session = c.session := by
              cases c.longTerm <;> exact ⟨rfl, rfl⟩
            have htold := statuses_told (s := s) (l := [.forward p q (requestOf c)]) rfl hcall env.status
            rw [hsame.1, tell_same hc hcall hsame.2 rfl,
              show statuses [.forward p q (requestOf c)] = [] from rfl, List.nil_append] at htold
            simpa [hroom, Nat.not_le.2 hroom] using htold
          · have hcall : ((refused s p c env.busy).toWaiting p).calls p = some c.dropSession :=
              setCall_calls_self ..
            -- its session is gone, and the client is not told anything else
            have hgone : tell ((refused s p c env.busy).toWaiting p) p apiCallStatusDelivered
                env.status = [] := by
              rw [tell, target_eq_none hcall rfl]
              rfl
            have htold := statuses_told (s := s) (l := .refuse p ::
              attempts s .worker p (.status apiCallStatusBusy) env.busy) rfl hcall env.status
            have hl : statuses (.refuse p ::
                attempts s .worker p (.status apiCallStatusBusy) env.busy) =
                tell s p apiCallStatusBusy env.busy := statuses_attempts ..
            rw [hgone, ite_self, List.append_nil, hl] at htold
            simpa [hroom, Nat.not_lt.1 hroom] using htold

def pushes (s : Server) (c : ApiCall) (env : WorkerEnv) : Option QueueId :=
  (s.wsGetFidQueue c.ulFid).filter
    (fun q => !stalls c env && decide ((s.periph q).queue.length < (s.periph q).depth))

theorem passed_pushes (hdel : c.toDelete = false) (hpark : parked s c = false) {q : QueueId}
    (h : pushes s c env = some q) :
    s.wsGetFidQueue c.ulFid = some q ∧ Puts s (passed s p c env) p (requestOf c) q := by
  simp only [pushes, Option.filter_eq_some_iff, Bool.and_eq_true, Bool.not_eq_true',
    decide_eq_true_eq] at h
  obtain ⟨hq, hstall, hroom⟩ := h
  refine ⟨hq, ?_⟩
  have hput : Puts s ((forwarded s p c q).toWaiting p) p (requestOf c) q := by
    show (Function.update s.periph q _ q).queue = _
    rw [Function.update_self]
  rw [passed_some hdel hpark hq, attempted, hstall, if_neg Bool.false_ne_true, if_pos hroom]
  unfold Puts
  rw [told_periph]
  exact hput

theorem passed_periph (hdel : c.toDelete = false) (hpark : parked s c = false)
    (h : pushes s c env = none) : (passed s p c env).periph = s.periph := by
  cases hq : s.wsGetFidQueue c.ulFid with
  | none =>
      rw [passed_none hdel hpark hq]
      rfl
  | some q =>
      rw [passed_some hdel hpark hq, told_periph, attempted]
      split_ifs with hstall hroom
      · rfl
      · exact absurd hroom (Nat.not_lt.2 (by simpa [pushes, hq, hstall] using h))
      · rfl

theorem verdict_eq (s : Server) (p : CallPtr) (c : ApiCall) (env : WorkerEnv) :
    ∃ sta sent, ∀ v ∈ verdict s p c env, v = (p, sta, sent) := by
  unfold verdict
  cases s.wsGetFidQueue c.ulFid with
  | none => exact ⟨_, _, fun _ => mem_tell⟩
  | some q =>
      simp only
      split_ifs
      · exact ⟨_, _, fun _ => mem_tell⟩
      · exact ⟨_, _, fun _ => mem_tell⟩
      · exact ⟨apiCallStatusDelivered, true, by simp⟩

theorem mem_tell_iff {e : SendEnv} (hlive : (target s p).isSome) (sta' : UInt32) :
    (p, sta', true) ∈ tell s p sta e ↔ sta' = sta ∧ e.alloc = true ∧ e.sent p = true := by
  rw [tell, hlive, Bool.true_and]
  cases e.alloc with
  | true => cases e.sent p <;> simp
  | false => simp

theorem reports_iff (hlive : (target s p).isSome) (hpush : pushes s c env = none) :
    reports s p c env = true ↔
      ∃ sta, sta ≠ apiCallStatusDelivered ∧ (p, sta, true) ∈ verdict s p c env := by
  unfold reports verdict
  cases hq : s.wsGetFidQueue c.ulFid with
  | none =>
      simp only [mem_tell_iff hlive, Bool.and_eq_true]
      exact ⟨fun h => ⟨_, by decide, rfl, h⟩, fun ⟨_, _, _, h⟩ => h⟩
  | some q =>
      cases hstall : stalls c env with
      | true =>
          simp only [Bool.not_true, Bool.false_and, Bool.false_eq_true, if_false, false_iff]
          rintro ⟨sta, hsta, hmem⟩
          split_ifs at hmem
          · exact hsta ((mem_tell_iff hlive sta).1 hmem).1
          · cases hmem
      | false =>
          have hfull : (s.periph q).depth ≤ (s.periph q).queue.length := by
            simpa [pushes, hq, hstall] using hpush
          simp only [Nat.not_lt.2 hfull, hfull, decide_false, decide_true, Bool.not_false,
            Bool.true_and, Bool.false_or, if_true, mem_tell_iff hlive, Bool.and_eq_true]
          exact ⟨fun h => ⟨_, by decide, rfl, h⟩, fun ⟨_, _, _, h⟩ => h⟩

theorem reports_of_pushes {q : QueueId} (h : pushes s c env = some q) :
    reports s p c env = true ∧ ∀ v ∈ verdict s p c env, v.2.1 = apiCallStatusDelivered := by
  simp only [pushes, Option.filter_eq_some_iff, Bool.and_eq_true, Bool.not_eq_true',
    decide_eq_true_eq] at h
  obtain ⟨hq, hstall, hroom⟩ := h
  simp only [reports, verdict, hq, hstall, hroom, Nat.not_le.2 hroom, decide_true, decide_false,
    Bool.not_false, Bool.and_false, Bool.true_or, Bool.and_true, Bool.false_eq_true, if_false,
    true_and]
  intro v hv
  split_ifs at hv
  · rw [mem_tell hv]
  · cases hv

theorem Tries.unique (h : Tries x a p c env) (hw : x.worker = .forward (some r))
    (hd : x.srv.calls r = some d) : p = r ∧ c = d := by
  have hp := h.item.symm.trans hw
  simp only [WorkerPc.forward.injEq, Option.some.injEq] at hp
  subst hp
  obtain ⟨k, hk⟩ := h.live
  exact ⟨rfl, Option.some.inj ((target_eq_some_iff.1 hk).1.symm.trans hd)⟩

theorem tried_iff (htry : Tries x (.worker env) p c env)
    (hv : statuses (added x.srv y.srv) = verdict x.srv p c env)
    (hq : y.srv.periph = (passed x.srv p c env).periph) :
    TruthfulStep x (.worker env) y ↔ reports x.srv p c env = true := by
  obtain ⟨k, hk⟩ := htry.live
  have hlive : (target x.srv p).isSome := by simp [hk]
  have hc : x.srv.calls p = some c := (target_eq_some_iff.1 hk).1
  have hsame : ∀ p' c' env', Tries x (.worker env) p' c' env' → p' = p ∧ c' = c :=
    fun p' c' env' htry' => htry'.unique htry.item hc
  cases hpush : pushes x.srv c env with
  | some q =>
      obtain ⟨hreports, hdel⟩ := reports_of_pushes (p := p) hpush
      obtain ⟨hfid, hput⟩ := passed_pushes (p := p) htry.keeps htry.due hpush
      have hput : Puts x.srv y.srv p (requestOf c) q := by
        unfold Puts
        rw [hq]
        exact hput
      refine iff_of_true ⟨fun p' c' sent hc' _ hmem => ?_, fun p' sent hmem => ?_,
        fun p' c' env' htry' => ?_⟩ hreports
      · obtain ⟨sta, sent', hone⟩ := verdict_eq x.srv p c env
        have hpp := hone _ (hv ▸ hmem)
        simp only [Prod.mk.injEq] at hpp
        obtain ⟨rfl, -⟩ := hpp
        rw [hc, Option.some.injEq] at hc'
        exact ⟨q, hc' ▸ hfid, hc' ▸ hput⟩
      · have hbusy : apiCallStatusBusy = apiCallStatusDelivered := hdel _ (hv ▸ hmem)
        exact absurd hbusy (by decide)
      · obtain ⟨rfl, rfl⟩ := hsame p' c' env' htry'
        exact .inl ⟨q, hfid, hput⟩
  | none =>
      have hperiph : y.srv.periph = x.srv.periph := hq.trans (passed_periph htry.keeps htry.due hpush)
      have hnot : ∀ p' m q, ¬ Puts x.srv y.srv p' m q := fun p' m q => not_puts (by rw [hperiph])
      rw [reports_iff hlive hpush]
      constructor
      · intro h
        rcases h.reported p c env htry with ⟨q, -, hput⟩ | ⟨sta, hsta, hmem⟩
        · exact absurd hput (hnot _ _ _)
        · exact ⟨sta, hsta, hv ▸ hmem⟩
      · rintro ⟨sta, hsta, hmem⟩
        refine ⟨fun p' c' sent _ _ hdel => ?_, fun p' sent _ m q => hnot p' m q,
          fun p' c' env' htry' => ?_⟩
        · obtain ⟨sta', sent', hone⟩ := verdict_eq x.srv p c env
          have hsta' := (hone _ hmem).trans (hone _ (hv ▸ hdel)).symm
          simp only [Prod.mk.injEq] at hsta'
          exact absurd hsta'.2.1 hsta
        · obtain ⟨rfl, rfl⟩ := hsame p' c' env' htry'
          exact .inr ⟨sta, hsta, hv ▸ hmem⟩

theorem mute_truthful (hv : statuses (added x.srv y.srv) = [])
    (hnot : ∀ p c env, ¬ Tries x a p c env) : TruthfulStep x a y := by
  refine ⟨fun p c sent _ _ hmem => ?_, fun p sent hmem => ?_, fun p c env htry => absurd htry (hnot p c env)⟩
  · rw [hv] at hmem
    cases hmem
  · rw [hv] at hmem
    cases hmem

end Attempt

theorem step_aside (hr : Reachable (machine P) x) (h : (machine P).Step x a y)
    (hnot : ∀ env p, a = .worker env → x.worker ≠ .forward (some p)) : Aside x.srv y.srv := by
  rcases step_outcome hr h with ⟨env, rfl, hout⟩ | ⟨-, -, hapart⟩
  · generalize y.srv = t at hout ⊢
    generalize y.worker = pc at hout
    cases hout with
    | turned => exact .refl _
    | swept => exact (Aside.refl _).after (l := [_]) rfl rfl fun _ => Nat.le_refl _
    | kept _ _ _ hsoft => exact .soft hsoft
    | passed hw => exact absurd hw (hnot env _ rfl)
    | received => exact (Aside.refl _).quiet rfl fun _ => Nat.le_refl _
    | unanswered => exact (Aside.refl _).after (l := [_]) rfl rfl fun _ => Nat.le_refl _
    | @answered r p c s m _ _ _ hsoft =>
        have hans : Aside x.srv (answered (s.withNet m) p c r env.reply) :=
          ((Aside.soft hsoft).quiet (u := s.withNet m) rfl fun _ => Nat.le_refl _).answered
        exact hans.after (l := [_]) rfl rfl fun _ => Nat.le_refl _
    | @broadcast r p next c s m _ _ hsoft =>
        exact ((Aside.soft hsoft).quiet (u := s.withNet m) rfl fun _ => Nat.le_refl _).answered
  · obtain ⟨s', hsoft, houter⟩ := hapart.1.outer
    exact (Aside.soft hsoft).outer houter

theorem Aside.step_iff (h : Aside x.srv y.srv) (hnot : ∀ p c env, ¬ Tries x a p c env) :
    TruthfulStep x a y ↔ ReportingStep x a y :=
  iff_of_true (h.truthful hnot) fun p c env htry => absurd htry (hnot p c env)

theorem passed_aside (hs : WF s) (hc : s.calls p = some c)
    (h : c.toDelete = true ∨ parked s c = true) (m : Net) :
    Aside s ((passed s p c env).withNet m) := by
  have hkeep : ∀ {u : Server}, Aside s u → Aside s (u.withNet m) := fun hu =>
    hu.quiet rfl fun _ => Nat.le_refl _
  apply hkeep
  cases hdel : c.toDelete with
  | true =>
      simp only [ForwardPass.passed, hdel, if_true]
      exact deleted_aside hs hc hdel env.status
  | false =>
      have hpark : parked s c = true := h.resolve_left (by simp [hdel])
      simp only [ForwardPass.passed, hdel, hpark, Bool.false_eq_true, if_false, if_true]
      exact .refl _

theorem forward_truthful_iff (hr : Reachable (machine P) x) (h : (machine P).Step x (.worker env) y)
    (hw : x.worker = .forward (some p)) :
    TruthfulStep x (.worker env) y ↔ ReportingStep x (.worker env) y := by
  have hs := (reachable_inv hr).sound.wf
  obtain ⟨-, c, m, hc, rfl⟩ := forward_step hr hw h
  by_cases hskip : c.toDelete = true ∨ parked x.srv c = true
  · refine (passed_aside hs hc hskip m).step_iff fun p' c' env' htry => ?_
    obtain ⟨rfl, rfl⟩ := htry.unique hw hc
    simp [htry.keeps, htry.due] at hskip
  · obtain ⟨hdel, hpark⟩ := not_or.1 hskip
    rw [Bool.not_eq_true] at hdel hpark
    have hv : statuses (added x.srv ((passed x.srv p c env).withNet m)) = verdict x.srv p c env :=
      passed_verdict hc hdel hpark
    cases ht : target x.srv p with
    | none =>
        have hnot : ∀ p' c' env', ¬ Tries x (.worker env) p' c' env' := by
          intro p' c' env' htry
          obtain ⟨rfl, rfl⟩ := htry.unique hw hc
          obtain ⟨k, hk⟩ := htry.live
          rw [ht] at hk
          cases hk
        refine iff_of_true (mute_truthful (hv.trans ?_) hnot)
          fun p' c' env' htry => absurd htry (hnot p' c' env')
        unfold verdict tell
        rw [ht]
        cases x.srv.wsGetFidQueue c.ulFid <;> simp
    | some z =>
        obtain ⟨c', k⟩ := z
        obtain rfl : c = c' := Option.some.inj (hc.symm.trans (target_eq_some_iff.1 ht).1)
        have htry : Tries x (.worker env) p c env := ⟨rfl, hw, ⟨k, ht⟩, hdel, hpark⟩
        rw [tried_iff htry hv rfl]
        refine ⟨fun hrep p' c' env' htry' => ?_, fun h => h p c env htry⟩
        obtain ⟨rfl, rfl⟩ := htry'.unique hw hc
        cases htry'.step
        exact hrep

theorem truthful_step_iff (hr : Reachable (machine P) x) (h : (machine P).Step x a y) :
    TruthfulStep x a y ↔ ReportingStep x a y := by
  by_cases hpass : ∃ env p, a = .worker env ∧ x.worker = .forward (some p)
  · obtain ⟨env, p, rfl, hw⟩ := hpass
    exact forward_truthful_iff hr h hw
  · have hnot : ∀ env p, a = .worker env → x.worker ≠ .forward (some p) :=
      fun env p ha hw => hpass ⟨env, p, ha, hw⟩
    exact (step_aside hr h hnot).step_iff fun p c env htry => hnot env p htry.step htry.item

/-- In exactly those runs in which every request of a live client that the worker
tries to forward can be allocated, and every failure for want of room can be
reported, the statuses tell the truth. -/
theorem truthful_iff_reporting {as : List Label} (h : Reachable (machine P) x) :
    Along (machine P) TruthfulStep x as y ↔ Along (machine P) ReportingStep x as y :=
  Along.congr h (fun _ _ _ hr hstep => truthful_step_iff hr hstep)

def reporting (x : System) : Label → Bool
  | .worker env => match x.worker with
    | .forward (some p) => (target x.srv p).all (fun t =>
        t.1.toDelete || parked x.srv t.1 || reports x.srv p t.1 env)
    | _ => true
  | _ => true

theorem reportingStep_of (h : reporting x a = true) : ReportingStep x a y := by
  rintro p c env ⟨rfl, hw, ⟨k, hk⟩, hdel, hpark⟩
  simpa [reporting, hw, hk, hdel, hpark] using h

def crowd : List Label :=
  [.registerQueue 0x1013 (some 0) true true, .connect 1 true] ++
  request 0 (0x1013, 0, 5) ++ request 0 (0x1013, 0, 6)

def crowded : Platform := platform [(0x1013, 0, 5), (0x1013, 0, 6)]

theorem truthful_crowd : ∃ y, Along (machine crowded) TruthfulStep (initSystem (fun _ => 1))
    (crowd ++ work 8) y ∧ statuses y.srv.trace =
      [(0, apiCallStatusDelivered, true), (1, apiCallStatusBusy, true)] := by
  have h : (machine crowded).check reporting
      (fun x => statuses x.srv.trace == [(0, apiCallStatusDelivered, true), (1, apiCallStatusBusy, true)])
      (initSystem (fun _ => 1)) (crowd ++ work 8) = true := by decide +kernel
  obtain ⟨y, hrun, hy⟩ := exists_of_check h
  exact ⟨y, (truthful_iff_reporting (.init ⟨_, rfl⟩)).2 (hrun.imp fun _ _ _ => reportingStep_of),
    beq_iff_eq.1 hy⟩

def noMessage : WorkerEnv := { okEnv with msgAlloc := false }

/-- No message can be allocated, and the client is told that its request has
been delivered. -/
theorem unforwarded_delivered : ∃ x y, Reachable (machine crowded) x ∧
    (machine crowded).Step x (.worker noMessage) y ∧ ¬ TruthfulStep x (.worker noMessage) y := by
  have h : (machine crowded).reaches (initSystem (fun _ => 1)) (crowd ++ work 6)
      (fun x => (x.srv.calls 0).any (fun c =>
          !c.toDelete && x.srv.wsGetFidQueue c.ulFid == some 0) &&
        (machine crowded).reaches x [.worker noMessage] (fun y =>
          (statuses (added x.srv y.srv)).contains (0, apiCallStatusDelivered, true) &&
          (y.srv.periph 0).queue.isEmpty)) = true := by decide +kernel
  obtain ⟨x, hrun, hx⟩ := exists_of_reaches h
  simp only [Bool.and_eq_true, Option.any_eq_true, Bool.not_eq_true', beq_iff_eq] at hx
  obtain ⟨⟨c, hc, hdel, hroute⟩, hlast⟩ := hx
  obtain ⟨y, hstep, hy⟩ := exists_step_of_reaches hlast
  simp only [Bool.and_eq_true, List.contains_iff_mem, List.isEmpty_iff] at hy
  refine ⟨x, y, ⟨_, _, ⟨_, rfl⟩, hrun⟩, hstep, fun htrue => ?_⟩
  obtain ⟨q, hq, hput⟩ := htrue.delivered 0 c true hc hdel hy.1
  obtain rfl : 0 = q := Option.some.inj (hroute.symm.trans hq)
  rw [Puts, hy.2] at hput
  simp at hput

end WirelessGateway.Truthful
