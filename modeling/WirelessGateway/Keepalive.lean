import WirelessGateway.Clock

namespace WirelessGateway.Keepalive

open CJson WirelessGateway.Types Memory WsServer Transport Worker Tasks Sends WellFormed Lifecycle
open Operations Steps Outcomes Updates Clock Lib.Fallible Lib.Runs Lib.Ticks

variable {P : Platform} {s t : Server} {p : CallPtr} {c : ApiCall} {q : SessPtr} {k : ApiSession}
  {env : WorkerEnv} {x y : System} {now : UInt32}

section Watch

/-- workerStep, where vServeApiCall goes on with the tick that it has read. -/
def workerStepFrom (now : UInt32) (s : Server) (pc : WorkerPc) (env : WorkerEnv) :
    Fallible (Server × WorkerPc) :=
  match pc with
  | .serveCalls (some item) => do
    let next ← s.findNext item anyItem
    let s ← serveFrom now s item env
    pure (s, .serveCalls next)
  | .serveWaiting (some item) => do
    let next ← s.findNext item anyItem
    let s ← serveFrom now s item env
    pure (s, .serveWaiting next)
  | pc => workerStep s pc env

theorem workerStepFrom_tick (s : Server) (pc : WorkerPc) (env : WorkerEnv) :
    workerStepFrom s.tick s pc env = workerStep s pc env := by
  cases pc with
  | serveCalls item => cases item <;> rfl
  | serveWaiting item => cases item <;> rfl
  | _ => rfl

def afterServe (next : Option CallPtr) : WorkerPc → WorkerPc
  | .serveCalls _ => .serveCalls next
  | _ => .serveWaiting next

theorem workerStepFrom_live (hs : WF s) {pc : WorkerPc} (hserves : serves pc = some p)
    (hc : s.calls p = some c) (hq : c.session = some q) (hk : s.sessions q = some k)
    (now : UInt32) (env : WorkerEnv) : workerStepFrom now s pc env =
      (s.findNext p anyItem).map (fun n => (visited now s p c q k env, afterServe n pc)) := by
  cases pc with
  | serveCalls item =>
      cases hserves
      simp only [workerStepFrom, serveFrom_live hs hc hq hk]
      cases s.findNext p anyItem <;> rfl
  | serveWaiting item =>
      cases hserves
      simp only [workerStepFrom, serveFrom_live hs hc hq hk]
      cases s.findNext p anyItem <;> rfl
  | _ => cases hserves

/-- The system, with the tick that vServeApiCall has read for the live call
that it serves. The httpd task may run between that and the comparisons. -/
structure Watch where
  sys : System
  now : Option UInt32

inductive WatchLabel
  | look
  | sys (a : Label)

def Watch.step (P : Platform) (w : Watch) : WatchLabel → Option (Fallible Watch)
  | .look =>
    if (serving w.sys).isSome && w.now.isNone then
      some (pure { w with now := some w.sys.srv.tick })
    else none
  | .sys (.worker env) => match serving w.sys, w.now with
    | none, _ => (Tasks.step P w.sys (.worker env)).map (Except.map (fun x => ⟨x, none⟩))
    | some _, none => none
    | some _, some now => some ((workerStepFrom now w.sys.srv w.sys.worker env).map
        (fun r => ⟨{ w.sys with srv := r.1, worker := r.2 }, none⟩))
  | .sys a => (Tasks.step P w.sys a).map (Except.map (fun x => { w with sys := x }))

def watch (P : Platform) : Machine Watch WatchLabel Fault where
  init w := (machine P).init w.sys ∧ w.now = none
  step := Watch.step P

inductive WatchStep (P : Platform) (w : Watch) : WatchLabel → Watch → Prop
  | look (hserving : (serving w.sys).isSome) (hnow : w.now = none) :
      WatchStep P w .look { w with now := some w.sys.srv.tick }
  | serve {p : CallPtr} {c : ApiCall} {q : SessPtr} {k : ApiSession} {now : UInt32}
      {next : Option CallPtr} (env : WorkerEnv) (hserving : serving w.sys = some (p, c, k))
      (hq : c.session = some q) (hk : w.sys.srv.sessions q = some k) (hnow : w.now = some now)
      (hnext : w.sys.srv.findNext p anyItem = .ok next) :
      WatchStep P w (.sys (.worker env))
        ⟨⟨visited now w.sys.srv p c q k env, afterServe next w.sys.worker, w.sys.httpd⟩, none⟩
  | worker {env : WorkerEnv} {y : System} (hstep : (machine P).Step w.sys (.worker env) y)
      (hserving : serving w.sys = none) : WatchStep P w (.sys (.worker env)) ⟨y, none⟩
  | other {a : Label} {y : System} (hstep : (machine P).Step w.sys a y)
      (ha : ∀ env, a ≠ .worker env) : WatchStep P w (.sys a) ⟨y, w.now⟩

theorem watch_step {w v : Watch} {a : WatchLabel} (hr : Reachable (machine P) w.sys)
    (h : (watch P).Step w a v) : WatchStep P w a v := by
  have h : Watch.step P w a = some (.ok v) := h
  have hlift : ∀ {a : Label} {now : Option UInt32},
      (Tasks.step P w.sys a).map (Except.map (fun x => (⟨x, now⟩ : Watch))) = some (.ok v) →
      ∃ y, (machine P).Step w.sys a y ∧ v = ⟨y, now⟩ := by
    intro a now h
    obtain ⟨r, hr, h⟩ := Option.map_eq_some_iff.1 h
    obtain ⟨y, rfl, rfl⟩ := map_eq_ok h
    exact ⟨y, hr, rfl⟩
  cases a with
  | look =>
      simp only [Watch.step] at h
      split_ifs at h with hlook
      rw [Bool.and_eq_true, Option.isNone_iff_eq_none] at hlook
      cases h
      exact .look hlook.1 hlook.2
  | sys a =>
      rcases worker_or_other a with ⟨env, rfl⟩ | hother
      · simp only [Watch.step] at h
        split at h
        next hserving =>
          obtain ⟨y, hy, rfl⟩ := hlift h
          exact .worker hy hserving
        next => cases h
        next r now hserving hnow =>
          obtain ⟨p, c, k⟩ := r
          obtain ⟨hserves, hc, q, hq, hk⟩ := serving_eq_some hserving
          rw [workerStepFrom_live (reachable_inv hr).sound.wf hserves hc hq hk] at h
          obtain ⟨r, hr, rfl⟩ := map_eq_ok (Option.some.inj h)
          obtain ⟨next, hnext, rfl⟩ := map_eq_ok hr
          exact .serve env hserving hq hk hnow hnext
      · have hsame : Watch.step P w (.sys a) =
            (Tasks.step P w.sys a).map (Except.map (fun x => (⟨x, w.now⟩ : Watch))) := by
          cases a with
          | worker env => exact absurd rfl (hother env)
          | _ => rfl
        obtain ⟨y, hy, rfl⟩ := hlift (hsame ▸ h)
        exact .other hy hother

/-- Serving a call with an old tick is serving it at that tick, with the time
that has passed since counted later. -/
theorem visited_passTicks (s : Server) (p : CallPtr) (c : ApiCall) (q : SessPtr) (k : ApiSession)
    (now : UInt32) (env : WorkerEnv) : ∃ d,
      (visited now (s.passTicks (now - s.tick)) p c q k
        { env with elapsed := s.tick + env.elapsed - now }).passTicks d =
        visited now s p c q k env := by
  have hback : s.tick + (now - s.tick) + (s.tick - now) = s.tick := by grind
  have hping : s.tick + (now - s.tick) + (s.tick + env.elapsed - now) = s.tick + env.elapsed := by
    grind
  by_cases hsent : due now k = true ∧ env.pingSent = true
  · refine ⟨0, ?_⟩
    simp [visited, hsent.1, hsent.2, Server.passTicks, Server.setSession, Server.log, hping]
  · refine ⟨s.tick - now, ?_⟩
    unfold visited
    split_ifs with hdue hsent'
    · exact absurd ⟨hdue, hsent'⟩ hsent
    · simp [Server.passTicks, Server.setCall, Server.log, hback]
    · simp [Server.passTicks, hback]

theorem live_step (hr : Reachable (machine P) x) (hserving : serving x = some (p, c, k))
    (hq : c.session = some q) (hk : x.srv.sessions q = some k) {next : Option CallPtr}
    (hnext : x.srv.findNext p anyItem = .ok next) (env : WorkerEnv) :
    (machine P).Step x (.worker env)
      ⟨visited x.srv.tick x.srv p c q k env, afterServe next x.worker, x.httpd⟩ := by
  obtain ⟨hserves, hc, -⟩ := serving_eq_some hserving
  have hwork := workerStepFrom_live (reachable_inv hr).sound.wf hserves hc hq hk x.srv.tick env
  rw [workerStepFrom_tick, hnext] at hwork
  simp only [Machine.Step, machine, Tasks.step, hwork]
  rfl

theorem WatchStep.run {w v : Watch} {a : WatchLabel} (hr : Reachable (machine P) w.sys)
    (h : WatchStep P w a v) : ∃ as, Run (machine P) w.sys as v.sys := by
  cases h with
  | look => exact ⟨[], .start⟩
  | worker hstep => exact ⟨_, .step .start hstep trivial⟩
  | other hstep => exact ⟨_, .step .start hstep trivial⟩
  | @serve p c q k now next env hserving hq hk hnow hnext =>
      -- the tick goes back to the one that was read, and forth again
      obtain ⟨d, hd⟩ := visited_passTicks w.sys.srv p c q k now env
      have hback : (machine P).Step w.sys (.tick (now - w.sys.srv.tick))
          ⟨w.sys.srv.passTicks (now - w.sys.srv.tick), w.sys.worker, w.sys.httpd⟩ := rfl
      have htick : (w.sys.srv.passTicks (now - w.sys.srv.tick)).tick = now := by
        simp only [Server.passTicks]
        grind
      have hserve := live_step (hr.step hback) hserving hq hk hnext
        { env with elapsed := w.sys.srv.tick + env.elapsed - now }
      have hforth : (machine P).Step ⟨visited now (w.sys.srv.passTicks (now - w.sys.srv.tick)) p c q k
          { env with elapsed := w.sys.srv.tick + env.elapsed - now }, afterServe next w.sys.worker,
          w.sys.httpd⟩ (.tick d) ⟨_, afterServe next w.sys.worker, w.sys.httpd⟩ := rfl
      rw [htick] at hserve
      rw [hd] at hforth
      exact ⟨_, .cons hback trivial (.cons hserve trivial (.cons hforth trivial .start))⟩

theorem watch_reachable {w : Watch} (h : Reachable (watch P) w) : Reachable (machine P) w.sys := by
  refine h.invariant (I := fun w => Reachable (machine P) w.sys) (fun w hw => .init hw.1) ?_
  intro w a v _ hr hstep
  obtain ⟨as, hrun⟩ := (watch_step hr hstep).run hr
  exact hrun.reachable hr

end Watch

section Pace

structure Pace where
  clock : Nat
  looked : Nat
  alive : SessPtr → Nat
  pinged : SessPtr → Nat

def Pace.next (w : Watch) (a : WatchLabel) (g : Pace) : Pace :=
  match a with
  | .look => { g with looked := g.clock }
  | .sys (.tick d) => { g with clock := g.clock + d.toNat }
  | .sys (.connect _ true) => { g with
      alive := Function.update g.alive w.sys.srv.nextSess g.clock
      pinged := Function.update g.pinged w.sys.srv.nextSess g.clock }
  | .sys (.frame conn _ _ _) => match (w.sys.srv.conns conn).bind Conn.userData with
    | some q => { g with alive := Function.update g.alive q g.clock }
    | none => g
  | .sys (.worker env) => match serving w.sys, w.now with
    | some (_, c, k), some now =>
      let g := { g with clock := g.clock + pingTicks now k env }
      if due now k && env.pingSent then
        { g with pinged := Function.update g.pinged (c.session.getD 0) g.clock }
      else g
    | _, _ => g
  | .sys _ => g

/-- The watched system with the times at which its clocks were set. -/
def paced (P : Platform) : Machine (Watch × Pace) WatchLabel Fault :=
  (watch P).carry ⟨0, 0, fun _ => 0, fun _ => 0⟩ Pace.next

def Shown (s : Server) (g : Pace) : Prop :=
  ∀ q k, s.sessions q = some k → k.ulAliveTs = stamp (g.alive q) ∧ k.ulPingTs = stamp (g.pinged q) ∧
    g.alive q ≤ g.clock ∧ g.pinged q ≤ g.clock

structure PaceOk (w : Watch) (g : Pace) : Prop where
  tick : w.sys.srv.tick = stamp g.clock
  looked : g.looked ≤ g.clock
  now : ∀ n, w.now = some n → n = stamp g.looked
  shown : Shown w.sys.srv g
  before : w.now.isSome → ∀ p c q, serves w.sys.worker = some p → w.sys.srv.calls p = some c →
    c.session = some q → g.pinged q ≤ g.looked

variable {w v : Watch} {g : Pace} {a : WatchLabel}

theorem Shown.timeless {armed : Option CallPtr} (h : Shown s g) (ht : Timeless armed s t) :
    Shown t g := fun q k hk => h q k (ht.sessions q k hk)

theorem Shown.later (h : Shown s g) (n : Nat) : Shown s { g with clock := g.clock + n } := by
  intro q k hk
  obtain ⟨ha, hp, hac, hpc⟩ := h q k hk
  exact ⟨ha, hp, Nat.le_add_right_of_le hac, Nat.le_add_right_of_le hpc⟩

theorem Shown.touched (h : Shown s g) (htick : s.tick = stamp g.clock) (hk : s.sessions q = some k) :
    Shown (s.setSession q { k with ulAliveTs := s.tick })
      { g with alive := Function.update g.alive q g.clock } := by
  intro q' k' hk'
  by_cases hq : q' = q
  · subst hq
    simp only [Server.setSession, Function.update_self, Option.some.injEq] at hk'
    subst hk'
    obtain ⟨-, hp, -, hpc⟩ := h q' k hk
    simp only [Function.update_self]
    exact ⟨htick, hp, Nat.le_refl _, hpc⟩
  · simp only [Server.setSession, Function.update_of_ne hq] at hk'
    simp only [Function.update_of_ne hq]
    exact h q' k' hk'

theorem Shown.connect (h : Shown s g) (htick : s.tick = stamp g.clock) (fd : Int) :
    Shown (wsServerOnConnect s fd true) { g with
      alive := Function.update g.alive s.nextSess g.clock
      pinged := Function.update g.pinged s.nextSess g.clock } := by
  intro q k hk
  by_cases hq : q = s.nextSess
  · subst hq
    simp only [wsServerOnConnect, if_true, Server.log, Function.update_self, Option.some.injEq] at hk
    subst hk
    simp only [Function.update_self]
    exact ⟨htick, htick, Nat.le_refl _, Nat.le_refl _⟩
  · simp only [wsServerOnConnect, if_true, Server.log, Function.update_of_ne hq] at hk
    simp only [Function.update_of_ne hq]
    exact h q k hk

theorem Shown.visited (h : Shown s g) (htick : s.tick = stamp g.clock) (hq : c.session = some q)
    (hk : s.sessions q = some k) (now : UInt32) (env : WorkerEnv) :
    Shown (visited now s p c q k env) (if due now k && env.pingSent then
      { g with
        clock := g.clock + pingTicks now k env
        pinged := Function.update g.pinged (c.session.getD 0) (g.clock + pingTicks now k env) }
      else { g with clock := g.clock + pingTicks now k env }) := by
  unfold Clock.visited
  cases hdue : due now k with
  | false => exact h.later _
  | true =>
      cases hsent : env.pingSent with
      | false => exact h.later _
      | true =>
          intro q' k' hk'
          simp only [Bool.and_self, if_true, hq, Option.getD_some, pingTicks, hdue, hsent]
          by_cases hqq : q' = q
          · subst hqq
            simp only [if_true, Server.setSession, Function.update_self, Option.some.injEq] at hk'
            subst hk'
            obtain ⟨ha, -, hac, -⟩ := h q' k hk
            simp only [Function.update_self]
            refine ⟨ha, ?_, Nat.le_add_right_of_le hac, Nat.le_refl _⟩
            rw [htick, stamp_add]
          · simp only [if_true, Server.setSession, Function.update_of_ne hqq] at hk'
            simp only [Function.update_of_ne hqq]
            exact h.later env.elapsed.toNat q' k' hk'

theorem serves_locked (h : serves x.worker = some p) : x.worker.locked = true := by
  cases hw : x.worker with
  | serveCalls | serveWaiting => rfl
  | _ => simp [serves, hw] at h

theorem next_unclocked {a : Label} (h : Unclocked w.sys a) (ha : ∀ env, a ≠ .worker env) (g : Pace) :
    Pace.next w (.sys a) g = g := by
  cases a with
  | tick | connect => cases h
  | worker env => exact absurd rfl (ha env)
  | frame conn type data sent =>
      have hnone : (w.sys.srv.conns conn).bind Conn.userData = none := h
      simp only [Pace.next, hnone]
  | _ => rfl

theorem other_step (hr : Reachable (machine P) x) {a : Label} (hstep : (machine P).Step x a y)
    (ha : ∀ env, a ≠ .worker env) : y.worker = x.worker ∧
      ∀ p, serves x.worker = some p → y.srv.calls p = x.srv.calls p := by
  rcases step_outcome hr hstep with ⟨env, he, -⟩ | ⟨-, hworker, hapart⟩
  · exact absurd he (ha env)
  · refine ⟨hworker, fun p hp => ?_⟩
    rw [(hapart.2 (serves_locked hp)).calls]

theorem paceOk_other (hr : Reachable (machine P) w.sys) (hg : PaceOk w g) {a : Label}
    (hstep : (machine P).Step w.sys a y) (ha : ∀ env, a ≠ .worker env) :
    PaceOk ⟨y, w.now⟩ (Pace.next w (.sys a) g) := by
  have hs := (reachable_inv hr).sound.wf
  obtain ⟨hworker, hcalls⟩ := other_step hr hstep ha
  have hdone : ∀ g' : Pace, g'.looked = g.looked → g.clock ≤ g'.clock →
      y.srv.tick = stamp g'.clock → Shown y.srv g' →
      (∀ q, (w.sys.srv.sessions q).isSome → g'.pinged q = g.pinged q) → PaceOk ⟨y, w.now⟩ g' := by
    intro g' hlooked hclock htick hshown hpinged
    refine ⟨htick, hlooked ▸ Nat.le_trans hg.looked hclock, hlooked ▸ hg.now, hshown, ?_⟩
    intro hnow p c q hp hc hq
    have hp' : serves w.sys.worker = some p := hworker ▸ hp
    have hc' : w.sys.srv.calls p = some c := (hcalls p hp').symm.trans hc
    obtain ⟨k, hk⟩ := hs.attached p c q hc' hq
    rw [hlooked, hpinged q (by simp [hk])]
    exact hg.before hnow p c q hp' hc' hq
  have hticks := step_ticks hr hstep
  have htick := hticks.stamp hg.tick
  generalize y.srv = t at hticks htick hdone
  cases hticks with
  | timeless h _ hquiet =>
      rw [next_unclocked hquiet ha]
      exact hdone g rfl (Nat.le_refl _) (h.tick.trans hg.tick) (hg.shown.timeless h) (fun _ _ => rfl)
  | tick d => exact hdone _ rfl (Nat.le_add_right _ _) htick (hg.shown.later d.toNat) (fun _ _ => rfl)
  | connect fd alloc =>
      cases alloc with
      | false => exact hdone g rfl (Nat.le_refl _) htick hg.shown (fun _ _ => rfl)
      | true =>
          refine hdone _ rfl (Nat.le_refl _) htick (hg.shown.connect hg.tick fd) (fun q hq => ?_)
          exact Function.update_of_ne (Nat.ne_of_lt (hs.nextSess q hq)) _ _
  | @frame conn type data sent i q k t hi hq hk h =>
      have hnext : Pace.next w (.sys (.frame conn type data sent)) g =
          { g with alive := Function.update g.alive q g.clock } := by
        simp only [Pace.next, hi, Option.bind_some, hq]
      rw [hnext]
      exact hdone _ rfl (Nat.le_refl _) htick ((hg.shown.touched hg.tick hk).timeless h)
        (fun _ _ => rfl)
  | serve env => exact absurd rfl (ha env)

theorem paceOk_step (hr : Reachable (machine P) w.sys) (hg : PaceOk w g)
    (h : (watch P).Step w a v) : PaceOk v (Pace.next w a g) := by
  cases watch_step hr h with
  | look hserving hnow =>
      refine ⟨hg.tick, Nat.le_refl _, fun n hn => ?_, hg.shown, fun _ p c q _ hc hq => ?_⟩
      · cases hn
        exact hg.tick
      · obtain ⟨k, hk⟩ := (reachable_inv hr).sound.wf.attached p c q hc hq
        exact (hg.shown q k hk).2.2.2
  | @serve p c q k now next env hserving hq hk hnow hnext =>
      have hshown := hg.shown.visited hg.tick hq hk (p := p) now env
      have htick := @visited_tick w.sys.srv p c q k env now g.clock hg.tick
      simp only [Pace.next, hserving, hnow]
      split
      next hdue =>
        rw [if_pos hdue] at hshown
        exact ⟨htick, Nat.le_add_right_of_le hg.looked, by simp, hshown, by simp⟩
      next hdue =>
        rw [if_neg hdue] at hshown
        exact ⟨htick, Nat.le_add_right_of_le hg.looked, by simp, hshown, by simp⟩
  | @worker env y hstep hserving =>
      have hnext : Pace.next w (.sys (.worker env)) g = g := by
        simp only [Pace.next, hserving]
      rw [hnext]
      have hticks := step_ticks hr hstep
      generalize hsrv : y.srv = t at hticks
      cases hticks with
      | timeless h =>
          refine ⟨?_, hg.looked, by simp, ?_, by simp⟩
          · exact hsrv ▸ h.tick.trans hg.tick
          · exact hsrv ▸ hg.shown.timeless h
      | serve _ h => rw [hserving] at h; cases h
  | other hstep ha => exact paceOk_other hr hg hstep ha

theorem reachable_paceOk {z : Watch × Pace} (h : Reachable (paced P) z) : PaceOk z.1 z.2 := by
  refine h.carry_invariant (I := PaceOk) ?_ (fun w a v g hr hg hstep =>
    paceOk_step (watch_reachable hr) hg hstep)
  rintro w ⟨⟨depth, hw⟩, hnow⟩
  refine ⟨by rw [hw]; rfl, Nat.le_refl _, by simp [hnow], ?_, by simp [hnow]⟩
  intro q k hk
  rw [hw] at hk
  cases hk

end Pace

section Pings

variable {z z' : Watch × Pace} {a : WatchLabel}

theorem visited_pings (now : UInt32) (s : Server) (p : CallPtr) (c : ApiCall) (q : SessPtr)
    (k : ApiSession) (env : WorkerEnv) : pings (visited now s p c q k env) =
      pings s ++ if due now k then [(k.conn, env.pingSent)] else [] := by
  unfold visited
  cases due now k with
  | false => simp
  | true =>
      cases env.pingSent with
      | true => simp [pings, Server.setSession, Server.passTicks, Server.log, pingOf]
      | false => simp [pings, Server.setCall, Server.log, pingOf]

theorem ticks_pings {a : Label} (h : Ticks x a t)
    (ha : ∀ env, a = .worker env → serving x = none) : pings t = pings x.srv := by
  cases h with
  | timeless h => exact h.pings
  | tick d => rfl
  | connect fd alloc =>
      cases alloc with
      | true => simp [pings, wsServerOnConnect, Server.log, pingOf]
      | false => simp [pings, wsServerOnConnect, Server.log, pingOf]
  | frame hi hq hk h => exact h.pings
  | serve env h =>
      rw [ha env rfl] at h
      cases h

/-- A ping that is tried while a call is served: no frame has come for the
delay, the last ping is as long ago, and if it fails it ends the call, and
touches nothing else. -/
structure Pinged (z : Watch × Pace) (sent : Bool) (z' : Watch × Pace) (p : CallPtr) (c : ApiCall)
    (q : SessPtr) (k : ApiSession) : Prop where
  served : serving z.1.sys = some (p, c, k) ∧ c.session = some q
  queued : pings z'.1.sys.srv = pings z.1.sys.srv ++ [(k.conn, sent)]
  idle : z.2.alive q + configWebSocketPingDelay.toNat ≤ z.2.clock
  apart : z.2.pinged q + configWebSocketPingDelay.toNat ≤ z.2.clock
  noted : sent = true → z'.2.pinged q = z'.2.clock
  failed : sent = false → z'.1.sys.srv.sessions = z.1.sys.srv.sessions ∧ z'.2.pinged = z.2.pinged ∧
    ∃ d, d.session = none ∧ z'.1.sys.srv.calls = Function.update z.1.sys.srv.calls p (some d)

def Paced (z : Watch × Pace) (_ : WatchLabel) (z' : Watch × Pace) : Prop :=
  pings z'.1.sys.srv = pings z.1.sys.srv ∨ ∃ sent p c q k, Pinged z sent z' p c q k

/-- The worker does not go by a tick that is older than the last frame on the
session of the call that it serves, unless the last ping is too recent. -/
def Fresh (z : Watch × Pace) (a : WatchLabel) (_ : Watch × Pace) : Prop :=
  ∀ env p c q k now, a = .sys (.worker env) → serving z.1.sys = some (p, c, k) →
    c.session = some q → z.1.now = some now → configWebSocketPingDelay ≤ now - k.ulPingTs →
    z.2.alive q ≤ z.2.looked

theorem fresh_paced (hr : Reachable (paced P) z) (h : (paced P).Step z a z') (hf : Fresh z a z') :
    Paced z a z' := by
  obtain ⟨v, g⟩ := z'
  obtain ⟨hstep, rfl⟩ := carry_step_iff.1 h
  have hsys := watch_reachable hr.carried
  have hg := reachable_paceOk hr
  cases watch_step hsys hstep with
  | look => exact .inl rfl
  | worker hy hserving => exact .inl (ticks_pings (step_ticks hsys hy) (fun _ _ => hserving))
  | other hy ha => exact .inl (ticks_pings (step_ticks hsys hy) (fun env he => absurd he (ha env)))
  | @serve p c q k now next env hserving hq hk hnow hnext =>
      have hpings := visited_pings now z.1.sys.srv p c q k env
      cases hdue : due now k with
      | false =>
          rw [hdue] at hpings
          exact .inl (hpings.trans (List.append_nil _))
      | true =>
          rw [hdue] at hpings
          obtain ⟨hidle, hapart⟩ := due_iff.1 hdue
          obtain ⟨halive, hping, -, -⟩ := hg.shown q k hk
          obtain ⟨hserves, hc, -⟩ := serving_eq_some hserving
          have hread := hg.now now hnow
          have hpinged := hg.before (by simp [hnow]) p c q hserves hc hq
          have hfresh := hf env p c q k now rfl hserving hq hnow hapart
          rw [hread, halive] at hidle
          rw [hread, hping] at hapart
          refine .inr ⟨env.pingSent, p, c, q, k, ⟨hserving, hq⟩, hpings,
            Nat.le_trans (le_of_le_stamp_sub hfresh hidle) hg.looked,
            Nat.le_trans (le_of_le_stamp_sub hpinged hapart) hg.looked, fun hsent => ?_, fun hsent => ?_⟩
          · simp [Pace.next, hserving, hnow, hdue, hsent, hq]
          · have hlive : c.ulCallPending = 1 := live_pending hsys hc (by simp [hq])
            refine ⟨?_, ?_, completed c, by simp [completed, hlive], ?_⟩
            · simp [visited, hdue, hsent, Server.setCall, Server.log]
            · simp [Pace.next, hserving, hnow, hdue, hsent]
            · simp [visited, hdue, hsent, Server.setCall, Server.log]

/-- In a run in which the worker never goes by a stale tick every ping is
paced. -/
theorem keepalive_paced {as : List WatchLabel} (hz : (paced P).init z) (h : Along (paced P) Fresh z as z') :
    Along (paced P) Paced z as z' :=
  h.imp_of_reachable (.init hz) (fun _ _ _ hr hstep hf => fresh_paced hr hstep hf)

end Pings

section Samples

def freshOk (z : Watch × Pace) : WatchLabel → Bool
  | .sys (.worker _) => (serving z.1.sys).all (fun (_, c, _) => z.1.now.all (fun _ =>
      c.session.all (fun q => decide (z.2.alive q ≤ z.2.looked))))
  | _ => true

theorem fresh_of_ok {z z' : Watch × Pace} {a : WatchLabel} (h : freshOk z a = true) : Fresh z a z' := by
  rintro env p c q k now rfl hserving hq hnow -
  simpa [freshOk, hserving, hq, hnow] using h

def silent : List WatchLabel :=
  (([.registerQueue 0x1011 (some 0) true true, .connect 0 true] ++ request 0 (0x1011, 4, 5) ++
    request 0 (0x1011, 4, 6) ++ work 1 ++ [.tick 1000] : List Label).map .sys) ++ [.look]

def silentStart : Watch × Pace := (⟨initSystem (fun _ => 10), none⟩, ⟨0, 0, fun _ => 0, fun _ => 0⟩)

def twoPings : List WatchLabel :=
  silent ++ [.sys (.worker okEnv), .sys (.tick 1000), .look,
    .sys (.worker { okEnv with pingSent := false })]

def client : Platform := platform [(0x1011, 4, 5), (0x1011, 4, 6)]

theorem keepalive_twoPings : ∃ z, Along (paced client) Paced silentStart twoPings z ∧
    pings z.1.sys.srv = [(0, true), (0, false)] := by
  have h : (paced client).check freshOk (fun z => pings z.1.sys.srv == [(0, true), (0, false)])
      silentStart twoPings = true := by decide +kernel
  obtain ⟨z, hrun, hz⟩ := exists_of_check h
  exact ⟨z, keepalive_paced ⟨⟨⟨_, rfl⟩, rfl⟩, rfl⟩ (hrun.imp (fun _ _ _ hok => fresh_of_ok hok)),
    beq_iff_eq.1 hz⟩

/-- A frame comes one tick after the worker has read the tick, and before it
compares: it takes the session to be silent for almost 2^32 ticks, and pings. -/
theorem keepalive_stale : ∃ z z' p c q k, Reachable (paced client) z ∧
    (paced client).Step z (.sys (.worker okEnv)) z' ∧ serving z.1.sys = some (p, c, k) ∧
    c.session = some q ∧ pings z'.1.sys.srv = pings z.1.sys.srv ++ [(k.conn, true)] ∧
    z.2.alive q = z.2.clock := by
  have h : (paced client).reaches silentStart
      (silent ++ [.sys (.tick 1), .sys (.frame 0 .pong none true)]) (fun z =>
      (serving z.1.sys).any (fun (_, c, k) => c.session == some 0 && (z.2.alive 0 == z.2.clock &&
        (paced client).reaches z [.sys (.worker okEnv)] (fun z' =>
          pings z'.1.sys.srv == pings z.1.sys.srv ++ [(k.conn, true)])))) = true := by
    decide +kernel
  obtain ⟨z, hrun, hz⟩ := exists_of_reaches h
  obtain ⟨⟨p, c, k⟩, hserving, hz⟩ := (Option.any_eq_true ..).1 hz
  simp only [Bool.and_eq_true, beq_iff_eq] at hz
  obtain ⟨hq, halive, hz⟩ := hz
  obtain ⟨z', hstep, hpings⟩ := exists_step_of_reaches hz
  exact ⟨z, z', p, c, 0, k, ⟨_, _, ⟨⟨⟨_, rfl⟩, rfl⟩, rfl⟩, hrun⟩, hstep, hserving, hq,
    beq_iff_eq.1 hpings, halive⟩

end Samples

end WirelessGateway.Keepalive
