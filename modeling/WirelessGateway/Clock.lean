import WirelessGateway.Lib.Ticks
import WirelessGateway.Outcomes
import WirelessGateway.Updates

namespace WirelessGateway.Clock

open CJson WirelessGateway.Types Memory WsServer Transport Worker Tasks Sends WellFormed Lifecycle
open Operations Steps WirelessGateway.Lists Outcomes Updates Lib.Fallible Lib.Runs Lib.Ticks

variable {P : Platform} {s t : Server} {p : CallPtr} {c : ApiCall} {q : SessPtr} {k : ApiSession}
  {env : WorkerEnv} {x y : System} {now : UInt32}

section Serve

def serveFrom (now : UInt32) (s : Server) (item : CallPtr) (env : WorkerEnv) : Fallible Server := do
  let call ← s.call item
  match call.session with
  | some q => do
    let sess ← s.session (some q)
    if now - sess.ulAliveTs ≥ configWebSocketPingDelay ∧
        now - sess.ulPingTs ≥ configWebSocketPingDelay then
      let s := s.log (.control sess.conn .ping env.pingSent)
      if !env.pingSent then vApiCallComplete s item
      else
        let s := s.passTicks env.elapsed
        let call ← s.call item
        let sess ← s.session call.session
        pure (s.setSession (call.session.getD 0) { sess with ulPingTs := s.tick })
    else pure s
  | none => (s.unlink item).freeCall item

theorem serveFrom_tick (s : Server) (p : CallPtr) (env : WorkerEnv) :
    serveFrom s.tick s p env = vServeApiCall s p env := rfl

def due (now : UInt32) (k : ApiSession) : Bool :=
  decide (now - k.ulAliveTs ≥ configWebSocketPingDelay) &&
    decide (now - k.ulPingTs ≥ configWebSocketPingDelay)

def visited (now : UInt32) (s : Server) (p : CallPtr) (c : ApiCall) (q : SessPtr) (k : ApiSession)
    (env : WorkerEnv) : Server :=
  if due now k then
    if env.pingSent then
      ((s.log (.control k.conn .ping true)).passTicks env.elapsed).setSession q
        { k with ulPingTs := s.tick + env.elapsed }
    else (s.log (.control k.conn .ping false)).setCall p (completed c)
  else s

theorem due_iff : due now k = true ↔ configWebSocketPingDelay ≤ now - k.ulAliveTs ∧
    configWebSocketPingDelay ≤ now - k.ulPingTs := by
  simp [due]

theorem vApiCallComplete_eq (hs : WF s) (hc : s.calls p = some c) :
    vApiCallComplete s p = .ok (s.setCall p (completed c)) := by
  unfold vApiCallComplete
  rw [if_pos (hs.mem_of_call hc), SoftSteps.modifyCall_eq hc]
  rfl

theorem serveFrom_live (hs : WF s) (hc : s.calls p = some c) (hq : c.session = some q)
    (hk : s.sessions q = some k) (now : UInt32) (env : WorkerEnv) :
    serveFrom now s p env = .ok (visited now s p c q k env) := by
  simp only [serveFrom, call_eq hc, ok_bind, hq, session_eq hk, visited, ge_iff_le, ← due_iff]
  split_ifs with hdue hfail hsent hsent
  · simp [hsent] at hfail
  · rw [Bool.not_eq_true] at hsent
    rw [hsent]
    exact vApiCallComplete_eq (s := s.log (.control k.conn .ping false)) (frames_wf hs [_]) hc
  · rw [hsent]
    have hk' : ((s.log (.control k.conn .ping true)).passTicks env.elapsed).sessions q = some k := hk
    have hc' : ((s.log (.control k.conn .ping true)).passTicks env.elapsed).calls p = some c := hc
    simp only [call_eq hc', hq, session_eq hk', ok_bind]
    rfl
  · simp [hsent] at hfail
  · rfl

def pingTicks (now : UInt32) (k : ApiSession) (env : WorkerEnv) : Nat :=
  if due now k && env.pingSent then env.elapsed.toNat else 0

theorem visited_tick {n : Nat} (hn : s.tick = stamp n) :
    (visited now s p c q k env).tick = stamp (n + pingTicks now k env) := by
  unfold visited pingTicks
  cases due now k with
  | false => exact hn
  | true =>
      cases env.pingSent with
      | false => exact hn
      | true =>
          have htick : s.tick + env.elapsed = stamp (n + env.elapsed.toNat) := by rw [hn, stamp_add]
          exact htick

end Serve

section Steps

def serving (x : System) : Option (CallPtr × ApiCall × ApiSession) :=
  (serves x.worker).bind (fun p => (target x.srv p).map (fun t => (p, t)))

theorem serving_eq_some (h : serving x = some (p, c, k)) : serves x.worker = some p ∧
    x.srv.calls p = some c ∧ ∃ q, c.session = some q ∧ x.srv.sessions q = some k := by
  obtain ⟨p', hp, h⟩ := Option.bind_eq_some_iff.1 h
  obtain ⟨t, ht, he⟩ := Option.map_eq_some_iff.1 h
  cases he
  exact ⟨hp, target_eq_some_iff.1 ht⟩

def spent (x : System) : Label → Nat
  | .tick d => d.toNat
  | .worker env => match serving x with
    | some (_, _, k) => pingTicks x.srv.tick k env
    | none => 0
  | _ => 0

def Unclocked (x : System) : Label → Prop
  | .tick _ | .connect _ _ => False
  | .frame conn _ _ _ => (x.srv.conns conn).bind Conn.userData = none
  | .worker _ => serving x = none
  | _ => True

theorem Unclocked.spent {a : Label} (h : Unclocked x a) : spent x a = 0 := by
  cases a with
  | tick => cases h
  | worker env =>
      have hserving : serving x = none := h
      rw [Clock.spent, hserving]
  | _ => rfl

def answeredIn (x : System) : Label → Option CallPtr
  | .worker _ => (answering x).map Prod.snd
  | _ => none

/-- What a step does to the clocks. The armed call is the one that is answered. -/
inductive Ticks (x : System) : Label → Server → Prop
  | timeless {a : Label} {t : Server} {armed : Option CallPtr} (h : Timeless armed x.srv t)
      (harmed : ∀ p, armed = some p → answeredIn x a = some p) (ha : Unclocked x a) : Ticks x a t
  | tick (d : UInt32) : Ticks x (.tick d) (x.srv.passTicks d)
  | connect (fd : Int) (alloc : Bool) : Ticks x (.connect fd alloc) (wsServerOnConnect x.srv fd alloc)
  | frame {conn : ConnPtr} {type : FrameType} {data : Option Bytes} {sent : Bool} {i : Conn}
      {q : SessPtr} {k : ApiSession} {t : Server} (hi : x.srv.conns conn = some i)
      (hq : i.userData = some q) (hk : x.srv.sessions q = some k)
      (h : Timeless none (x.srv.setSession q { k with ulAliveTs := x.srv.tick }) t) :
      Ticks x (.frame conn type data sent) t
  | serve {p : CallPtr} {c : ApiCall} {q : SessPtr} {k : ApiSession} (env : WorkerEnv)
      (h : serving x = some (p, c, k)) (hq : c.session = some q) (hk : x.srv.sessions q = some k) :
      Ticks x (.worker env) (visited x.srv.tick x.srv p c q k env)

theorem worker_ticks (hr : Reachable (machine P) x) (h : (machine P).Step x (.worker env) y) :
    Ticks x (.worker env) y.srv := by
  have hs := (reachable_inv hr).sound.wf
  have hidle : ∀ {armed}, Timeless armed x.srv y.srv → serves x.worker = none →
      (∀ p, armed = some p → (answering x).map Prod.snd = some p) → Ticks x (.worker env) y.srv :=
    fun ht hserves harmed => .timeless ht harmed (by simp [Unclocked, serving, hserves])
  have hquiet : Timeless none x.srv y.srv → serves x.worker = none → Ticks x (.worker env) y.srv :=
    fun ht hserves => hidle ht hserves (by simp)
  have hmove := (worker_move hr h).1
  generalize y.srv = t at hmove hidle hquiet
  generalize y.worker = pc at hmove
  cases hmove with
  | turned hturn => exact hquiet (.refl _) (turn_idle hturn).1
  | @served p t _ hserve ht _ =>
      obtain ⟨c, hc⟩ := serves_call hr hserve
      cases hq : c.session with
      | none =>
          have hplain : Steady x.srv t := (unlink_free_through (s := x.srv) (p := p)).result t ?_
          · refine .timeless hplain.timeless (by simp) ?_
            simp [Unclocked, serving, hserve, target_eq_none hc hq]
          · rw [← ht, vServeApiCall_dead hc hq, unlink_free hc]
      | some q =>
          obtain ⟨k, hk, htarget⟩ := hs.attached.target hc hq
          rw [← serveFrom_tick, serveFrom_live hs hc hq hk, Except.ok.injEq] at ht
          rw [← ht]
          exact .serve env (by simp [serving, hserve, htarget]) hq hk
  | @passed p r hw hr' =>
      have hsteady : Steady x.srv r.1 := (forwardItem_through x.srv p env).result r hr'
      exact hquiet hsteady.timeless (by rw [hw]; rfl)
  | received hw _ =>
      exact hquiet (Plain.worker x.srv _ _ _).timeless (by rw [hw]; rfl)
  | @unanswered r hw _ =>
      have hsteady : Steady x.srv (x.srv.handled r) :=
        (Plain.worker x.srv x.srv.xWsWorkerQueue none x.srv.nextReply).steady.tail (.log _ rfl)
      refine hquiet hsteady.timeless ?_
      rcases hw with hw | hw
      · rw [hw]
        rfl
      · rw [hw]
        rfl
  | @answered r p t hw hans ht =>
      have hsteady : Steady t (t.handled r) :=
        (Plain.worker t t.xWsWorkerQueue none t.nextReply).steady.tail (.log _ rfl)
      have htime := ((respond_responds x.srv p r env).result t ht).timeless
      refine hidle (htime.trans hsteady.timeless.arm) (by rw [hw]; rfl) ?_
      rintro p' he
      cases he
      rw [hans, Option.map_some]
  | @broadcast r p _ t hw ht =>
      refine hidle ((respond_responds x.srv p r env).result t ht).timeless (by rw [hw]; rfl) ?_
      rintro p' he
      cases he
      rw [answering, hw, Option.map_some]

theorem step_ticks {a : Label} (hr : Reachable (machine P) x) (h : (machine P).Step x a y) :
    Ticks x a y.srv := by
  have hs := (reachable_inv hr).sound.wf
  have hstep : step P x a = some (.ok y) := h
  by_cases ha : setsClock a = false
  · refine .timeless (step_steady h ha).timeless (by simp) ?_
    cases a with
    | tick | connect | frame | worker => cases ha
    | _ => trivial
  · cases a with
    | tick d =>
        rw [lift_result hstep (Q := fun t => t = x.srv.passTicks d) (.pure rfl)]
        exact .tick d
    | connect fd alloc =>
        rw [lift_result hstep (Q := fun t => t = wsServerOnConnect x.srv fd alloc) (.pure rfl)]
        exact .connect fd alloc
    | worker env => exact worker_ticks hr h
    | frame conn type data sent =>
        obtain ⟨i, t, hi, ht, hwrites, -⟩ := frame_through (R := Plain) h
        have hsteady : Steady t y.srv := hwrites
        cases hq : i.userData with
        | none =>
            rw [hq] at ht
            cases ht
            exact .timeless hsteady.timeless (by simp) (by simp [Unclocked, hi, hq])
        | some q =>
            obtain ⟨k, hk, -⟩ := hs.userData conn i q hi hq
            simp only [hq, touchSession, session_eq hk, ok_bind] at ht
            cases ht
            exact .frame hi hq hk hsteady.timeless
    | _ => exact absurd rfl ha

theorem Ticks.stamp {a : Label} {n : Nat} (h : Ticks x a t) (hn : x.srv.tick = stamp n) :
    t.tick = stamp (n + spent x a) := by
  cases h with
  | timeless h _ ha => rw [h.tick, ha.spent, hn, Nat.add_zero]
  | tick d => rw [Server.passTicks, hn, stamp_add]; rfl
  | connect fd alloc =>
      cases alloc with
      | true => exact hn
      | false => exact hn
  | frame hi hq hk h => exact h.tick.trans hn
  | serve env h hq hk =>
      simp only [spent, h]
      exact visited_tick hn

theorem Ticks.polls {a : Label} (h : Ticks x a t) (hp : answeredIn x a ≠ some p)
    {d : ApiCall} (hd : t.calls p = some d) (hlt : p < x.srv.nextCall) :
    ∃ c, x.srv.calls p = some c ∧ d.ulNextPollTick = c.ulNextPollTick := by
  cases h with
  | timeless h harmed _ =>
      exact h.polls p d (fun he => hp (harmed p he.symm)) hd hlt
  | tick => exact ⟨d, hd, rfl⟩
  | connect fd alloc =>
      cases alloc with
      | true => exact ⟨d, hd, rfl⟩
      | false => exact ⟨d, hd, rfl⟩
  | frame hi hq hk h => exact h.polls p d (Option.some_ne_none p) hd hlt
  | @serve p' c q k env h hq hk =>
      unfold visited at hd
      split_ifs at hd
      · exact ⟨d, hd, rfl⟩
      · by_cases hpp : p = p'
        · subst hpp
          rw [setCall_calls_self, Option.some.injEq] at hd
          exact ⟨c, (serving_eq_some h).2.1, hd ▸ rfl⟩
        · rw [setCall_calls_ne hpp] at hd
          exact ⟨d, hd, rfl⟩
      · exact ⟨d, hd, rfl⟩

end Steps

end WirelessGateway.Clock
