import WirelessGateway.ForwardPass
import WirelessGateway.Lists

namespace WirelessGateway.Outcomes

open CJson WirelessGateway.Types Memory WsServer Worker Tasks Buffers Sends WellFormed SoftSteps
open Lifecycle Operations Forwarding ForwardPass Answering Steps WirelessGateway.Lists Lib.Linked Lib.Fallible
open Lib.Runs

variable {P : Platform} {s t : Server} {p : CallPtr} {c : ApiCall} {env : WorkerEnv} {x y : System}

/-- Where the worker goes from a point at which it does nothing. -/
def turn (s : Server) : WorkerPc → Option WorkerPc
  | .idle => some (.serveCalls s.pxWsApiCall.head?)
  | .serveCalls none => some (.serveWaiting s.pxWsApiWaitingForResponse.head?)
  | .serveWaiting none => some .served
  | .served => some (.forward s.pxWsApiCall.head?)
  | .forward none => some .receive
  | .receive => if s.xWsWorkerQueue.isEmpty then some .idle else none
  | .taken r =>
    if r.msg.id = 0 then
      some (.broadcast r (s.pxWsApiWaitingForResponse.find? (isTarget s r.msg.fid)))
    else none
  | _ => none

def serves : WorkerPc → Option CallPtr
  | .serveCalls item | .serveWaiting item => item
  | _ => none

theorem turn_idle {pc : WorkerPc} (h : turn x.srv x.worker = some pc) :
    serves x.worker = none ∧ (∀ q, x.worker ≠ .forward (some q)) ∧ answering x = none := by
  cases hw : x.worker with
  | idle => simp [serves, answering, hw]
  | served => simp [serves, answering, hw]
  | receive => simp [serves, answering, hw]
  | serveCalls item => cases item <;> simp [serves, answering, hw, turn] at h ⊢
  | serveWaiting item => cases item <;> simp [serves, answering, hw, turn] at h ⊢
  | forward item => cases item <;> simp [serves, answering, hw, turn] at h ⊢
  | taken r =>
      rw [hw, turn] at h
      split_ifs at h with hid
      simp [serves, answering, hw, hid]
  | broadcast r it =>
      rw [hw] at h
      cases h

inductive Outcome (x : System) (env : WorkerEnv) : Server → WorkerPc → Prop
  | turned {pc : WorkerPc} (h : turn x.srv x.worker = some pc) : Outcome x env x.srv pc
  | swept {p : CallPtr} {c : ApiCall} {pc : WorkerPc} (h : serves x.worker = some p)
      (hc : x.srv.calls p = some c) (hq : c.session = none) (hpc : Serving pc) :
      Outcome x env (removed x.srv p) pc
  | kept {p : CallPtr} {c : ApiCall} {t : Server} {pc : WorkerPc} (h : serves x.worker = some p)
      (hc : x.srv.calls p = some c) (hq : c.session ≠ none) (hs : Soft x.srv t) (hpc : Serving pc) :
      Outcome x env t pc
  | passed {p : CallPtr} {c : ApiCall} {m : Net} (h : x.worker = .forward (some p))
      (hp : p ∈ x.srv.pxWsApiCall) (hc : x.srv.calls p = some c) :
      Outcome x env ((passed x.srv p c env).withNet m) (.forward ((after p x.srv.pxWsApiCall).filter
        (fun r => ((ForwardPass.passed x.srv p c env).calls r).isSome)).head?)
  | received {r : Reply} {rs : List Reply} (h : x.worker = .receive)
      (hq : x.srv.xWsWorkerQueue = r :: rs) : Outcome x env (x.srv.receive r rs) (.taken r)
  | unanswered {r : Reply} (h : x.worker = .taken r ∨ x.worker = .broadcast r none)
      (hnone : answering x = none) : Outcome x env (x.srv.handled r) .receive
  | answered {r : Reply} {p : CallPtr} {c : ApiCall} {s : Server} {m : Net}
      (h : x.worker = .taken r) (hans : answering x = some (r, p))
      (hp : p ∈ x.srv.pxWsApiWaitingForResponse) (hs : Soft x.srv s) (hc : s.calls p = some c) :
      Outcome x env ((answered (s.withNet m) p c r env.reply).handled r) .receive
  | broadcast {r : Reply} {p : CallPtr} {next : Option CallPtr} {c : ApiCall} {s : Server} {m : Net}
      (h : x.worker = .broadcast r (some p)) (hp : p ∈ x.srv.pxWsApiWaitingForResponse)
      (hs : Soft x.srv s) (hc : s.calls p = some c) :
      Outcome x env (answered (s.withNet m) p c r env.reply) (.broadcast r next)

theorem serve_outcome (hs : Sound x.srv) (hserve : serves x.worker = some p)
    (hc : x.srv.calls p = some c) {pc : WorkerPc} (hpc : Serving pc)
    (h : vServeApiCall x.srv p env = .ok t) : Outcome x env t pc := by
  rcases vServeApiCall_cases hs hc h with ⟨hq, rfl⟩ | ⟨hq, hsoft⟩
  · exact .swept hserve hc hq hpc
  · exact .kept hserve hc hq hsoft hpc

theorem forward_step {x y : System} (hr : Reachable (machine P) x)
    (hpc : x.worker = .forward (some p)) (h : (machine P).Step x (.worker env) y) :
    p ∈ x.srv.pxWsApiCall ∧ ∃ c m, x.srv.calls p = some c ∧
      y = ⟨(passed x.srv p c env).withNet m, .forward ((after p x.srv.pxWsApiCall).filter
        (fun r => ((passed x.srv p c env).calls r).isSome)).head?, x.httpd⟩ := by
  have hx := reachable_inv hr
  have hpcok := hx.pc
  rw [hpc] at hpcok
  have hp := (hpcok.2 p rfl).1
  obtain ⟨c, hc⟩ := hx.sound.wf.call_of_mem (.inl hp)
  obtain ⟨m, -, he⟩ := forwardItem_eq hx.sound hp hc env
  have hstep : (workerStep x.srv x.worker env).map (fun r => (⟨r.1, r.2, x.httpd⟩ : System)) =
      .ok y := Option.some.inj h
  simp only [hpc, workerStep, he, ok_bind] at hstep
  cases hstep
  exact ⟨hp, c, m, hc, rfl⟩

theorem serves_idle (h : serves x.worker = some p) : answering x = none := by
  cases hw : x.worker <;> simp [serves, answering, hw] at h ⊢

/-- A micro-step of the worker, with the operation that it runs. -/
inductive Move (x : System) (env : WorkerEnv) : Server → WorkerPc → Prop
  | turned {pc : WorkerPc} (h : turn x.srv x.worker = some pc) : Move x env x.srv pc
  | served {p : CallPtr} {t : Server} {pc : WorkerPc} (h : serves x.worker = some p)
      (ht : vServeApiCall x.srv p env = .ok t) (hpc : Serving pc) : Move x env t pc
  | passed {p : CallPtr} {r : Server × Option CallPtr} (h : x.worker = .forward (some p))
      (hr : forwardItem x.srv p env = .ok r) : Move x env r.1 (.forward r.2)
  | received {r : Reply} {rs : List Reply} (h : x.worker = .receive)
      (hq : x.srv.xWsWorkerQueue = r :: rs) : Move x env (x.srv.receive r rs) (.taken r)
  | unanswered {r : Reply} (h : x.worker = .taken r ∨ x.worker = .broadcast r none)
      (hnone : answering x = none) : Move x env (x.srv.handled r) .receive
  | answered {r : Reply} {p : CallPtr} {t : Server} (h : x.worker = .taken r)
      (hans : answering x = some (r, p)) (ht : respond x.srv p r env = .ok t) :
      Move x env (t.handled r) .receive
  | broadcast {r : Reply} {p : CallPtr} {next : Option CallPtr} {t : Server}
      (h : x.worker = .broadcast r (some p)) (ht : respond x.srv p r env = .ok t) :
      Move x env t (.broadcast r next)

theorem worker_move (hr : Reachable (machine P) x) (h : (machine P).Step x (.worker env) y) :
    Move x env y.srv y.worker ∧ y.httpd = x.httpd := by
  have hs := (reachable_inv hr).sound.wf
  obtain ⟨⟨t, pc⟩, hstep, rfl⟩ := map_eq_ok (Option.some.inj h)
  refine ⟨?_, rfl⟩
  have hturn : ∀ pc', workerStep x.srv x.worker env = .ok (x.srv, pc') →
      turn x.srv x.worker = some pc' → Move x env t pc := by
    intro pc' he ht
    rw [he] at hstep
    cases hstep
    exact .turned ht
  have hserve : ∀ (found : Fallible (Option CallPtr)) (f : Option CallPtr → WorkerPc) (p : CallPtr),
      workerStep x.srv x.worker env = (do
        let n ← found
        let u ← vServeApiCall x.srv p env
        pure (u, f n)) → serves x.worker = some p → (∀ n, Serving (f n)) → Move x env t pc := by
    intro found f p he hserves hserving
    rw [he] at hstep
    obtain ⟨n, -, hstep⟩ := bind_eq_ok hstep
    obtain ⟨u, hu, he⟩ := bind_eq_ok hstep
    cases he
    exact .served hserves hu (hserving n)
  cases hw : x.worker with
  | idle => exact hturn _ (by rw [hw]; rfl) (by rw [hw]; rfl)
  | served => exact hturn _ (by rw [hw]; rfl) (by rw [hw]; rfl)
  | serveCalls item =>
      cases item with
      | none => exact hturn _ (by rw [hw]; rfl) (by rw [hw]; rfl)
      | some p => exact hserve _ .serveCalls p (by rw [hw]; rfl) (by rw [hw]; rfl) (fun _ => trivial)
  | serveWaiting item =>
      cases item with
      | none => exact hturn _ (by rw [hw]; rfl) (by rw [hw]; rfl)
      | some p => exact hserve _ .serveWaiting p (by rw [hw]; rfl) (by rw [hw]; rfl) (fun _ => trivial)
  | forward item =>
      cases item with
      | none => exact hturn _ (by rw [hw]; rfl) (by rw [hw]; rfl)
      | some p =>
          rw [hw] at hstep
          obtain ⟨u, hu, he⟩ := bind_eq_ok hstep
          cases he
          exact .passed hw hu
  | receive =>
      rw [hw] at hstep
      cases hq : x.srv.xWsWorkerQueue with
      | nil => exact hturn .idle (by simp [hw, workerStep, hq]) (by simp [hw, turn, hq])
      | cons r rs =>
          simp only [workerStep, hq] at hstep
          cases hstep
          exact .received hw hq
  | taken r =>
      rw [hw] at hstep
      by_cases hid : r.msg.id = 0
      · refine hturn (.broadcast r _) ?_ (by rw [hw, turn, if_pos hid])
        rw [hw, workerStep, if_pos hid, findFirst_fid hs, ok_bind]
        rfl
      · simp only [workerStep, hid, if_false, findFirst_id hs, ok_bind] at hstep
        cases hp : picked x.srv r.msg.id with
        | none =>
            rw [hp] at hstep
            cases hstep
            exact .unanswered (.inl hw) (by simp [answering, hw, hid, hp])
        | some p =>
            rw [hp] at hstep
            obtain ⟨u, hu, he⟩ := bind_eq_ok hstep
            cases he
            exact .answered hw (by simp [answering, hw, hid, hp]) hu
  | broadcast r it =>
      rw [hw] at hstep
      cases it with
      | none =>
          cases hstep
          exact .unanswered (.inr hw) (by simp [answering, hw])
      | some p =>
          obtain ⟨n, -, hstep⟩ := bind_eq_ok hstep
          obtain ⟨u, hu, he⟩ := bind_eq_ok hstep
          cases he
          exact .broadcast hw hu

theorem serves_call (hr : Reachable (machine P) x) (h : serves x.worker = some p) :
    ∃ c, x.srv.calls p = some c := by
  have hx := reachable_inv hr
  have hpc := hx.pc
  cases hw : x.worker with
  | serveCalls item =>
      rw [hw] at h hpc
      exact hx.sound.wf.call_of_mem (.inl (hpc.2 p h))
  | serveWaiting item =>
      rw [hw] at h hpc
      exact hx.sound.wf.call_of_mem (.inr (hpc.2 p h))
  | _ => simp [serves, hw] at h

theorem worker_outcome (hr : Reachable (machine P) x) (h : (machine P).Step x (.worker env) y) :
    Outcome x env y.srv y.worker ∧ y.httpd = x.httpd := by
  have hs := (reachable_inv hr).sound
  obtain ⟨hmove, hhttpd⟩ := worker_move hr h
  refine ⟨?_, hhttpd⟩
  have hrespond : ∀ {r p t}, answering x = some (r, p) → respond x.srv p r env = .ok t →
      p ∈ x.srv.pxWsApiWaitingForResponse ∧ ∃ s c m, Soft x.srv s ∧ s.calls p = some c ∧
        t = answered (s.withNet m) p c r env.reply := by
    intro r p t hans ht
    have hp := answering_waiting hr hans
    obtain ⟨s, c, m, hsoft, hc, -, -, hu, -⟩ := (respond_returns hs hp r env).eq_ok ht
    exact ⟨hp, s, c, m, hsoft, hc, hu⟩
  generalize hsrv : y.srv = t at hmove
  generalize hpc : y.worker = pc at hmove
  cases hmove with
  | turned hturn => exact .turned hturn
  | served hserve ht hserving =>
      obtain ⟨c, hc⟩ := serves_call hr hserve
      exact serve_outcome hs hserve hc hserving ht
  | passed hw _ =>
      rw [← hsrv, ← hpc]
      obtain ⟨hp, c, m, hc, rfl⟩ := forward_step hr hw h
      exact .passed hw hp hc
  | received hw hq => exact .received hw hq
  | unanswered hw hnone => exact .unanswered hw hnone
  | answered hw hans ht =>
      obtain ⟨hp, s, c, m, hsoft, hc, rfl⟩ := hrespond hans ht
      exact .answered hw hans hp hsoft hc
  | broadcast hw ht =>
      obtain ⟨hp, s, c, m, hsoft, hc, rfl⟩ := hrespond (by rw [answering, hw]) ht
      exact .broadcast hw hp hsoft hc

theorem step_outcome {a : Label} (hr : Reachable (machine P) x) (h : (machine P).Step x a y) :
    (∃ env, a = .worker env ∧ Outcome x env y.srv y.worker) ∨
    ((∀ env, a ≠ .worker env) ∧ y.worker = x.worker ∧
      Apart P anything x.worker.locked x.srv y.srv) := by
  rcases worker_or_other a with ⟨env, rfl⟩ | hne
  · exact .inl ⟨env, rfl, (worker_outcome hr h).1⟩
  · obtain ⟨z, hz, hworker, hapart⟩ := step_apart (reachable_inv hr) hne (allows_anything P x a) h
    cases hz
    exact .inr ⟨hne, hworker, hapart⟩

def isAside : Event → Bool
  | .forward .. | .refuse _ | .stall _ | .respond .. | .handled _ => false
  | .queue _ _ _ _ _ (.reply _) _ => false
  | _ => true

theorem soft_aside {e : Event} (he : SoftEvent s e) : isAside e = true := by
  cases e with
  | queue src q conn fid sid arg sent =>
      obtain ⟨-, -, -, -, -, harg, -⟩ := he
      cases arg with
      | reply r => exact absurd rfl (harg r)
      | status | json => rfl
  | control => rfl
  | _ => cases he

theorem outer_aside {G : Guard} (h : Outer P G s t) :
    ∃ evs, t.trace = s.trace ++ evs ∧ ∀ e ∈ evs, isAside e = true := by
  have hone : ∀ {e : Event}, t.trace = s.trace ++ [e] → isAside e = true →
      ∃ evs, t.trace = s.trace ++ evs ∧ ∀ e ∈ evs, isAside e = true :=
    fun ht he => ⟨_, ht, fun e' he' => List.mem_singleton.1 he' ▸ he⟩
  cases h with
  | same | take | post | drop => exact ⟨[], (List.append_nil _).symm, by simp⟩
  | @connect fd alloc => cases alloc <;> exact hone rfl rfl
  | @disconnect conn k hk hq =>
      refine hone (e := .disconnect conn) ?_ rfl
      cases k.userData <;> rfl
  | accept => exact hone rfl rfl
  | @reject conn evs hk hev =>
      refine ⟨evs ++ [.free s.nextCall], by simp [rejected], fun e he => ?_⟩
      rcases List.mem_append.1 he with he | he
      · obtain ⟨fid, sid, sta, sent, rfl⟩ := hev e he
        rfl
      · rw [List.mem_singleton.1 he]
        rfl

theorem apart_trace {G : Guard} {l : Bool} (h : Apart P G l s t) :
    ∃ evs, t.trace = s.trace ++ evs ∧ ∀ e ∈ evs, isAside e = true := by
  obtain ⟨s', hsoft, houter⟩ := h.1.outer
  obtain ⟨evs, ht, haside⟩ := hsoft.trace
  obtain ⟨evs', ht', haside'⟩ := outer_aside houter
  refine ⟨evs ++ evs', by rw [ht', ht, List.append_assoc], fun e he => ?_⟩
  rcases List.mem_append.1 he with he | he
  · exact soft_aside (haside e he)
  · exact haside' e he

end WirelessGateway.Outcomes
