import Mathlib.Logic.Function.Iterate
import WirelessGateway.Answering
import WirelessGateway.Clock

namespace WirelessGateway.Completions

open CJson WirelessGateway.Types Memory WsServer Transport Worker Tasks Sends WellFormed SoftSteps
open Lifecycle Operations Steps Answering Outcomes Updates Clock Lib.Fallible Lib.Runs

variable {P : Platform} {s t u : Server} {p q : CallPtr} {c d : ApiCall} {env : WorkerEnv}
  {x y : System} {a : Label} {cs ds : List CallPtr}

def decremented (n : UInt32) : UInt32 := if n = 0 then 0 else n - 1

/-- The calls keep their pending counts, but for those that are completed, and
new calls have one of 1. -/
structure Settles (cs : List CallPtr) (s t : Server) : Prop where
  nextCall : s.nextCall ≤ t.nextCall
  calls : ∀ p d, t.calls p = some d →
    (∃ c, s.calls p = some c ∧ d.ulCallPending = decremented^[cs.count p] c.ulCallPending) ∨
      (s.nextCall ≤ p ∧ d.ulCallPending = 1)

theorem Settles.same (hn : t.nextCall = s.nextCall) (hc : t.calls = s.calls) : Settles [] s t :=
  ⟨hn.ge, fun _ d hd => .inl ⟨d, hc ▸ hd, rfl⟩⟩

theorem Settles.refl (s : Server) : Settles [] s s := .same rfl rfl

theorem Settles.trans (h : Settles cs s t) (h' : Settles ds t u) (hds : ∀ p ∈ ds, p < s.nextCall) :
    Settles (cs ++ ds) s u where
  nextCall := h.nextCall.trans h'.nextCall
  calls p e he := by
    rcases h'.calls p e he with ⟨d, hd, hpend⟩ | ⟨hle, hpend⟩
    · rcases h.calls p d hd with ⟨c, hc, hpend'⟩ | ⟨hle, hpend'⟩
      · refine .inl ⟨c, hc, ?_⟩
        rw [hpend, hpend', List.count_append, Nat.add_comm, Function.iterate_add_apply]
      · have hnone : ds.count p = 0 := List.count_eq_zero.2 (fun hm => Nat.not_lt_of_le hle (hds p hm))
        rw [hnone] at hpend
        exact .inr ⟨hle, hpend.trans hpend'⟩
    · exact .inr ⟨h.nextCall.trans hle, hpend⟩

theorem Settles.setCall (hc : s.calls p = some c) (h : d.ulCallPending = c.ulCallPending) :
    Settles [] s (s.setCall p d) := by
  refine ⟨Nat.le_refl _, fun q e he => .inl ?_⟩
  by_cases hq : q = p
  · subst hq
    simp only [Server.setCall, Function.update_self, Option.some.injEq] at he
    exact ⟨c, hc, he ▸ h⟩
  · simp only [Server.setCall, Function.update_of_ne hq] at he
    exact ⟨e, he, rfl⟩

instance : Admits (Settles []) where
  log _ _ _ := .same rfl rfl
  setCall hc _ _ hpend := .setCall hc hpend
  allocData _ _ _ _ _ := .same rfl rfl
  send _ _ _ := .same rfl rfl
  release _ := .same rfl rfl
  transferred _ _ := .same rfl rfl
  allocCall s _ h := by
    refine ⟨Nat.le_succ _, fun p d hd => ?_⟩
    by_cases hp : p = s.nextCall
    · subst hp
      simp only [Server.allocCall, Function.update_self, Option.some.injEq] at hd
      exact .inr ⟨Nat.le_refl _, hd ▸ h⟩
    · simp only [Server.allocCall, Function.update_of_ne hp] at hd
      exact .inl ⟨d, hd, rfl⟩
  unlink _ _ := .same rfl rfl
  toCalls _ _ := .same rfl rfl
  toWaiting _ _ := .same rfl rfl
  free s p := by
    refine ⟨Nat.le_refl _, fun q d hd => .inl ?_⟩
    by_cases hq : q = p
    · simp [hq] at hd
    · simp only [Function.update_of_ne hq] at hd
      exact ⟨d, hd, rfl⟩
  close _ _ := .same rfl rfl
  freeSession _ _ := .same rfl rfl
  periph _ _ _ := .same rfl rfl
  worker _ _ _ _ := .same rfl rfl

theorem settles_of_writes (h : Relation.ReflTransGen (Settles []) s t) : Settles [] s t := by
  induction h with
  | refl => exact .refl s
  | tail _ hstep ih => exact ih.trans hstep (fun _ hp => absurd hp List.not_mem_nil)

theorem through_settles {α : Type} {srv : α → Server} {op : Fallible α}
    (h : Through (Settles []) s srv op) : Yields op (fun r => Settles [] s (srv r)) :=
  h.mono (fun _ ht => settles_of_writes ht)

theorem Settles.quiet (h : Settles cs s t) (h' : Settles [] t u) : Settles cs s u := by
  rw [← List.append_nil cs]
  exact h.trans h' (fun _ hp => absurd hp List.not_mem_nil)

theorem Settles.after (h : Settles [] s t) (h' : Settles cs t u) (hcs : ∀ p ∈ cs, p < s.nextCall) :
    Settles cs s u := by
  rw [← List.nil_append cs]
  exact h.trans h' hcs

section Calls

def completion (s : Server) (q : CallPtr) : List CallPtr := if (s.calls q).isSome then [q] else []

theorem completion_lt (hs : WF s) : ∀ p ∈ completion s q, p < s.nextCall := by
  intro p hp
  rw [completion] at hp
  split at hp
  · rename_i hq
    rw [List.mem_singleton.1 hp]
    exact hs.nextCall q hq
  · cases hp

theorem settles_completed (hc : s.calls p = some c) : Settles [p] s (s.setCall p (completed c)) := by
  refine ⟨Nat.le_refl _, fun q d hd => .inl ?_⟩
  by_cases hq : q = p
  · subst hq
    simp only [Server.setCall, Function.update_self, Option.some.injEq] at hd
    refine ⟨c, hc, ?_⟩
    rw [List.count_singleton_self, ← hd]
    rfl
  · simp only [Server.setCall, Function.update_of_ne hq] at hd
    refine ⟨d, hd, ?_⟩
    rw [List.count_singleton, if_neg (by simpa using Ne.symm hq)]
    rfl

theorem vApiCallComplete_settles (hs : WF s) (q : CallPtr) :
    Yields (vApiCallComplete s q) (Settles (completion s q) s) := by
  cases hc : s.calls q with
  | some c =>
    rw [vApiCallComplete_eq hs hc, completion, hc, Option.isSome_some, if_pos rfl]
    exact .pure (settles_completed hc)
  | none =>
    have hout : ¬ (q ∈ s.pxWsApiCall ∨ q ∈ s.pxWsApiWaitingForResponse) := by
      intro hm
      obtain ⟨c, hc'⟩ := hs.call_of_mem hm
      rw [hc] at hc'
      cases hc'
    rw [vApiCallComplete, if_neg hout, completion, hc, Option.isSome_none, if_neg (by decide)]
    exact .pure (.refl s)

end Calls

section Worker

def completedBy (s : Server) : HandlerAction → List CallPtr
  | .complete q => completion s q
  | _ => []

def completedIn (s : Server) (p : CallPtr) (env : WorkerEnv) : List CallPtr :=
  if (s.calls p).any (fun c => c.fHandler.isSome) then env.handler.flatMap (completedBy s) else []

/-- A call whose ping cannot be sent is completed. -/
def unreachable (x : System) (env : WorkerEnv) : List CallPtr :=
  match serving x with
  | some (p, _, k) => if due x.srv.tick k && !env.pingSent then [p] else []
  | none => []

/-- The calls that a step completes: for a task, for a handler, and for want of
a connection. -/
def completions (x : System) : Label → List CallPtr
  | .complete q => completion x.srv q
  | .worker env => (answering x).elim (unreachable x env) (fun r => completedIn x.srv r.2 env)
  | _ => []

theorem bApiCallUnregister_settles (s : Server) (fid : UInt32) (took : Bool) :
    Yields (bApiCallUnregister s fid took) (fun r => Settles [] s r.1) := by
  unfold bApiCallUnregister
  split_ifs
  · exact .pure (.refl s)
  · exact .pure (.refl s)
  · refine .bind (fun t ht => .pure ?_)
    have hbreak := (through_settles (vBreakApiCallsByFid_through s fid)).result t ht
    exact hbreak.quiet (.same rfl rfl)
  · exact .pure (.refl s)

theorem bApiCallRegister_settles (s : Server) (h : Option HandlerId) (fid : UInt32) (ctx : Nat)
    (took alloc : Bool) : Settles [] s (bApiCallRegister s h fid ctx took alloc).1 := by
  unfold bApiCallRegister
  split
  · exact .refl s
  · split_ifs <;> exact .same rfl rfl

theorem handlerAction_settles (hs : WF s) (p : CallPtr) (act : HandlerAction) :
    Yields (handlerAction p s act) (Settles (completedBy s act) s) := by
  cases act with
  | sendJson | sendStatus | sendGroup =>
    exact .bind (fun r hr => .pure ((through_settles (apiCallSendJson_through ..)).result r hr))
  | setContext ctx => exact through_settles (modifyCall_through (fun c => .context c ctx))
  | complete q => exact vApiCallComplete_settles hs q
  | register hd fid ctx alloc => exact .pure (bApiCallRegister_settles s hd fid ctx true alloc)
  | unregister fid => exact .bind (fun r hr => .pure ((bApiCallUnregister_settles s fid true).result r hr))

theorem completedBy_lt (hs : WF s) (act : HandlerAction) : ∀ p ∈ completedBy s act, p < s.nextCall := by
  cases act with
  | complete q => exact completion_lt hs
  | _ => exact fun p hp => absurd hp List.not_mem_nil

theorem completedBy_soft (h : Soft s t) : completedBy t = completedBy s := by
  funext act
  cases act with
  | complete q =>
    rw [completedBy, completedBy, completion, completion, h.isSome q]
  | _ => rfl

theorem actions_settle (hs : Sound s) (hc : s.calls p = some c) (acts : List HandlerAction) :
    Yields (acts.foldlM (handlerAction p) s) (Settles (acts.flatMap (completedBy s)) s) := by
  induction acts generalizing s c with
  | nil => exact .pure (.refl s)
  | cons act acts ih =>
    rw [List.foldlM_cons, List.flatMap_cons]
    refine .bind (fun t ht => ?_)
    obtain ⟨hsoft, hn⟩ := (handlerAction_calm hs hc act).eq_ok ht
    obtain ⟨d, hd, -⟩ := hsoft.call hc
    have hfirst := (handlerAction_settles hs.wf p act).result t ht
    have hrest := ih (Soft.sound hsoft hs hn) hd
    rw [completedBy_soft hsoft] at hrest
    refine hrest.mono (fun u hu => hfirst.trans hu (fun q hq => ?_))
    obtain ⟨act', -, hq'⟩ := List.mem_flatMap.1 hq
    exact completedBy_lt hs.wf act' q hq'

theorem invokeHandler_settles (hs : Sound s) (hc : s.calls p = some c) (env : WorkerEnv) :
    Yields (invokeHandler s p env) (Settles (completedIn s p env) s) := by
  rw [invokeHandler, call_eq hc, ok_bind, completedIn, hc, Option.any_some]
  split_ifs
  · exact actions_settle hs hc env.handler
  · exact .pure (.refl s)

theorem respond_settles (hs : Sound s) (hc : s.calls p = some c) (r : Reply) (env : WorkerEnv) :
    Yields (respond s p r env) (Settles (completedIn s p env) s) := by
  have hfinish : ∀ t : Server, Settles (completedIn s p env) s t → Yields (do
      let call ← t.call p
      let u := t.log (.respond p r)
      if !call.longTerm then (u.unlink p).freeCall p
      else
        let v ← u.modifyCall p (fun c => c.setNextPoll (u.tick + c.ulPollIntervalTicks))
        pure (v.toCalls p)) (Settles (completedIn s p env) s) := by
    intro t ht
    have hlog : Settles (completedIn s p env) s (t.log (.respond p r)) := ht.quiet (.same rfl rfl)
    refine .bind (fun d hd => ?_)
    dsimp only
    split_ifs
    · exact (through_settles unlink_free_through).mono (fun u hu => hlog.quiet hu)
    · refine .bind (fun v hv => .pure ?_)
      obtain ⟨e, he, hv⟩ := bind_eq_ok hv
      cases hv
      have hpoll : Settles [] (t.log (.respond p r)) ((t.log (.respond p r)).setCall p
          (e.setNextPoll (t.tick + e.ulPollIntervalTicks))) := .setCall (calls_of_call he) rfl
      exact (hlog.quiet hpoll).quiet (.same rfl rfl)
  refine .bind (fun t ht => ?_)
  have hinvoked := (invokeHandler_settles hs hc env).result t ht
  dsimp only
  split_ifs
  · refine .bind (fun u hu => hfinish u.1 (hinvoked.quiet ?_))
    exact (through_settles (apiCallSendJson_through t .worker (some p) 0 (.reply r) env.reply)).result u hu
  · exact hfinish t hinvoked

theorem served_settles (hr : Reachable (machine P) x) (hserve : serves x.worker = some p)
    (ht : vServeApiCall x.srv p env = .ok t) : Settles (unreachable x env) x.srv t := by
  have hs := (reachable_inv hr).sound.wf
  obtain ⟨c, hc⟩ := serves_call hr hserve
  cases hq : c.session with
  | none =>
    have hserving : serving x = none := by simp [serving, hserve, target_eq_none hc hq]
    rw [unreachable, hserving]
    rw [vServeApiCall_dead hc hq, ← unlink_free hc] at ht
    exact (through_settles unlink_free_through).result t ht
  | some q =>
    obtain ⟨k, hk, htarget⟩ := hs.attached.target hc hq
    have hserving : serving x = some (p, c, k) := by simp [serving, hserve, htarget]
    rw [← serveFrom_tick, serveFrom_live hs hc hq hk, Except.ok.injEq] at ht
    rw [unreachable, hserving, ← ht, visited]
    dsimp only
    cases due x.srv.tick k with
    | false => exact .refl x.srv
    | true =>
      cases env.pingSent with
      | false =>
        have hlog : Settles [] x.srv (x.srv.log (.control k.conn .ping false)) := .same rfl rfl
        have hlt : ∀ p' ∈ [p], p' < x.srv.nextCall := by
          rintro p' hp'
          rw [List.mem_singleton.1 hp']
          exact hs.nextCall p (by rw [hc]; rfl)
        exact hlog.after (settles_completed hc) hlt
      | true => exact .same rfl rfl

theorem worker_settles (hr : Reachable (machine P) x) (h : (machine P).Step x (.worker env) y) :
    Settles (completions x (.worker env)) x.srv y.srv := by
  have hs := (reachable_inv hr).sound
  have hmove := (worker_move hr h).1
  generalize y.srv = t at hmove ⊢
  generalize y.worker = pc at hmove
  have hnone : answering x = none → serves x.worker = none → completions x (.worker env) = [] := by
    intro hans hserve
    simp [completions, hans, unreachable, serving, hserve]
  have hrespond : ∀ {r p t}, answering x = some (r, p) → respond x.srv p r env = .ok t →
      Settles (completions x (.worker env)) x.srv t := by
    intro r p t hans ht
    obtain ⟨c, hc⟩ := hs.wf.call_of_mem (.inr (answering_waiting hr hans))
    rw [completions, hans]
    exact (respond_settles hs hc r env).result t ht
  cases hmove with
  | turned hturn =>
    rw [hnone (turn_idle hturn).2.2 (turn_idle hturn).1]
    exact .refl x.srv
  | served hserve ht _ =>
    rw [completions, serves_idle hserve]
    exact served_settles hr hserve ht
  | passed hw hr' =>
    rw [hnone (by rw [answering, hw]) (by rw [hw]; rfl)]
    exact (through_settles (forwardItem_through _ _ env)).result _ hr'
  | received hw =>
    rw [hnone (by rw [answering, hw]) (by rw [hw]; rfl)]
    exact .same rfl rfl
  | unanswered hw hans =>
    have hserve : serves x.worker = none := by
      rcases hw with hw | hw
      · rw [hw]
        rfl
      · rw [hw]
        rfl
    rw [hnone hans hserve]
    exact .same rfl rfl
  | answered _ hans ht => exact (hrespond hans ht).quiet (.same rfl rfl)
  | broadcast hw ht => exact hrespond (by rw [answering, hw]) ht

theorem touchSession_settles (s : Server) (u : Option SessPtr) :
    Yields (touchSession s u) (Settles [] s) := by
  cases u with
  | none => exact .pure (.refl s)
  | some q => exact .bind (fun k _ => .pure (.same rfl rfl))

theorem step_settles (hr : Reachable (machine P) x) (h : (machine P).Step x a y) :
    Settles (completions x a) x.srv y.srv := by
  have hstep : step P x a = some (.ok y) := h
  cases a with
  | connect fd alloc => exact lift_result hstep (.pure (by cases alloc <;> exact .same rfl rfl))
  | tick d => exact lift_result hstep (.pure (.same rfl rfl))
  | frame conn type data sent =>
    obtain ⟨k, t, -, ht, hrest, -⟩ := frame_through (R := Settles []) h
    exact ((touchSession_settles _ _).result t ht).quiet (settles_of_writes hrest)
  | worker env => exact worker_settles hr h
  | complete q => exact lift_result hstep (vApiCallComplete_settles (reachable_inv hr).sound.wf q)
  | register hd fid ctx took alloc => exact lift_result hstep (.pure (bApiCallRegister_settles ..))
  | unregister fid took => exact lift_result hstep (.map (bApiCallUnregister_settles ..))
  | registerQueue fid queue took alloc =>
    refine lift_result hstep (.pure ?_)
    unfold wsServerRegisterFidQueue
    split_ifs <;> exact .same rfl rfl
  | _ => exact settles_of_writes (step_pending h rfl rfl rfl rfl)

end Worker

section Inputs

variable {i : List Input}

/-- What happens to a call from outside: the messages of peripherals that the
worker takes for it, and its completions. -/
inductive Input
  | message (call : CallPtr) (msg : WebapiMsg)
  | completion (call : CallPtr)

def messagesOf (x : System) : Label → List Input
  | .worker _ => (answering x).toList.map (fun r => .message r.2 r.1.msg)
  | _ => []

def inputsOf (x : System) (a : Label) : List Input :=
  messagesOf x a ++ (completions x a).map .completion

def Input.completed : Input → Option CallPtr
  | .completion p => some p
  | .message _ _ => none

theorem mem_completed : p ∈ i.filterMap Input.completed ↔ .completion p ∈ i := by
  rw [List.mem_filterMap]
  constructor
  · rintro ⟨e, he, hp⟩
    cases e with
    | message => cases hp
    | completion q =>
      cases hp
      exact he
  · exact fun h => ⟨_, h, rfl⟩

theorem completed_inputs (x : System) (a : Label) :
    (inputsOf x a).filterMap Input.completed = completions x a := by
  have hmessages : (messagesOf x a).filterMap Input.completed = [] := by
    rw [List.filterMap_eq_nil_iff]
    intro e he
    cases a with
    | worker env =>
      obtain ⟨r, -, rfl⟩ := List.mem_map.1 he
      rfl
    | _ => cases he
  rw [inputsOf, List.filterMap_append, hmessages, List.nil_append, List.filterMap_map]
  exact List.filterMap_some

theorem completions_lt (hr : Reachable (machine P) x) (a : Label) :
    ∀ p ∈ completions x a, p < x.srv.nextCall := by
  have hs := (reachable_inv hr).sound.wf
  intro p hp
  cases a with
  | complete q => exact completion_lt hs p hp
  | worker env =>
    rw [completions] at hp
    cases hans : answering x with
    | some r =>
      rw [hans, Option.elim_some, completedIn] at hp
      split at hp
      · obtain ⟨act, -, hact⟩ := List.mem_flatMap.1 hp
        exact completedBy_lt hs act p hact
      · cases hp
    | none =>
      rw [hans, Option.elim_none, unreachable] at hp
      split at hp
      next q c k hserving =>
        obtain ⟨-, hc, -⟩ := serving_eq_some hserving
        split at hp
        · rw [List.mem_singleton.1 hp]
          exact hs.nextCall q (by rw [hc]; rfl)
        · cases hp
      next => cases hp
  | _ => cases hp

theorem decremented_iterate (n : Nat) : decremented^[n] 1 = 0 ↔ n ≠ 0 := by
  cases n with
  | zero => simp
  | succ n =>
    have hzero : decremented 0 = 0 := rfl
    have hone : decremented 1 = 0 := rfl
    rw [Function.iterate_succ_apply, hone, Function.iterate_fixed hzero]
    simp

structure Settled (i : List Input) (s : Server) : Prop where
  known : ∀ p, .completion p ∈ i → p < s.nextCall
  pending : ∀ p c, s.calls p = some c →
    c.ulCallPending = decremented^[(i.filterMap Input.completed).count p] 1

theorem Settled.pending_iff (h : Settled i s) (hc : s.calls p = some c) :
    c.ulCallPending = 0 ↔ .completion p ∈ i := by
  rw [h.pending p c hc, decremented_iterate, ← mem_completed, ← List.count_pos_iff, Nat.pos_iff_ne_zero]

theorem init_settled (depth : QueueId → Nat) : Settled [] (initServer depth) where
  known p hp := absurd hp List.not_mem_nil
  pending p c hc := by cases hc

theorem settled_step (hr : Reachable (machine P) x) (h : (machine P).Step x a y)
    (hi : Settled i x.srv) : Settled (i ++ inputsOf x a) y.srv := by
  have hsettles := step_settles hr h
  refine ⟨fun p hp => ?_, fun p d hd => ?_⟩
  · rw [← mem_completed, List.filterMap_append, completed_inputs, List.mem_append] at hp
    rcases hp with hp | hp
    · exact Nat.lt_of_lt_of_le (hi.known p (mem_completed.1 hp)) hsettles.nextCall
    · exact Nat.lt_of_lt_of_le (completions_lt hr a p hp) hsettles.nextCall
  · rw [List.filterMap_append, completed_inputs, List.count_append]
    rcases hsettles.calls p d hd with ⟨c, hc, hpend⟩ | ⟨hle, hpend⟩
    · rw [hpend, hi.pending p c hc, Nat.add_comm, Function.iterate_add_apply]
    · have hold : (i.filterMap Input.completed).count p = 0 := by
        rw [List.count_eq_zero, mem_completed]
        exact fun hm => Nat.not_lt_of_le hle (hi.known p hm)
      have hnew : (completions x a).count p = 0 :=
        List.count_eq_zero.2 (fun hm => Nat.not_lt_of_le hle (completions_lt hr a p hm))
      rw [hold, hnew]
      exact hpend

end Inputs

end WirelessGateway.Completions
