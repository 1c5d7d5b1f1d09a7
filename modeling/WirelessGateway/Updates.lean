import WirelessGateway.Lib.Fallible
import WirelessGateway.Tasks

namespace WirelessGateway.Updates

open CJson WirelessGateway.Types Memory WsServer Transport Worker Tasks Lib.Fallible Lib.Runs

variable {P : Platform} {s t u : Server} {p : CallPtr} {c d : ApiCall}

def completed (c : ApiCall) : ApiCall :=
  let pending := if c.ulCallPending = 0 then 0 else c.ulCallPending - 1
  { c with ulCallPending := pending, session := if pending = 0 then none else c.session }

inductive Change : ApiCall → ApiCall → Prop
  | dropSession (c : ApiCall) : Change c c.dropSession
  | dropReqData (c : ApiCall) : Change c c.dropReqData
  | clearNew (c : ApiCall) : Change c c.clearNew
  | nextPoll (c : ApiCall) (t : UInt32) : Change c (c.setNextPoll t)
  | context (c : ApiCall) (ctx : Nat) : Change c { c with pxHandlerContext := ctx }
  | complete (c : ApiCall) : Change c (completed c)

/-- The single writes that all operations of the server are made of. -/
inductive Update : Server → Server → Prop
  | log (s : Server) (e : Event) : Update s (s.log e)
  | call {s : Server} {p : CallPtr} {c d : ApiCall} (hc : s.calls p = some c) (h : Change c d) :
      Update s (s.setCall p d)
  | allocData (s : Server) (targets : Nat) (fid sid : UInt32) (arg : Payload) :
      Update s (s.allocData targets fid sid arg)
  | send {s : Server} {p : CallPtr} {c : ApiCall} {q : SessPtr} {x : ApiSession} {b : BufPtr}
      (hc : s.calls p = some c) (hq : c.session = some q) (hx : s.sessions q = some x) :
      Update s (s.withNet { s.net with inflight := s.net.inflight ++ [⟨q, x.fd, b⟩] })
  | release {s : Server} {b : BufPtr} {n : Net} (h : s.net.release b = .ok n) : Update s (s.withNet n)
  | transferred (s : Server) (i : Nat) :
      Update s (s.withNet { s.net with inflight := s.net.inflight.eraseIdx i })
  | allocCall {s : Server} {c : ApiCall} (h : c.ulCallPending = 1) : Update s (s.allocCall c)
  | unlink (s : Server) (p : CallPtr) : Update s (s.unlink p)
  | toCalls (s : Server) (p : CallPtr) : Update s (s.toCalls p)
  | toWaiting (s : Server) (p : CallPtr) : Update s (s.toWaiting p)
  | free (s : Server) (p : CallPtr) : Update s { s with calls := Function.update s.calls p none }
  | session {s : Server} {q : SessPtr} {x y : ApiSession} (hx : s.sessions q = some x)
      (hfd : y.fd = x.fd) : Update s (s.setSession q y)
  | connect (s : Server) (fd : Int) (alloc : Bool) : Update s (wsServerOnConnect s fd alloc)
  | close (s : Server) (conn : ConnPtr) : Update s (s.closeConn conn)
  | freeSession (s : Server) (q : SessPtr) :
      Update s { s with sessions := Function.update s.sessions q none }
  | passTicks (s : Server) (d : UInt32) : Update s (s.passTicks d)
  | handlers (s : Server) (hs : List ApiHandlerItem) : Update s { s with pxWsApiHandlers := hs }
  | fidQueues (s : Server) (fs : List FidQueueItem) : Update s { s with pxWsFidQueues := fs }
  | periph (s : Server) (q : QueueId) (d : Periph) : Update s (s.setPeriph q d)
  | worker (s : Server) (rs : List Reply) (r : Option Reply) (n : Nat) :
      Update s { s with xWsWorkerQueue := rs, handling := r, nextReply := n }

abbrev Writes : Server → Server → Prop := Relation.ReflTransGen Update

theorem Update.writes (h : Update s t) : Writes s t := .single h

theorem Writes.changed (h : Writes s t) (hp : p < s.nextCall) (hd : t.calls p = some d) :
    ∃ c, s.calls p = some c ∧ Relation.ReflTransGen Change c d := by
  have hkeep : s.nextCall ≤ t.nextCall ∧
      ∀ d, t.calls p = some d → ∃ c, s.calls p = some c ∧ Relation.ReflTransGen Change c d := by
    clear hd
    induction h with
    | refl => exact ⟨Nat.le_refl _, fun d hd => ⟨d, hd, .refl⟩⟩
    | @tail t u _ hup ih =>
        obtain ⟨hle, hcalls⟩ := ih
        cases hup with
        | @call q e d he hch =>
            refine ⟨hle, fun d' hd' => ?_⟩
            by_cases hq : p = q
            · simp only [Server.setCall, hq, Function.update_self, Option.some.injEq] at hd'
              obtain ⟨c, hc, hch'⟩ := hcalls e (hq ▸ he)
              exact ⟨c, hc, hd' ▸ hch'.tail hch⟩
            · simp only [Server.setCall, Function.update_of_ne hq] at hd'
              exact hcalls d' hd'
        | allocCall =>
            refine ⟨Nat.le_succ_of_le hle, fun d' hd' => hcalls d' ?_⟩
            have hne : p ≠ t.nextCall := Nat.ne_of_lt (Nat.lt_of_lt_of_le hp hle)
            exact (Function.update_of_ne hne _ _).symm.trans hd'
        | free q =>
            refine ⟨hle, fun d' hd' => hcalls d' ?_⟩
            by_cases hq : p = q
            · simp [hq] at hd'
            · exact (Function.update_of_ne hq _ _).symm.trans hd'
        | connect fd alloc => cases alloc <;> exact ⟨hle, hcalls⟩
        | _ => exact ⟨hle, hcalls⟩
  exact hkeep.2 d hd

theorem Writes.preserve {I : Server → Prop} (hI : ∀ s t, Update s t → I s → I t)
    (h : Writes s t) (hs : I s) : I t := by
  induction h with
  | refl => exact hs
  | tail _ h ih => exact hI _ _ h ih

def pingOf : Event → Option (ConnPtr × Bool)
  | .control conn .ping sent => some (conn, sent)
  | _ => none

def pings (s : Server) : List (ConnPtr × Bool) := s.trace.filterMap pingOf

/-- No clock is set and no ping is sent: the ticks, the times of the sessions
and the next polls of the calls, but that of the armed one, are as they were. -/
structure Timeless (armed : Option CallPtr) (s t : Server) : Prop where
  tick : t.tick = s.tick
  sessions : ∀ q x, t.sessions q = some x → s.sessions q = some x
  nextSess : t.nextSess = s.nextSess
  polls : ∀ p d, some p ≠ armed → t.calls p = some d → p < s.nextCall →
    ∃ c, s.calls p = some c ∧ d.ulNextPollTick = c.ulNextPollTick
  nextCall : s.nextCall ≤ t.nextCall
  pings : pings t = pings s

section Timeless

variable {armed : Option CallPtr}

theorem Timeless.refl (s : Server) : Timeless armed s s :=
  ⟨rfl, fun _ _ h => h, rfl, fun _ d _ h _ => ⟨d, h, rfl⟩, Nat.le_refl _, rfl⟩

theorem Timeless.trans (h : Timeless armed s t) (h' : Timeless armed t u) : Timeless armed s u where
  tick := h'.tick.trans h.tick
  sessions q x hx := h.sessions q x (h'.sessions q x hx)
  nextSess := h'.nextSess.trans h.nextSess
  polls p d hp hd hlt := by
    obtain ⟨c, hc, hpoll⟩ := h'.polls p d hp hd (Nat.lt_of_lt_of_le hlt h.nextCall)
    obtain ⟨b, hb, hpoll'⟩ := h.polls p c hp hc hlt
    exact ⟨b, hb, hpoll.trans hpoll'⟩
  nextCall := Nat.le_trans h.nextCall h'.nextCall
  pings := h'.pings.trans h.pings

theorem Timeless.arm (h : Timeless none s t) : Timeless armed s t :=
  { h with polls := fun p d _ => h.polls p d (Option.some_ne_none p) }

end Timeless

structure Plain (s t : Server) : Prop where
  update : Update s t
  timeless : Timeless none s t

abbrev Steady : Server → Server → Prop := Relation.ReflTransGen Plain

theorem Plain.steady (h : Plain s t) : Steady s t := .single h

theorem Steady.writes (h : Steady s t) : Writes s t := by
  induction h with
  | refl => exact .refl
  | tail _ hp ih => exact ih.tail hp.update

theorem Steady.timeless (h : Steady s t) : Timeless none s t := by
  induction h with
  | refl => exact .refl s
  | tail _ hp ih => exact ih.trans hp.timeless

section Plain

theorem Plain.log (s : Server) {e : Event} (he : pingOf e = none) : Plain s (s.log e) :=
  ⟨.log s e, { Timeless.refl s with pings := by simp [Updates.pings, Server.log, he] }⟩

theorem Plain.setCall (hc : s.calls p = some c) (h : Change c d)
    (hpoll : d.ulNextPollTick = c.ulNextPollTick) : Plain s (s.setCall p d) := by
  refine ⟨.call hc h, { @Timeless.refl none s with polls := fun q e _ he _ => ?_ }⟩
  by_cases hq : q = p
  · subst hq
    simp only [Server.setCall, Function.update_self, Option.some.injEq] at he
    exact ⟨c, hc, he ▸ hpoll⟩
  · simp only [Server.setCall, Function.update_of_ne hq] at he
    exact ⟨e, he, rfl⟩

theorem Plain.allocData (s : Server) (targets : Nat) (fid sid : UInt32) (arg : Payload) :
    Plain s (s.allocData targets fid sid arg) :=
  ⟨.allocData s targets fid sid arg, { Timeless.refl s with }⟩

theorem Plain.send {q : SessPtr} {x : ApiSession} {b : BufPtr} (hc : s.calls p = some c)
    (hq : c.session = some q) (hx : s.sessions q = some x) :
    Plain s (s.withNet { s.net with inflight := s.net.inflight ++ [⟨q, x.fd, b⟩] }) :=
  ⟨.send hc hq hx, { Timeless.refl s with }⟩

theorem Plain.release {b : BufPtr} {n : Net} (h : s.net.release b = .ok n) : Plain s (s.withNet n) :=
  ⟨.release h, { Timeless.refl s with }⟩

theorem Plain.transferred (s : Server) (i : Nat) :
    Plain s (s.withNet { s.net with inflight := s.net.inflight.eraseIdx i }) :=
  ⟨.transferred s i, { Timeless.refl s with }⟩

theorem Plain.allocCall (s : Server) (h : c.ulCallPending = 1) : Plain s (s.allocCall c) := by
  refine ⟨.allocCall h, { @Timeless.refl none s with polls := ?_, nextCall := Nat.le_succ _ }⟩
  intro q e _ he hlt
  simp only [Server.allocCall, Function.update_of_ne (Nat.ne_of_lt hlt)] at he
  exact ⟨e, he, rfl⟩

theorem Plain.unlink (s : Server) (p : CallPtr) : Plain s (s.unlink p) :=
  ⟨.unlink s p, { Timeless.refl s with }⟩

theorem Plain.toCalls (s : Server) (p : CallPtr) : Plain s (s.toCalls p) :=
  ⟨.toCalls s p, { Timeless.refl s with }⟩

theorem Plain.toWaiting (s : Server) (p : CallPtr) : Plain s (s.toWaiting p) :=
  ⟨.toWaiting s p, { Timeless.refl s with }⟩

theorem Plain.free (s : Server) (p : CallPtr) :
    Plain s { s with calls := Function.update s.calls p none } := by
  refine ⟨.free s p, { @Timeless.refl none s with polls := fun q e _ he _ => ?_ }⟩
  by_cases hq : q = p
  · simp [hq] at he
  · simp only [Function.update_of_ne hq] at he
    exact ⟨e, he, rfl⟩

theorem Plain.close (s : Server) (conn : ConnPtr) : Plain s (s.closeConn conn) :=
  ⟨.close s conn, { Timeless.refl s with
    pings := by simp [Updates.pings, Server.closeConn, Server.log, pingOf] }⟩

theorem Plain.freeSession (s : Server) (q : SessPtr) :
    Plain s { s with sessions := Function.update s.sessions q none } := by
  refine ⟨.freeSession s q, { @Timeless.refl none s with sessions := fun q' x hx => ?_ }⟩
  by_cases hq : q' = q
  · simp [hq] at hx
  · simpa only [Function.update_of_ne hq] using hx

theorem Plain.handlers (s : Server) (hs : List ApiHandlerItem) :
    Plain s { s with pxWsApiHandlers := hs } :=
  ⟨.handlers s hs, { Timeless.refl s with }⟩

theorem Plain.fidQueues (s : Server) (fs : List FidQueueItem) :
    Plain s { s with pxWsFidQueues := fs } :=
  ⟨.fidQueues s fs, { Timeless.refl s with }⟩

theorem Plain.periph (s : Server) (q : QueueId) (d : Periph) : Plain s (s.setPeriph q d) :=
  ⟨.periph s q d, { Timeless.refl s with }⟩

theorem Plain.worker (s : Server) (rs : List Reply) (r : Option Reply) (n : Nat) :
    Plain s { s with xWsWorkerQueue := rs, handling := r, nextReply := n } :=
  ⟨.worker s rs r n, { Timeless.refl s with }⟩

end Plain

/-- What a relation satisfies that all single writes respect, but those that
set a clock, send a ping, complete a call or change the registered handlers or
queues. -/
class Admits (R : Server → Server → Prop) : Prop where
  log (s : Server) {e : Event} (he : pingOf e = none) : R s (s.log e)
  setCall {s : Server} {p : CallPtr} {c d : ApiCall} (hc : s.calls p = some c) (h : Change c d)
    (hpoll : d.ulNextPollTick = c.ulNextPollTick) (hpend : d.ulCallPending = c.ulCallPending) :
    R s (s.setCall p d)
  allocData (s : Server) (targets : Nat) (fid sid : UInt32) (arg : Payload) :
    R s (s.allocData targets fid sid arg)
  send {s : Server} {p : CallPtr} {c : ApiCall} {q : SessPtr} {x : ApiSession} {b : BufPtr}
    (hc : s.calls p = some c) (hq : c.session = some q) (hx : s.sessions q = some x) :
    R s (s.withNet { s.net with inflight := s.net.inflight ++ [⟨q, x.fd, b⟩] })
  release {s : Server} {b : BufPtr} {n : Net} (h : s.net.release b = .ok n) : R s (s.withNet n)
  transferred (s : Server) (i : Nat) :
    R s (s.withNet { s.net with inflight := s.net.inflight.eraseIdx i })
  allocCall (s : Server) {c : ApiCall} (h : c.ulCallPending = 1) : R s (s.allocCall c)
  unlink (s : Server) (p : CallPtr) : R s (s.unlink p)
  toCalls (s : Server) (p : CallPtr) : R s (s.toCalls p)
  toWaiting (s : Server) (p : CallPtr) : R s (s.toWaiting p)
  free (s : Server) (p : CallPtr) : R s { s with calls := Function.update s.calls p none }
  close (s : Server) (conn : ConnPtr) : R s (s.closeConn conn)
  freeSession (s : Server) (q : SessPtr) :
    R s { s with sessions := Function.update s.sessions q none }
  periph (s : Server) (q : QueueId) (d : Periph) : R s (s.setPeriph q d)
  worker (s : Server) (rs : List Reply) (r : Option Reply) (n : Nat) :
    R s { s with xWsWorkerQueue := rs, handling := r, nextReply := n }

class AdmitsCompletion (R : Server → Server → Prop) : Prop extends Admits R where
  complete {s : Server} {p : CallPtr} {c : ApiCall} (hc : s.calls p = some c) :
    R s (s.setCall p (completed c))

class AdmitsQueues (R : Server → Server → Prop) : Prop extends AdmitsCompletion R where
  fidQueues (s : Server) (fs : List FidQueueItem) : R s { s with pxWsFidQueues := fs }

instance : AdmitsQueues Plain where
  log := Plain.log
  setCall hc h hpoll _ := Plain.setCall hc h hpoll
  complete {_ _ c} hc := Plain.setCall hc (.complete c) rfl
  allocData := Plain.allocData
  send := Plain.send
  release := Plain.release
  transferred := Plain.transferred
  allocCall s _ := Plain.allocCall s
  unlink := Plain.unlink
  toCalls := Plain.toCalls
  toWaiting := Plain.toWaiting
  free := Plain.free
  close := Plain.close
  freeSession := Plain.freeSession
  fidQueues := Plain.fidQueues
  periph := Plain.periph
  worker := Plain.worker

variable {α β : Type} {R : Server → Server → Prop}

/-- An operation that is made of updates. Its result carries the server that
it leaves behind. -/
abbrev Made (s : Server) (srv : α → Server) (op : Fallible α) : Prop :=
  Yields op (fun a => Writes s (srv a))

theorem Made.after {srv : α → Server} {op : Fallible α} (h : Writes s t) (ht : Made t srv op) :
    Made s srv op := Yields.mono ht (fun _ hu => h.trans hu)

theorem Made.seq {srv : α → Server} {srv' : β → Server} {x : Fallible α} {f : α → Fallible β}
    (hx : Made s srv x) (hf : ∀ a, Made (srv a) srv' (f a)) : Made s srv' (x >>= f) :=
  .bind (fun a ha => (hf a).after (hx.result a ha))

abbrev Through (R : Server → Server → Prop) (s : Server) (srv : α → Server) (op : Fallible α) :
    Prop := Yields op (fun a => Relation.ReflTransGen R s (srv a))

theorem Through.after {srv : α → Server} {op : Fallible α} (h : Relation.ReflTransGen R s t)
    (ht : Through R t srv op) : Through R s srv op := Yields.mono ht (fun _ hu => h.trans hu)

theorem Through.seq {srv : α → Server} {srv' : β → Server} {x : Fallible α} {f : α → Fallible β}
    (hx : Through R s srv x) (hf : ∀ a, Through R (srv a) srv' (f a)) :
    Through R s srv' (x >>= f) :=
  .bind (fun a ha => (hf a).after (hx.result a ha))

abbrev Plainly (s : Server) (srv : α → Server) (op : Fallible α) : Prop := Through Plain s srv op

theorem Plainly.made {srv : α → Server} {op : Fallible α} (h : Plainly s srv op) : Made s srv op :=
  Yields.mono h (fun _ ha => Steady.writes ha)

theorem calls_of_call (h : s.call p = .ok c) : s.calls p = some c := by
  unfold Server.call at h
  split at h
  next c' hc =>
    cases h
    exact hc
  next => cases h

theorem sessions_of_session {o : Option SessPtr} {x : ApiSession} (h : s.session o = .ok x) :
    ∃ q, o = some q ∧ s.sessions q = some x := by
  cases o with
  | none => cases h
  | some q =>
      simp only [Server.session] at h
      split at h
      next y hy =>
        cases h
        exact ⟨q, rfl, hy⟩
      next => cases h

theorem forEach_through {act : Server → CallPtr → Fallible Server} (h : ∀ s p, Through R s id (act s p)) :
    Through R s id (s.forEach act) := by
  have hfold : ∀ (s : Server) (l : List CallPtr), Through R s id (l.foldlM act s) := fun s l =>
    Yields.foldlM (I := Relation.ReflTransGen R s) .refl (fun t p ht => (h t p).after ht)
  exact (hfold s _).seq (fun t => hfold t _)

variable [Admits R]

theorem modifyCall_through {f : ApiCall → ApiCall} (hf : ∀ c, Change c (f c))
    (hpoll : ∀ c, (f c).ulNextPollTick = c.ulNextPollTick := by exact fun _ => rfl)
    (hpend : ∀ c, (f c).ulCallPending = c.ulCallPending := by exact fun _ => rfl) :
    Through R s id (s.modifyCall p f) :=
  .bind (fun c hc => .pure (.single (Admits.setCall (calls_of_call hc) (hf c) (hpoll c) (hpend c))))

theorem unlink_free_through : Through R s id ((s.unlink p).freeCall p) :=
  .bind (fun _ _ => .pure (.tail (.tail (.single (Admits.unlink s p)) (Admits.free _ p))
    (Admits.log _ rfl)))

theorem vBreakApiCallsByFd_through (s : Server) (fd : Int) :
    Through R s id (vBreakApiCallsByFd s fd) := by
  refine forEach_through (fun s p => .bind (fun c _ => ?_))
  split_ifs
  · exact .pure .refl
  · refine .bind (fun x _ => ?_)
    split_ifs
    · exact modifyCall_through .dropSession
    · exact .pure .refl

theorem vBreakApiCallsByFid_through (s : Server) (fid : UInt32) :
    Through R s id (vBreakApiCallsByFid s fid) := by
  refine forEach_through (fun s p => .bind (fun c _ => ?_))
  split_ifs
  · exact modifyCall_through .dropSession
  · exact .pure .refl

theorem sendToSession_through (s : Server) (src : Source) (p : CallPtr) (b : BufPtr)
    (sent : CallPtr → Bool) : Through R s Prod.fst (sendToSession s src p b sent) := by
  refine .bind (fun c hc => .bind (fun x hx => .bind (fun d _ => ?_)))
  obtain ⟨q, hq, hxq⟩ := sessions_of_session hx
  have hlog : Relation.ReflTransGen R s (s.log (.queue src p x.conn d.fid d.sid d.arg (sent p))) :=
    .single (Admits.log s rfl)
  split_ifs
  · refine .pure (hlog.tail ?_)
    rw [hq]
    exact Admits.send (p := p) (calls_of_call hc) hq hxq
  · exact .bind (fun n hn => .pure (hlog.tail (Admits.release hn)))

theorem sendToGroup_through (s : Server) (src : Source) (fid : UInt32) (b : BufPtr)
    (sent : CallPtr → Bool) (ps : List CallPtr) (res : Bool) :
    Through R s Prod.fst (sendToGroup src fid b sent ps s res) := by
  induction ps generalizing s res with
  | nil => exact .pure .refl
  | cons p ps ih =>
      refine .bind (fun hit _ => ?_)
      split_ifs
      · exact (sendToSession_through s src p b sent).seq (fun r => ih r.1 r.2)
      · exact ih s res

theorem apiCallSendJson_through (s : Server) (src : Source) (px : Option CallPtr) (fid : UInt32)
    (arg : Payload) (env : SendEnv) : Through R s Prod.fst (apiCallSendJson s src px fid arg env) := by
  unfold apiCallSendJson
  cases px with
  | some p =>
      dsimp only
      split
      · exact .pure .refl
      · refine .bind (fun c _ => ?_)
        split_ifs
        · exact .pure .refl
        · exact .pure .refl
        · exact (sendToSession_through _ src p _ env.sent).after (.single (Admits.allocData s 1 _ _ arg))
  | none =>
      dsimp only
      split
      · exact .pure .refl
      · refine .bind (fun w _ => .bind (fun n _ => ?_))
        split_ifs
        · exact .pure .refl
        · exact .pure .refl
        · exact ((sendToGroup_through _ src fid _ env.sent _ true).after
            (.single (Admits.allocData s (w + n) fid 0 arg))).seq
              (fun r => sendToGroup_through r.1 src fid _ env.sent _ r.2)

theorem vWsTransferComplete_through {i : Nat} {err took : Bool} {op : Fallible Server}
    (h : vWsTransferComplete s i err took = some op) : Through R s id op := by
  unfold vWsTransferComplete at h
  split at h
  · cases h
  next x _ =>
    cases h
    have hrelease : ∀ t : Server, Through R t id (t.net.release x.buf >>= fun n => pure (t.withNet n)) :=
      fun t => .bind (fun n hn => .pure (.single (Admits.release hn)))
    refine Through.after (.single (Admits.transferred s i)) ?_
    dsimp only
    split_ifs
    · exact (vBreakApiCallsByFd_through _ x.fd).seq hrelease
    · exact hrelease _

omit [Admits R] in
theorem vApiCallComplete_through [AdmitsCompletion R] (s : Server) (p : CallPtr) :
    Through R s id (vApiCallComplete s p) := by
  unfold vApiCallComplete
  split_ifs
  · exact .bind (fun c hc => .pure (.single (AdmitsCompletion.complete (calls_of_call hc))))
  · exact .pure .refl

theorem bApiCallRegister_plain (s : Server) (h : Option HandlerId) (fid : UInt32) (ctx : Nat)
    (took alloc : Bool) : Steady s (bApiCallRegister s h fid ctx took alloc).1 := by
  unfold bApiCallRegister
  split
  · exact .refl
  · split_ifs
    · exact .refl
    · exact .refl
    · exact .refl
    · exact .refl
    · exact (Plain.handlers s _).steady

theorem bApiCallUnregister_plain (s : Server) (fid : UInt32) (took : Bool) :
    Plainly s Prod.fst (bApiCallUnregister s fid took) := by
  unfold bApiCallUnregister
  split_ifs
  · exact .pure .refl
  · exact .pure .refl
  · exact (vBreakApiCallsByFid_through s fid).seq (fun t => .pure (Plain.handlers t _).steady)
  · exact .pure .refl

omit [Admits R] in
theorem wsServerRegisterFidQueue_through [AdmitsQueues R] (s : Server) (fid : UInt32) (queue : Option QueueId)
    (took alloc : Bool) :
    Relation.ReflTransGen R s (wsServerRegisterFidQueue s fid queue took alloc).1 := by
  unfold wsServerRegisterFidQueue
  split_ifs
  · exact .refl
  · exact .refl
  · exact .refl
  · exact (.single (AdmitsQueues.fidQueues s _))

section Httpd

theorem wsServerOnDisconnect_through (s : Server) (conn : ConnPtr) (u : Option SessPtr) :
    Through R s id (wsServerOnDisconnect s conn u) := by
  cases u with
  | none => exact .pure (.single (Admits.close s conn))
  | some q =>
      refine .bind (fun x _ => (vBreakApiCallsByFd_through s x.fd).seq (fun t => ?_))
      exact .pure (.tail (.single (Admits.freeSession t q)) (Admits.close _ conn))

theorem touchSession_made (s : Server) (u : Option SessPtr) : Made s id (touchSession s u) := by
  cases u with
  | none => exact .pure .refl
  | some q =>
      refine .bind (fun x hx => .pure ?_)
      obtain ⟨_, hq, hxq⟩ := sessions_of_session hx
      cases hq
      exact (Update.session (y := { x with ulAliveTs := s.tick }) hxq rfl).writes

theorem wsServerOnControl_through (s : Server) (conn : ConnPtr) (type : FrameType) (sent : Bool) :
    Relation.ReflTransGen R s (wsServerOnControl s conn type sent) := by
  cases type with
  | ping => exact (.single (Admits.log s rfl))
  | close => exact (.single (Admits.log s rfl))
  | cont | text | binary | pong => exact .refl

theorem rejectCall_through (s : Server) (p : CallPtr) (sta : UInt32) (env : SendEnv) :
    Through R s id (rejectCall s p sta env) :=
  (apiCallSendJson_through s .httpd (some p) 0 (.status sta) env).seq
    (fun r => .bind (fun _ _ => .pure (.tail (.single (Admits.free r.1 p)) (Admits.log _ rfl))))

theorem wsServerOnText_through (s : Server) (conn : ConnPtr) (u : Option SessPtr)
    (data : Option Bytes) (env : TextEnv) : Through R s id (wsServerOnText P s conn u data env) := by
  unfold wsServerOnText
  split
  · split_ifs
    · exact .pure .refl
    · split
      · exact .pure .refl
      · split_ifs
        · exact .pure .refl
        · split
          · dsimp only
            split_ifs
            · exact (rejectCall_through _ _ _ env.status).after (.single (Admits.allocCall _ rfl))
            · exact .pure (.tail (.tail (.single (Admits.allocCall _ rfl)) (Admits.toCalls _ _))
                (Admits.log _ rfl))
          · exact (rejectCall_through _ _ _ env.status).after (.single (Admits.allocCall _ rfl))
  · exact .pure .refl

end Httpd

section Worker

theorem handlerAction_plain (s : Server) (p : CallPtr) (a : HandlerAction) :
    Plainly s id (handlerAction p s a) := by
  cases a with
  | sendJson json env =>
      exact (apiCallSendJson_through s .handler (some p) 0 (.json json) env).seq (fun _ => .pure .refl)
  | sendStatus sta env =>
      exact (apiCallSendJson_through s .handler (some p) 0 (.status sta) env).seq (fun _ => .pure .refl)
  | sendGroup fid json env =>
      exact (apiCallSendJson_through s .handler none fid (.json json) env).seq (fun _ => .pure .refl)
  | setContext ctx => exact modifyCall_through (fun c => .context c ctx)
  | complete q => exact vApiCallComplete_through s q
  | register h fid ctx alloc => exact .pure (bApiCallRegister_plain s h fid ctx true alloc)
  | unregister fid => exact (bApiCallUnregister_plain s fid true).seq (fun _ => .pure .refl)

theorem vServeApiCall_made (s : Server) (p : CallPtr) (env : WorkerEnv) :
    Made s id (vServeApiCall s p env) := by
  refine .bind (fun c _ => ?_)
  split
  · refine .bind (fun x _ => ?_)
    dsimp only
    have hlog := (Update.log s (.control x.conn .ping env.pingSent)).writes
    split_ifs
    · exact (Plainly.made (vApiCallComplete_through _ p)).after hlog
    · refine Made.after (hlog.tail (.passTicks _ env.elapsed))
        (.bind (fun c' _ => .bind (fun y hy => .pure ?_)))
      obtain ⟨q, hq, hyq⟩ := sessions_of_session hy
      rw [hq]
      exact (Update.session (y := { y with ulPingTs := s.tick + env.elapsed }) hyq rfl).writes
    · exact .pure .refl
  · exact Plainly.made unlink_free_through

theorem queueSend_through {q : QueueId} {r : Request} (h : queueSend s q r = some t) :
    Relation.ReflTransGen R s t := by
  unfold queueSend at h
  dsimp only at h
  split_ifs at h
  cases h
  exact .tail (.single (Admits.periph s q _)) (Admits.log _ rfl)

theorem refuseCall_through (s : Server) (p : CallPtr) (env : WorkerEnv) :
    Through R s id (refuseCall s p env) :=
  Through.seq ((apiCallSendJson_through _ .worker (some p) 0 _ env.busy).after
    (.single (Admits.log s rfl))) (fun _ => modifyCall_through .dropSession)

theorem vForwardCallToPeripheral_through (s : Server) (p : CallPtr) (q : QueueId) (env : WorkerEnv) :
    Through R s id (vForwardCallToPeripheral s p q env) := by
  refine .bind (fun c _ => ?_)
  split_ifs
  · exact .pure (.single (Admits.log s rfl))
  · exact .pure (.single (Admits.log s rfl))
  · dsimp only
    split
    next hsend => exact .pure (queueSend_through hsend)
    next => exact refuseCall_through s p env
  · split
    next hsend => exact .pure (queueSend_through hsend)
    next => exact refuseCall_through s p env
  · split
    next hsend => exact (modifyCall_through .dropReqData).after (queueSend_through hsend)
    next => exact refuseCall_through s p env

theorem deleteMatching_through (fd : Int) (fid sid : UInt32) (items : Server → List CallPtr) (n : Nat)
    (s : Server) : Through R s id (deleteMatching fd fid sid items n s) := by
  induction n generalizing s with
  | zero => exact .pure .refl
  | succ n ih =>
      refine .bind (fun found _ => ?_)
      split
      · exact .pure .refl
      · exact unlink_free_through.seq ih

theorem deleteCall_through (s : Server) (p : CallPtr) (next : Option CallPtr) (env : WorkerEnv) :
    Through R s Prod.fst (deleteCall s p next env) := by
  have hfree : ∀ (s : Server) (next : Option CallPtr),
      Through R s Prod.fst ((s.unlink p).freeCall p >>= fun s => pure (s, next)) :=
    fun s next => unlink_free_through.seq (fun _ => .pure .refl)
  refine (apiCallSendJson_through s .worker (some p) 0 _ env.status).seq (fun ⟨t, _⟩ => ?_)
  refine .bind (fun c _ => ?_)
  split_ifs
  · refine .bind (fun x _ => (modifyCall_through .dropSession).seq (fun t => ?_))
    refine (deleteMatching_through x.fd c.ulFid c.ulId _ _ t).seq (fun t => ?_)
    refine (deleteMatching_through x.fd c.ulFid c.ulId _ _ t).seq (fun t => ?_)
    exact .bind (fun next _ => hfree t next)
  · exact hfree t next

theorem forwardItem_through (s : Server) (p : CallPtr) (env : WorkerEnv) :
    Through R s Prod.fst (forwardItem s p env) := by
  refine .bind (fun next _ => .bind (fun c _ => ?_))
  split_ifs
  · exact deleteCall_through s p next env
  · exact .pure .refl
  · split
    next q _ =>
      refine ((vForwardCallToPeripheral_through s p q env).seq (fun t => ?_))
      refine Through.after (.single (Admits.toWaiting t p)) (.bind (fun d _ => ?_))
      split_ifs
      · refine (apiCallSendJson_through _ .worker (some p) 0 _ env.status).seq (fun ⟨t, sent⟩ => ?_)
        dsimp only
        split_ifs
        · exact (modifyCall_through .clearNew).seq (fun _ => .pure .refl)
        · exact .pure .refl
      · exact .pure .refl
    next =>
      exact (apiCallSendJson_through s .worker (some p) 0 _ env.status).seq
        (fun _ => unlink_free_through.seq (fun _ => .pure .refl))

theorem invokeHandler_plain (s : Server) (p : CallPtr) (env : WorkerEnv) :
    Plainly s id (invokeHandler s p env) := by
  refine .bind (fun c _ => ?_)
  split_ifs
  · exact Yields.foldlM (I := Steady s) .refl (fun t a ht => (handlerAction_plain t p a).after ht)
  · exact .pure .refl

/-- What a reply does to a call, step by step: nothing but plain updates, but
for the arming of the next poll of a LONG_TERM call. -/
def Responds (s : Server) (p : CallPtr) (t : Server) : Prop :=
  ∃ u c, Steady s u ∧ u.calls p = some c ∧
    ((c.longTerm = false ∧ Steady u t) ∨ (c.longTerm = true ∧
      Steady (u.setCall p (c.setNextPoll (u.tick + c.ulPollIntervalTicks))) t))

theorem respond_responds (s : Server) (p : CallPtr) (r : Reply) (env : WorkerEnv) :
    Yields (respond s p r env) (Responds s p) := by
  have hfinish : ∀ t : Server, Steady s t → Yields (do
      let call ← t.call p
      let u := t.log (.respond p r)
      if !call.longTerm then (u.unlink p).freeCall p
      else
        let v ← u.modifyCall p (fun c => c.setNextPoll (u.tick + c.ulPollIntervalTicks))
        pure (v.toCalls p)) (Responds s p) := by
    intro t ht
    have hlog : Steady s (t.log (.respond p r)) := ht.tail (.log t rfl)
    refine .bind (fun c hc => ?_)
    dsimp only
    split_ifs with hl
    · refine unlink_free_through.mono (fun u hu => ⟨_, c, hlog, calls_of_call hc, .inl ⟨?_, hu⟩⟩)
      simpa using hl
    · refine .bind (fun v hv => .pure ?_)
      obtain ⟨d, hd, hv⟩ := bind_eq_ok hv
      cases hv
      have hsame : c = d := Except.ok.inj (hc.symm.trans hd)
      subst hsame
      refine ⟨_, c, hlog, calls_of_call hc, .inr ⟨?_, (Plain.toCalls _ p).steady⟩⟩
      simpa using hl
  refine .bind (fun t ht => ?_)
  have hsteady := (invokeHandler_plain s p env).result t ht
  dsimp only
  split_ifs
  · refine .bind (fun u hu => hfinish u.1 (hsteady.trans ?_))
    exact (apiCallSendJson_through t .worker (some p) 0 (.reply r) env.reply).result u hu
  · exact hfinish t hsteady

theorem Responds.writes (h : Responds s p t) : Writes s t := by
  obtain ⟨u, c, hu, hc, ⟨-, ht⟩ | ⟨-, ht⟩⟩ := h
  · exact hu.writes.trans ht.writes
  · exact (hu.writes.tail (.call hc (.nextPoll c _))).trans ht.writes

theorem Responds.timeless (h : Responds s p t) : Timeless (some p) s t := by
  obtain ⟨u, c, hu, hc, ⟨-, ht⟩ | ⟨-, ht⟩⟩ := h
  · exact (hu.timeless.trans ht.timeless).arm
  · refine (hu.timeless.arm.trans ?_).trans ht.timeless.arm
    refine { @Timeless.refl (some p) u with polls := fun q d hq hd _ => ?_ }
    have hne : q ≠ p := fun he => hq (congrArg some he)
    simp only [Server.setCall, Function.update_of_ne hne] at hd
    exact ⟨d, hd, rfl⟩

theorem respond_made (s : Server) (p : CallPtr) (r : Reply) (env : WorkerEnv) :
    Made s id (respond s p r env) := (respond_responds s p r env).mono (fun _ h => h.writes)

theorem workerStep_made (s : Server) (pc : WorkerPc) (env : WorkerEnv) :
    Made s Prod.fst (workerStep s pc env) := by
  have hdone : ∀ (s : Server) (r : Reply), Writes s (s.handled r) := fun s r =>
    (Update.worker s s.xWsWorkerQueue none s.nextReply).writes.tail (.log _ _)
  cases pc with
  | idle => exact .pure .refl
  | served => exact .pure .refl
  | serveCalls item =>
      cases item with
      | none => exact .pure .refl
      | some p => exact .bind (fun n _ => (vServeApiCall_made s p env).seq (fun _ => .pure .refl))
  | serveWaiting item =>
      cases item with
      | none => exact .pure .refl
      | some p => exact .bind (fun n _ => (vServeApiCall_made s p env).seq (fun _ => .pure .refl))
  | forward item =>
      cases item with
      | none => exact .pure .refl
      | some p => exact (Plainly.made (forwardItem_through s p env)).seq (fun _ => .pure .refl)
  | receive =>
      simp only [workerStep]
      split
      · exact .pure .refl
      · exact .pure (Update.worker s _ _ s.nextReply).writes
  | taken r =>
      simp only [workerStep]
      split_ifs
      · exact .bind (fun it _ => .pure .refl)
      · refine .bind (fun it _ => ?_)
        split
        · exact .pure (hdone s r)
        · exact (respond_made s _ r env).seq (fun t => .pure (hdone t r))
  | broadcast r it =>
      cases it with
      | none => exact .pure (hdone s r)
      | some p => exact .bind (fun n _ => (respond_made s p r env).seq (fun _ => .pure .refl))

end Worker

theorem postReply_through (s : Server) (q : QueueId) (r : Request) (id : UInt32) (published : Bool)
    (data : Option Bytes) : Relation.ReflTransGen R s (postReply s q r id published data) := by
  unfold postReply
  split_ifs
  · exact .tail (.single (Admits.periph s q _)) (Admits.worker _ _ s.handling _)
  · exact .single (Admits.periph s q _)

theorem lift_result {y z : System} {b : Bool} {op : Fallible Server} {Q : Server → Prop}
    (h : z.lift b op = some (.ok y)) (hop : Yields op Q) : Q y.srv := by
  obtain ⟨-, t, ht, rfl⟩ := lift_ok h
  exact hop.result t ht

def setsClock : Label → Bool
  | .tick _ | .connect .. | .frame .. | .worker _ => true
  | _ => false

def setsHandler : Label → Bool
  | .register .. | .unregister .. => true
  | _ => false

def setsQueue : Label → Bool
  | .registerQueue .. => true
  | _ => false

def completes : Label → Bool
  | .complete .. => true
  | _ => false

theorem step_pending {x y : System} {a : Label} (h : (machine P).Step x a y)
    (ha : setsClock a = false) (hreg : setsHandler a = false) (hq : setsQueue a = false)
    (hc : completes a = false) : Relation.ReflTransGen R x.srv y.srv := by
  have h : step P x a = some (.ok y) := h
  cases a with
  | disconnect conn =>
      simp only [step] at h
      split at h
      · exact lift_result h (wsServerOnDisconnect_through ..)
      · cases h
  | text env =>
      simp only [step] at h
      split at h
      · exact lift_result h (wsServerOnText_through ..)
      · cases h
  | transferComplete i err took =>
      simp only [step] at h
      split at h
      next op hop => exact lift_result h (vWsTransferComplete_through hop)
      next => cases h
  | sendGroup fid json env => exact lift_result h (.map (apiCallSendJson_through ..))
  | periphTake q =>
      obtain ⟨r, rs, -, -, h⟩ := periphTake_cases h
      exact lift_result h (.pure (.single (Admits.periph x.srv q _)))
  | periphAnswer q data =>
      simp only [step] at h
      split at h
      · exact lift_result h (.pure (postReply_through ..))
      · cases h
  | periphPublish q data =>
      simp only [step] at h
      split at h
      · exact lift_result h (.pure (postReply_through ..))
      · cases h
  | periphDrop q =>
      simp only [step] at h
      split at h
      · exact lift_result h (.pure (.single (Admits.periph x.srv q _)))
      · cases h
  | connect | frame | tick | worker => cases ha
  | register | unregister => cases hreg
  | registerQueue => cases hq
  | complete => cases hc

omit [Admits R] in
theorem step_routed [AdmitsCompletion R] {x y : System} {a : Label} (h : (machine P).Step x a y)
    (ha : setsClock a = false) (hreg : setsHandler a = false) (hq : setsQueue a = false) :
    Relation.ReflTransGen R x.srv y.srv := by
  cases a with
  | complete p =>
      have hstep : step P x (.complete p) = some (.ok y) := h
      exact lift_result hstep (vApiCallComplete_through ..)
  | _ => exact step_pending h ha hreg hq rfl

omit [Admits R] in
theorem step_through [AdmitsQueues R] {x y : System} {a : Label} (h : (machine P).Step x a y)
    (ha : setsClock a = false) (hreg : setsHandler a = false) :
    Relation.ReflTransGen R x.srv y.srv := by
  cases a with
  | registerQueue fid queue took alloc =>
      have hstep : step P x (.registerQueue fid queue took alloc) = some (.ok y) := h
      exact lift_result hstep (.pure (wsServerRegisterFidQueue_through ..))
  | _ => exact step_routed h ha hreg rfl

theorem step_steady {x y : System} {a : Label} (h : (machine P).Step x a y)
    (ha : setsClock a = false) : Steady x.srv y.srv := by
  have hstep : step P x a = some (.ok y) := h
  cases a with
  | register hd fid ctx took alloc => exact lift_result hstep (.pure (bApiCallRegister_plain ..))
  | unregister fid took => exact lift_result hstep (.map (bApiCallUnregister_plain ..))
  | _ => exact step_through h ha rfl

theorem frame_through {x y : System} {conn : ConnPtr} {type : FrameType} {data : Option Bytes}
    {sent : Bool} (h : (machine P).Step x (.frame conn type data sent) y) :
    ∃ k t, x.srv.conns conn = some k ∧ touchSession x.srv k.userData = .ok t ∧
      Relation.ReflTransGen R t y.srv ∧ y.worker = x.worker := by
  have h : step P x (.frame conn type data sent) = some (.ok y) := h
  simp only [step] at h
  split at h
  next k hk =>
    split_ifs at h
    obtain ⟨t, ht, hy⟩ := bind_eq_ok (Option.some.inj h)
    refine ⟨k, t, hk, ht, ?_⟩
    split at hy
    · cases hy
      exact ⟨.refl, rfl⟩
    · cases hy
      exact ⟨wsServerOnControl_through .., rfl⟩
  next => cases h

theorem step_writes {x y : System} {a : Label} (h : (machine P).Step x a y) :
    Writes x.srv y.srv := by
  by_cases ha : setsClock a = false
  · exact (step_steady h ha).writes
  · have hstep : step P x a = some (.ok y) := h
    cases a with
    | connect fd alloc => exact lift_result hstep (.pure (Update.connect x.srv fd alloc).writes)
    | tick d => exact lift_result hstep (.pure (Update.passTicks x.srv d).writes)
    | frame conn type data sent =>
        obtain ⟨k, t, -, ht, hsteady, -⟩ := frame_through (R := Plain) h
        exact ((touchSession_made x.srv k.userData).result t ht).trans (Steady.writes hsteady)
    | worker env =>
        obtain ⟨r, hr, rfl⟩ := map_eq_ok (Option.some.inj h)
        exact (workerStep_made x.srv x.worker env).result r hr
    | _ => exact absurd rfl ha

/-- What every update preserves holds in every reachable state. -/
theorem reachable_writes {I : Server → Prop} (hinit : ∀ depth, I (initServer depth))
    (hI : ∀ s t, Update s t → I s → I t) {x : System} (h : Reachable (machine P) x) : I x.srv := by
  refine h.invariant (I := fun x => I x.srv) ?_ (fun x a y _ hi hstep => ?_)
  · rintro x ⟨depth, rfl⟩
    exact hinit depth
  · exact (step_writes hstep).preserve hI hi

theorem reachable_calls {J : ApiCall → Prop} (hnew : ∀ c, c.ulCallPending = 1 → J c)
    (hchange : ∀ c d, Change c d → J c → J d) {x : System} (h : Reachable (machine P) x)
    (hc : x.srv.calls p = some c) : J c := by
  refine reachable_writes (I := fun s => ∀ p c, s.calls p = some c → J c) ?_ ?_ h p c hc
  · intro depth p c hc
    cases hc
  · intro s t hup hi p c hc
    cases hup with
    | @call q e d he hch =>
        by_cases hp : p = q
        · simp only [Server.setCall, hp, Function.update_self, Option.some.injEq] at hc
          exact hc ▸ hchange e d hch (hi q e he)
        · simp only [Server.setCall, Function.update_of_ne hp] at hc
          exact hi p c hc
    | @allocCall e he =>
        by_cases hp : p = s.nextCall
        · simp only [Server.allocCall, hp, Function.update_self, Option.some.injEq] at hc
          exact hc ▸ hnew e he
        · simp only [Server.allocCall, Function.update_of_ne hp] at hc
          exact hi p c hc
    | free q =>
        by_cases hp : p = q
        · simp [hp] at hc
        · exact hi p c ((Function.update_of_ne hp _ _).symm.trans hc)
    | connect fd alloc =>
        refine hi p c ?_
        cases alloc <;> exact hc
    | _ => exact hi p c hc

theorem live_pending {x : System} (h : Reachable (machine P) x) (hc : x.srv.calls p = some c)
    (hlive : c.session ≠ none) : c.ulCallPending = 1 := by
  refine reachable_calls (J := fun c => c.session ≠ none → c.ulCallPending = 1)
    (fun c hc _ => hc) (fun c d hch hi hd => ?_) h hc hlive
  cases hch with
  | dropSession => exact absurd rfl hd
  | complete =>
      by_cases hnone : c.session = none
      · simp [completed, hnone] at hd
      · simp [completed, hi hnone] at hd
  | _ => exact hi hd

end WirelessGateway.Updates
