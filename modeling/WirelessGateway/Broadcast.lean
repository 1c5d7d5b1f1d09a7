import WirelessGateway.Outcomes
import WirelessGateway.Updates

namespace WirelessGateway.Broadcast

open CJson WirelessGateway.Types Memory WsServer Worker Tasks Buffers Sends WellFormed SoftSteps
open Lifecycle Operations Answering Steps Outcomes Lib.Linked Lib.Fallible Lib.Runs

variable {P : Platform} {s t : Server} {p : CallPtr} {c : ApiCall} {r : Reply}

section Handlers

/-- The handler of a call completes no other call and unregisters no FID that
another call has. -/
def Considerate (s : Server) (p : CallPtr) : HandlerAction → Prop
  | .complete q => q = p
  | .unregister fid => ∀ q c, q ≠ p → s.calls q = some c → c.ulFid ≠ fid
  | .sendJson .. | .sendStatus .. | .sendGroup .. | .setContext _ | .register .. => True

def OthersKept (p : CallPtr) (s t : Server) : Prop := ∀ q ≠ p, t.calls q = s.calls q

theorem OthersKept.trans {u : Server} (h : OthersKept p s t) (h' : OthersKept p t u) :
    OthersKept p s u := fun q hq => (h' q hq).trans (h q hq)

theorem Considerate.later {a : HandlerAction} (h : OthersKept p s t) (ha : Considerate s p a) :
    Considerate t p a := by
  cases a with
  | complete q => exact ha
  | unregister fid =>
      intro q c hq hc
      rw [h q hq] at hc
      exact ha q c hq hc
  | sendJson | sendStatus | sendGroup | setContext | register => trivial

theorem modifyCall_others (f : ApiCall → ApiCall) :
    Yields (s.modifyCall p f) (OthersKept p s) := by
  refine .bind (fun c _ => .pure ?_)
  exact fun q hq => setCall_calls_ne hq

theorem vBreakApiCallsByFid_others {fid : UInt32}
    (h : ∀ q c, q ≠ p → s.calls q = some c → c.ulFid ≠ fid) :
    Yields (vBreakApiCallsByFid s fid) (OthersKept p s) := by
  have hitem : ∀ t q, OthersKept p s t → Yields (vBreakApiCallByFid fid t q) (OthersKept p s) := by
    intro t q ht
    refine .bind (fun c hc => ?_)
    split_ifs with hfid
    · by_cases hq : q = p
      · subst hq
        exact (modifyCall_others _).mono (fun u hu => ht.trans hu)
      · have hsame := ht q hq
        rw [Updates.calls_of_call hc] at hsame
        exact absurd hfid (h q c hq hsame.symm)
    · exact .pure ht
  have hlist : ∀ (t : Server) (l : List CallPtr), OthersKept p s t →
      Yields (l.foldlM (vBreakApiCallByFid fid) t) (OthersKept p s) :=
    fun t l ht => .foldlM ht hitem
  exact .bind (fun t ht => hlist t _ ((hlist s _ (fun _ _ => rfl)).result t ht))

theorem bApiCallUnregister_others {fid : UInt32} (h : Considerate s p (.unregister fid)) :
    Yields (bApiCallUnregister s fid true) (fun r => OthersKept p s r.1) := by
  have hsame : Yields (pure (s, false) : Fallible (Server × Bool)) (fun r => OthersKept p s r.1) :=
    .pure (fun _ _ => rfl)
  unfold bApiCallUnregister
  split_ifs
  · exact hsame
  · exact hsame
  · exact .bind (fun t ht => .pure ((vBreakApiCallsByFid_others h).result t ht))
  · exact hsame

theorem handlerAction_others (hs : Sound s) (hc : s.calls p = some c) {a : HandlerAction}
    (ha : Considerate s p a) : Yields (handlerAction p s a) (OthersKept p s) := by
  cases a with
  | sendJson json env | sendStatus sta env =>
      refine .bind (fun r hr => .pure ?_)
      obtain ⟨m, -, he⟩ := apiCallSendJson_eq hs.wf.attached hs.net hc .handler _ env
      simp only [bApiCallSendJson, bApiCallSendStatus] at hr
      rw [he] at hr
      cases hr
      exact fun _ _ => rfl
  | sendGroup fid json env =>
      refine .bind (fun r hr => .pure ?_)
      obtain ⟨m, -, he⟩ := apiCallSendJson_group hs.wf.attached hs.net hs.wf.groupOrder_isSome
        .handler fid (.json json) env
      rw [bApiCallSendJsonFidGroup, he] at hr
      cases hr
      split_ifs
      · exact fun _ _ => rfl
      · exact fun _ _ => rfl
  | setContext ctx => exact modifyCall_others _
  | complete q =>
      have hq : q = p := ha
      subst hq
      simp only [handlerAction, vApiCallComplete]
      split
      · exact modifyCall_others _
      · exact .pure (fun _ _ => rfl)
  | register h fid ctx alloc =>
      refine .pure (fun q _ => ?_)
      rw [(bApiCallRegister_still h fid ctx true alloc).calls]
  | unregister fid =>
      exact .bind (fun u hu => .pure ((bApiCallUnregister_others ha).result u hu))

theorem invokeHandler_others (hs : Sound s) (hc : s.calls p = some c) {env : WorkerEnv}
    (hh : ∀ a ∈ env.handler, Considerate s p a) :
    Returns (invokeHandler s p env) (fun t => Soft s t ∧ NetOk t.net ∧ OthersKept p s t) := by
  simp only [invokeHandler, call_eq hc, ok_bind]
  split_ifs
  · refine Returns.foldlM (I := fun t => Soft s t ∧ NetOk t.net ∧ OthersKept p s t)
      ⟨.refl s, hs.net, fun _ _ => rfl⟩ ?_
    rintro t a ha ⟨ht, hn, hkept⟩
    obtain ⟨d, hd, -⟩ := ht.call hc
    have hst := Soft.sound ht hs hn
    obtain ⟨u, hu, hsoft, hnu⟩ := handlerAction_calm hst hd a
    have hothers := (handlerAction_others hst hd ((hh a ha).later hkept)).result u hu
    exact ⟨u, hu, ht.trans hsoft, hnu, hkept.trans hothers⟩
  · exact .pure ⟨.refl s, hs.net, fun _ _ => rfl⟩

end Handlers

section Frames

def isData (p : CallPtr) : Event → Bool
  | .queue .worker q _ _ _ (.reply _) _ => q == p
  | _ => false

theorem aside_silent {e : Event} (he : isAside e = true) (p : CallPtr) : isData p e = false := by
  cases e with
  | queue src q conn fid sid arg sent =>
      cases arg with
      | reply r => cases he
      | status | json => cases src <;> rfl
  | _ => rfl

theorem others_step {x y : System} {a : Label} (hr : Reachable (machine P) x)
    (h : (machine P).Step x a y) (ha : ∀ env, a ≠ .worker env) (hl : x.worker.locked = true) :
    y.worker = x.worker ∧ Still x.srv y.srv ∧
      ∃ evs, y.srv.trace = x.srv.trace ++ evs ∧ ∀ p, ∀ e ∈ evs, isData p e = false := by
  rcases step_outcome hr h with ⟨env, he, -⟩ | ⟨-, hw, hapart⟩
  · exact absurd he (ha env)
  · refine ⟨hw, hapart.2 hl, ?_⟩
    obtain ⟨evs, ht, haside⟩ := apart_trace hapart
    exact ⟨evs, ht, fun p e he => aside_silent (haside e he) p⟩

end Frames

section Loop

def listeners (s : Server) (fid : UInt32) : List CallPtr :=
  s.pxWsApiWaitingForResponse.filter (isTarget s fid)

def isLong (s : Server) (p : CallPtr) : Bool := (s.calls p).any ApiCall.longTerm

def keepsSession (s : Server) (p : CallPtr) (env : WorkerEnv) : Bool :=
  match invokeHandler s p env with
  | .ok t => (t.calls p).any (fun c => c.session.isSome)
  | .error _ => false

/-- There is data, its buffer can be allocated, and the handler has not ended
the call. -/
def hears (s : Server) (r : Reply) (p : CallPtr) (env : WorkerEnv) : Bool :=
  r.msg.len != 0 && env.reply.alloc && keepsSession s p env

theorem replyFrames_hears {s' : Server} {d : ApiCall} {k : ApiSession} {env : WorkerEnv}
    (he : invokeHandler s p env = .ok s') (hsoft : Soft s s')
    (ht : target s p = some (c, k)) (hd : s'.calls p = some d) :
    replyFrames s' p r env.reply = if hears s r p env then
      [.queue .worker p k.conn c.ulFid c.ulId (.reply r) (env.reply.sent p)] else [] := by
  obtain ⟨hc, q, hq, hk⟩ := target_eq_some_iff.1 ht
  obtain ⟨d', hd', hw⟩ := hsoft.call hc
  rw [hd, Option.some.injEq] at hd'
  subst hd'
  by_cases hlen : r.msg.len = 0
  · simp [replyFrames, hears, hlen]
  · simp only [replyFrames, if_neg hlen, hears, keepsSession, he, hd, Option.any_some]
    cases hdq : d.session with
    | none => simp [attempts, target_eq_none hd hdq]
    | some q' =>
        have hsame := hw.session_some hdq
        rw [hq, Option.some.injEq] at hsame
        subst hsame
        obtain ⟨k', hk', hconn, -⟩ := hsoft.session hk
        simp [attempts, target_eq hd hdq hk', hlen, hconn, hw.fid, hw.id]

theorem broadcast_step {x y : System} {env : WorkerEnv} (hr : Reachable (machine P) x)
    (hw : x.worker = .broadcast r (some p)) (h : (machine P).Step x (.worker env) y)
    (hh : ∀ a ∈ env.handler, Considerate x.srv p a) :
    p ∈ x.srv.pxWsApiWaitingForResponse ∧ ∃ c s' d m, x.srv.calls p = some c ∧
      invokeHandler x.srv p env = .ok s' ∧ Soft x.srv s' ∧ OthersKept p x.srv s' ∧
      s'.calls p = some d ∧ Weaker c d ∧
      y = ⟨answered (s'.withNet m) p d r env.reply, .broadcast r
        ((after p x.srv.pxWsApiWaitingForResponse).find? (isTarget x.srv r.msg.fid)), x.httpd⟩ := by
  have hx := reachable_inv hr
  have hs := hx.sound
  have hpc := hx.pc
  rw [hw] at hpc
  have hp := hpc.2.2.1
  obtain ⟨c, hc⟩ := hs.wf.call_of_mem (.inr hp)
  obtain ⟨s', he, hsoft, hn, hkept⟩ := invokeHandler_others hs hc hh
  obtain ⟨d, hd, hweak⟩ := hsoft.call hc
  have hs' := Soft.sound hsoft hs hn
  obtain ⟨m, -, hresp⟩ := respond_eq hs' hd he r
  have hnext := findNext_waiting hs.wf hp (fun _ _ hc => bCallFidMatch_eq (s := x.srv) hc r.msg.fid)
  have hstep : (workerStep x.srv x.worker env).map (fun r => (⟨r.1, r.2, x.httpd⟩ : System)) =
      .ok y := Option.some.inj h
  simp only [hw, workerStep, hnext, hresp, ok_bind] at hstep
  cases hstep
  exact ⟨hp, c, s', d, m, hc, he, hsoft, hkept, hd, hweak, rfl⟩

def isWorker : Label → Bool
  | .worker _ => true
  | _ => false

def During (r : Reply) (x : System) (a : Label) (_ : System) : Prop :=
  (∃ it, x.worker = .broadcast r it) ∧
    ∀ env p, a = .worker env → x.worker = .broadcast r (some p) →
      ∀ act ∈ env.handler, Considerate x.srv p act

/-- The data frames that a call is given: one with its own SID, at the one
iteration of the loop that is for the call, unless it hears nothing. -/
structure Told (P : Platform) (y : System) (r : Reply) (ls : List Label) (p : CallPtr)
    (evs : List Event) : Prop where
  visit : ∃ as env bs z c k, ls = as ++ .worker env :: bs ∧ Along (machine P) (During r) y as z ∧
    z.worker = .broadcast r (some p) ∧ y.srv.calls p = some c ∧ target z.srv p = some (c, k) ∧
    evs.filter (isData p) = if hears z.srv r p env then
      [.queue .worker p k.conn r.msg.fid c.ulId (.reply r) (env.reply.sent p)] else []

theorem Told.later {y : System} {ls : List Label} {evs evs' : List Event}
    (h : Told P y r ls p evs) (a : Label) (hsilent : evs'.filter (isData p) = []) :
    Told P y r (ls ++ [a]) p (evs ++ evs') := by
  obtain ⟨as, env, bs, z, c, k, hls, hrun, hz, hc, ht, hevs⟩ := h
  refine ⟨as, env, bs ++ [a], z, c, k, ?_, hrun, hz, hc, ht, ?_⟩
  · rw [hls, List.append_assoc, List.cons_append]
  · rw [List.filter_append, hsilent, List.append_nil, hevs]

structure Sofar (P : Platform) (y : System) (r : Reply) (ls : List Label)
    (done todo : List CallPtr) (evs : List Event) (z : System) : Prop where
  split : listeners y.srv r.msg.fid = done ++ todo
  worker : z.worker = .broadcast r todo.head?
  waiting : z.srv.pxWsApiWaitingForResponse =
    y.srv.pxWsApiWaitingForResponse.filter (fun p => p ∉ done)
  lists : z.srv.pxWsApiCall = y.srv.pxWsApiCall ++ done.filter (isLong y.srv)
  kept : ∀ p, p ∉ done → z.srv.calls p = y.srv.calls p
  freed : ∀ p ∈ done, isLong y.srv p = false → z.srv.calls p = none
  trace : z.srv.trace = y.srv.trace ++ evs
  silent : ∀ p, p ∉ done → evs.filter (isData p) = []
  told : ∀ p ∈ done, Told P y r ls p evs
  count : ls.countP isWorker = done.length

theorem filter_silent {evs : List Event} (h : ∀ p, ∀ e ∈ evs, isData p e = false) (p : CallPtr) :
    evs.filter (isData p) = [] :=
  List.filter_eq_nil_iff.2 (fun e he => by simp [h p e he])

theorem sofar_other {y z w : System} {ls : List Label} {done todo : List CallPtr}
    {evs : List Event} {a : Label} (hz : Reachable (machine P) z)
    (h : Sofar P y r ls done todo evs z) (hstep : (machine P).Step z a w)
    (ha : ∀ env, a ≠ .worker env) : ∃ evs', Sofar P y r (ls ++ [a]) done todo evs' w := by
  obtain ⟨hworker, hstill, evs', htrace, hsilent⟩ :=
    others_step hz hstep ha (by rw [h.worker]; rfl)
  have hnot : isWorker a = false := by
    cases a with
    | worker env => exact absurd rfl (ha env)
    | _ => rfl
  refine ⟨evs ++ evs', h.split, hworker.trans h.worker, hstill.waiting.trans h.waiting,
    hstill.lists.trans h.lists, ?_, ?_, ?_, ?_, ?_, ?_⟩
  · rw [hstill.calls]
    exact h.kept
  · rw [hstill.calls]
    exact h.freed
  · rw [htrace, h.trace, List.append_assoc]
  · intro p hp
    rw [List.filter_append, h.silent p hp, filter_silent hsilent, List.nil_append]
  · intro p hp
    exact (h.told p hp).later a (filter_silent hsilent p)
  · rw [List.countP_append, h.count]
    simp [hnot]

theorem listeners_nodup (hs : WF s) (fid : UInt32) : (listeners s fid).Nodup :=
  (List.nodup_append.1 hs.nodup).2.1.filter _

theorem Sofar.rest {y z : System} {ls : List Label} {done todo : List CallPtr} {evs : List Event}
    (hy : WF y.srv) (h : Sofar P y r ls done todo evs z) :
    listeners z.srv r.msg.fid = todo := by
  have htarget : ∀ p, p ∉ done → isTarget z.srv r.msg.fid p = isTarget y.srv r.msg.fid p := by
    intro p hp
    rw [isTarget, h.kept p hp, isTarget]
  have hswap : listeners z.srv r.msg.fid =
      (listeners y.srv r.msg.fid).filter (fun p => p ∉ done) := by
    simp only [listeners, h.waiting, List.filter_filter]
    apply List.filter_congr
    intro p _
    by_cases hp : p ∈ done
    · simp [hp]
    · simp [hp, htarget p hp]
  have hn := listeners_nodup hy r.msg.fid
  rw [h.split] at hn
  have hdisj := (List.nodup_append.1 hn).2.2
  rw [hswap, h.split, List.filter_append,
    List.filter_eq_nil_iff.2 (fun p hp => by simpa using hp), List.nil_append]
  refine List.filter_eq_self.2 (fun p hp => ?_)
  rw [decide_eq_true_eq]
  exact fun hd => hdisj p hd p hp rfl

theorem answered_lists {env : SendEnv} (hp : p ∉ s.pxWsApiCall) :
    (answered s p c r env).pxWsApiCall = s.pxWsApiCall ++ if c.longTerm then [p] else [] := by
  unfold answered
  cases c.longTerm with
  | true => simp [rearmed, Server.toCalls, Server.setCall, frames, List.erase_of_not_mem hp]
  | false => simp [removed, Server.unlink, Server.log, frames, List.erase_of_not_mem hp]

theorem filter_not_mem_snoc {l done : List CallPtr} (hn : l.Nodup) :
    (l.filter (fun q => q ∉ done)).erase p = l.filter (fun q => q ∉ done ++ [p]) := by
  rw [(hn.filter _).erase_eq_filter, List.filter_filter]
  apply List.filter_congr
  intro q _
  by_cases hq : q = p
  · simp [hq]
  · simp [hq]

theorem filter_turn {soft fs : List Event} (long : Bool)
    (hfs : ∀ e ∈ fs, isData p e = true ∧ ∀ q ≠ p, isData q e = false)
    (hsilent : ∀ q, ∀ e ∈ soft, isData q e = false) :
    (soft ++ (fs ++ Event.respond p r :: if long then [] else [Event.free p])).filter (isData p) = fs ∧
    ∀ q ≠ p, (soft ++ (fs ++ Event.respond p r :: if long then [] else [Event.free p])).filter
      (isData q) = [] := by
  have hrest : ∀ q, (Event.respond p r :: if long then [] else [Event.free p]).filter (isData q) = [] := by
    intro q
    cases long <;> rfl
  constructor
  · rw [List.filter_append, filter_silent hsilent, List.filter_append, hrest, List.append_nil,
      List.nil_append, List.filter_eq_self.2 (fun e he => (hfs e he).1)]
  · intro q hq
    rw [List.filter_append, filter_silent hsilent, List.filter_append, hrest, List.append_nil,
      List.nil_append, List.filter_eq_nil_iff.2 (fun e he => by simp [(hfs e he).2 q hq])]

theorem sofar_worker {y z w : System} {ls : List Label} {done todo : List CallPtr}
    {evs : List Event} {env : WorkerEnv} (hy : Reachable (machine P) y)
    (hrun : Along (machine P) (During r) y ls z) (h : Sofar P y r ls done (p :: todo) evs z)
    (hstep : (machine P).Step z (.worker env) w) (hcond : During r z (.worker env) w) :
    ∃ evs', Sofar P y r (ls ++ [.worker env]) (done ++ [p]) todo evs' w := by
  have hz := hrun.reachable hy
  have hyw := (reachable_inv hy).sound.wf
  have hzw := (reachable_inv hz).sound.wf
  have hw : z.worker = .broadcast r (some p) := h.worker
  obtain ⟨hp, c, s', d, m, hc, he, hsoft, hothers, hd, hweak, rfl⟩ :=
    broadcast_step hz hw hstep (hcond.2 env p rfl hw)
  have hnodup := listeners_nodup hyw r.msg.fid
  rw [h.split] at hnodup
  have hpdone : p ∉ done := fun hmem =>
    (List.nodup_append.1 hnodup).2.2 p hmem p List.mem_cons_self rfl
  have hrest := h.rest hyw
  have htarget : isTarget z.srv r.msg.fid p = true := by
    have hmem : p ∈ listeners z.srv r.msg.fid := by
      rw [hrest]
      exact List.mem_cons_self
    exact (List.mem_filter.1 hmem).2
  have hlive := isTarget_eq hc r.msg.fid ▸ htarget
  rw [Bool.and_eq_true, beq_iff_eq] at hlive
  obtain ⟨q, hq⟩ := Option.isSome_iff_exists.1 hlive.2
  obtain ⟨k, -, ht⟩ := hzw.attached.target hc hq
  have hyc : y.srv.calls p = some c := (h.kept p hpdone).symm.trans hc
  have hlong : isLong y.srv p = d.longTerm := by
    rw [isLong, hyc, Option.any_some, hweak.longTerm]
  have hnotcall : p ∉ z.srv.pxWsApiCall := hzw.not_call hp
  obtain ⟨soft, htrace, hsilent⟩ := hsoft.trace
  have hframes := replyFrames_hears (r := r) he hsoft ht hd
  have hown : ∀ e ∈ replyFrames s' p r env.reply,
      isData p e = true ∧ ∀ q ≠ p, isData q e = false := by
    intro e hmem
    obtain ⟨-, -, -, rfl⟩ := mem_replyFrames hmem
    exact ⟨by simp [isData], fun q hne => by simpa [isData] using Ne.symm hne⟩
  have hturn := filter_turn (r := r) d.longTerm hown (fun q e hmem => aside_silent (soft_aside (hsilent e hmem)) q)
  refine ⟨evs ++ (soft ++ (replyFrames s' p r env.reply ++ .respond p r ::
    if d.longTerm then [] else [.free p])), ?_, ?_, ?_, ?_, ?_, ?_, ?_, ?_, ?_, ?_⟩
  · rw [h.split, List.append_assoc, List.singleton_append]
  · have hnext : (after p z.srv.pxWsApiWaitingForResponse).find? (isTarget z.srv r.msg.fid) =
        todo.head? := by
      rw [← List.head?_filter, ← after_filter htarget]
      have hafter : after p (listeners z.srv r.msg.fid) = todo := by
        rw [hrest]
        simp [after]
      exact congrArg List.head? hafter
    rw [hnext]
  · have hn := (List.nodup_append.1 hyw.nodup).2.1
    have hwait : s'.pxWsApiWaitingForResponse =
        y.srv.pxWsApiWaitingForResponse.filter (fun q => q ∉ done) :=
      hsoft.waiting.trans h.waiting
    rw [answered_waiting, ← filter_not_mem_snoc hn, ← hwait]
    rfl
  · have hnot : p ∉ (s'.withNet m).pxWsApiCall := by
      have hlists : (s'.withNet m).pxWsApiCall = z.srv.pxWsApiCall := hsoft.lists
      rwa [hlists]
    rw [answered_lists hnot, List.filter_append, ← List.append_assoc, ← h.lists]
    have hlists : (s'.withNet m).pxWsApiCall = z.srv.pxWsApiCall := hsoft.lists
    rw [hlists]
    congr 1
    cases hl : d.longTerm <;> simp [hlong, hl]
  · intro q' hq'
    rw [List.mem_append, List.mem_singleton, not_or] at hq'
    have hkept := h.kept q' hq'.1
    rw [answered_calls_ne r env.reply hq'.2, ← hkept]
    exact hothers q' hq'.2
  · intro q' hq' hshort
    by_cases hqp : q' = p
    · subst hqp
      rw [hlong] at hshort
      simp [answered, hshort]
    · rw [List.mem_append, List.mem_singleton] at hq'
      rw [answered_calls_ne r env.reply hqp]
      exact (hothers q' hqp).trans (h.freed q' (hq'.resolve_right hqp) hshort)
  · rw [answered_trace]
    have hs'trace : (s'.withNet m).trace = y.srv.trace ++ evs ++ soft := by
      rw [← h.trace]
      exact htrace
    rw [hs'trace]
    simp only [List.append_assoc]
    rfl
  · intro q' hq'
    rw [List.mem_append, List.mem_singleton, not_or] at hq'
    rw [List.filter_append, h.silent q' hq'.1, hturn.2 q' hq'.2, List.nil_append]
  · intro q' hq'
    by_cases hqp : q' = p
    · subst hqp
      refine ⟨⟨ls, env, [], z, c, k, rfl, hrun, hw, hyc, ht, ?_⟩⟩
      rw [List.filter_append, h.silent q' hpdone, hturn.1, List.nil_append, hframes, hlive.1]
    · rw [List.mem_append, List.mem_singleton] at hq'
      exact (h.told q' (hq'.resolve_right hqp)).later _ (hturn.2 q' hqp)
  · rw [List.countP_append, h.count]
    simp [isWorker]

/-- What a whole broadcast leaves behind: the calls that it was for were told,
and nobody else was; they are gone from the waiting list, the one-shot ones are
freed and the others stand at the end of pxWsApiCall in their former order; the
other calls are untouched. -/
structure Reached (P : Platform) (y : System) (r : Reply) (ls : List Label) (w : System) : Prop where
  told : ∃ evs, w.srv.trace = y.srv.trace ++ evs ∧
    (∀ p ∈ listeners y.srv r.msg.fid, Told P y r ls p evs) ∧
    ∀ p, p ∉ listeners y.srv r.msg.fid → evs.filter (isData p) = []
  waiting : w.srv.pxWsApiWaitingForResponse =
    y.srv.pxWsApiWaitingForResponse.filter (fun p => p ∉ listeners y.srv r.msg.fid)
  lists : w.srv.pxWsApiCall =
    y.srv.pxWsApiCall ++ (listeners y.srv r.msg.fid).filter (isLong y.srv)
  freed : ∀ p ∈ listeners y.srv r.msg.fid, isLong y.srv p = false → w.srv.calls p = none
  kept : ∀ p, p ∉ listeners y.srv r.msg.fid → w.srv.calls p = y.srv.calls p
  count : ls.countP isWorker = (listeners y.srv r.msg.fid).length + 1

theorem sofar_start {y : System} (hw : y.worker = .broadcast r (listeners y.srv r.msg.fid).head?) :
    Sofar P y r [] [] (listeners y.srv r.msg.fid) [] y where
  split := rfl
  worker := hw
  waiting := by simp
  lists := by simp
  kept _ _ := rfl
  freed _ h := absurd h List.not_mem_nil
  trace := by simp
  silent _ _ := rfl
  told _ h := absurd h List.not_mem_nil
  count := rfl

theorem sofar_end {y z w : System} {ls : List Label} {done : List CallPtr} {evs : List Event}
    {env : WorkerEnv} (h : Sofar P y r ls done [] evs z)
    (hstep : (machine P).Step z (.worker env) w) :
    w.worker = .receive ∧ Reached P y r (ls ++ [.worker env]) w := by
  have hall : listeners y.srv r.msg.fid = done := by rw [h.split, List.append_nil]
  have hz : z.worker = .broadcast r none := h.worker
  have hok : (workerStep z.srv z.worker env).map (fun r => (⟨r.1, r.2, z.httpd⟩ : System)) =
      .ok w := Option.some.inj hstep
  rw [hz] at hok
  cases hok
  refine ⟨rfl, ⟨evs ++ [.handled r], ?_, ?_, ?_⟩, ?_, ?_, ?_, ?_, ?_⟩
  · simp [Server.handled, Server.log, h.trace]
  · intro p hp
    rw [hall] at hp
    exact (h.told p hp).later _ rfl
  · intro p hp
    rw [hall] at hp
    rw [List.filter_append, h.silent p hp]
    rfl
  · rw [hall]
    exact h.waiting
  · rw [hall]
    exact h.lists
  · rw [hall]
    exact h.freed
  · rw [hall]
    exact h.kept
  · rw [hall, List.countP_append, h.count]
    rfl

theorem broadcast_run {y z : System} {ls : List Label} (hy : Reachable (machine P) y)
    (hw : y.worker = .broadcast r (listeners y.srv r.msg.fid).head?)
    (h : Along (machine P) (During r) y ls z) :
    (∃ done todo evs, Sofar P y r ls done todo evs z) ∨
      (z.worker = .receive ∧ Reached P y r ls z) := by
  induction h with
  | start => exact .inl ⟨[], _, [], sofar_start hw⟩
  | @step ls z a w hrun hstep hcond ih =>
      obtain ⟨it, hit⟩ := hcond.1
      rcases ih with ⟨done, todo, evs, hz⟩ | ⟨hend, -⟩
      · rcases worker_or_other a with ⟨env, rfl⟩ | ha
        · cases todo with
          | nil => exact .inr (sofar_end hz hstep)
          | cons p todo =>
              obtain ⟨evs', hw'⟩ := sofar_worker hy hrun hz hstep hcond
              exact .inl ⟨_, _, _, hw'⟩
        · obtain ⟨evs', hw'⟩ :=
            sofar_other (hrun.reachable hy) hz hstep ha
          exact .inl ⟨_, _, _, hw'⟩
      · rw [hend] at hit
        cases hit

/-- A message with id 0 reaches every live call that waits with its FID, once,
and no other call, as long as no handler ends another call than its own. -/
theorem broadcast_once {x y w : System} {env : WorkerEnv} {ls : List Label}
    (hx : Reachable (machine P) x) (hw : x.worker = .taken r) (hid : r.msg.id = 0)
    (hstart : (machine P).Step x (.worker env) y) (h : Along (machine P) (During r) y ls w)
    (hend : w.worker = .receive) : y.srv = x.srv ∧ Reached P y r ls w := by
  have hs := (reachable_inv hx).sound.wf
  have hok : (workerStep x.srv x.worker env).map (fun r => (⟨r.1, r.2, x.httpd⟩ : System)) =
      .ok y := Option.some.inj hstart
  rw [hw, workerStep, if_pos hid, findFirst_fid hs, ok_bind] at hok
  cases hok
  refine ⟨rfl, ?_⟩
  have hhead : (listeners x.srv r.msg.fid).head? =
      x.srv.pxWsApiWaitingForResponse.find? (isTarget x.srv r.msg.fid) := List.head?_filter ..
  rcases broadcast_run (hx.step hstart) (by rw [hhead]) h with ⟨done, todo, evs, hsofar⟩ | ⟨-, hr⟩
  · rw [hsofar.worker] at hend
    cases hend
  · exact hr

end Loop

section Samples

deriving instance DecidableEq for WebapiMsg, Reply

def takenReply (x : System) : Option Reply :=
  match x.worker with
  | .taken r => some r
  | _ => none

theorem worker_of_takenReply {x : System} (h : takenReply x = some r) : x.worker = .taken r := by
  unfold takenReply at h
  split at h
  next r' hw => rw [hw, Option.some.inj h]
  next => cases h

def duringOk (r : Reply) (x : System) (a : Label) : Bool :=
  match x.worker, a with
  | .broadcast r' it, .worker env => r' == r && env.handler.all (fun
    | .complete q => it == some q
    | .unregister _ => false
    | _ => true)
  | .broadcast r' _, _ => r' == r
  | _, _ => false

theorem during_of_ok {x y : System} {a : Label} (h : duringOk r x a = true) : During r x a y := by
  cases hw : x.worker with
  | broadcast r' it =>
      cases a with
      | worker env =>
          simp only [duringOk, hw, Bool.and_eq_true, beq_iff_eq, List.all_eq_true] at h
          obtain ⟨rfl, hall⟩ := h
          refine ⟨⟨it, hw⟩, fun env' p he hp act hact => ?_⟩
          cases he
          rw [hw] at hp
          cases hp
          have hok := hall act hact
          cases act with
          | complete q => exact (Option.some.inj (beq_iff_eq.1 hok)).symm
          | unregister fid => cases hok
          | sendJson | sendStatus | sendGroup | setContext | register => trivial
      | _ =>
          simp only [duringOk, hw, beq_iff_eq] at h
          exact ⟨⟨it, by rw [hw, h]⟩, fun env p he => by cases he⟩
  | _ => simp [duringOk, hw] at h

def published : List Label :=
  [.registerQueue 0x1011 (some 0) true true, .register (some 7) 0x1011 0 true true,
    .connect 0 true, .connect 1 true] ++ request 0 (0x1011, 4, 5) ++ request 1 (0x1011, 0, 6) ++
    work 9 ++ [.periphTake 0, .periphPublish 0 (some [7])] ++ work 1

def waiters : Platform := platform [(0x1011, 4, 5), (0x1011, 0, 6)]

theorem broadcast_once_two : ∃ x y w r ls, Reachable (machine waiters) x ∧ x.worker = .taken r ∧
    listeners x.srv r.msg.fid = [0, 1] ∧ y.srv = x.srv ∧ Reached waiters y r ls w := by
  have h : (machine waiters).reaches (initSystem (fun _ => 10)) published (fun x =>
      (takenReply x).any (fun r => r.msg.id == 0 && (listeners x.srv r.msg.fid == [0, 1] &&
        (machine waiters).reaches x [.worker okEnv] (fun y =>
          (machine waiters).check (duringOk r) (fun w => w.worker matches .receive) y (work 3))))) =
      true := by
    decide +kernel
  obtain ⟨x, hx, hp⟩ := exists_of_reaches h
  obtain ⟨r, hr, hp⟩ := (Option.any_eq_true ..).1 hp
  simp only [Bool.and_eq_true, beq_iff_eq] at hp
  obtain ⟨hid, hlisten, hp⟩ := hp
  obtain ⟨y, hy, hp⟩ := exists_step_of_reaches hp
  obtain ⟨w, hw, hend⟩ := exists_of_check hp
  have hreach : Reachable (machine waiters) x := ⟨_, _, ⟨_, rfl⟩, hx⟩
  have hend' : w.worker = .receive := by
    cases he : w.worker <;> simp [he] at hend ⊢
  obtain ⟨hsame, hreached⟩ := broadcast_once hreach (worker_of_takenReply hr) hid hy
    (hw.imp (fun _ _ _ hok => during_of_ok hok)) hend'
  exact ⟨x, y, w, r, _, hreach, worker_of_takenReply hr, hlisten, hsame, hreached⟩

def Unheard (env : WorkerEnv) : Prop := ∃ x y w r, Reachable (machine waiters) x ∧
  x.worker = .taken r ∧ r.msg.id = 0 ∧ r.msg.len ≠ 0 ∧ 0 ∈ listeners x.srv r.msg.fid ∧
  (machine waiters).Step x (.worker okEnv) y ∧
  Along (machine waiters) (During r) y [.worker env, .worker okEnv, .worker okEnv] w ∧
  w.worker = .receive ∧ w.srv.trace.filter (isData 0) = []

def unheardOk (env : WorkerEnv) : Bool :=
  (machine waiters).reaches (initSystem (fun _ => 10)) published (fun x =>
    (takenReply x).any (fun r => r.msg.id == 0 && (r.msg.len != 0 &&
      ((listeners x.srv r.msg.fid).contains 0 && (machine waiters).reaches x [.worker okEnv] (fun y =>
        (machine waiters).check (duringOk r) (fun w => w.worker matches .receive &&
          (w.srv.trace.filter (isData 0)).isEmpty) y
          [.worker env, .worker okEnv, .worker okEnv])))))

theorem unheard_of_ok {env : WorkerEnv} (h : unheardOk env = true) : Unheard env := by
  obtain ⟨x, hx, hp⟩ := exists_of_reaches h
  obtain ⟨r, hr, hp⟩ := (Option.any_eq_true ..).1 hp
  simp only [Bool.and_eq_true, beq_iff_eq, bne_iff_ne] at hp
  obtain ⟨hid, hlen, hlisten, hp⟩ := hp
  obtain ⟨y, hy, hp⟩ := exists_step_of_reaches hp
  obtain ⟨w, hw, hend⟩ := exists_of_check hp
  rw [Bool.and_eq_true, List.isEmpty_iff] at hend
  have hend' : w.worker = .receive := by
    cases he : w.worker <;> simp [he] at hend ⊢
  exact ⟨x, y, w, r, ⟨_, _, ⟨_, rfl⟩, hx⟩, worker_of_takenReply hr, hid, hlen,
    List.contains_iff_mem.1 hlisten, hy, hw.imp (fun _ _ _ hok => during_of_ok hok), hend',
    hend.2⟩

/-- The handler of the call ends it, or no buffer is to be had for its reply. -/
theorem broadcast_unheard : Unheard { okEnv with handler := [.complete 0] } ∧
    Unheard { okEnv with reply := ⟨false, fun _ => true⟩ } := by
  refine ⟨unheard_of_ok ?_, unheard_of_ok ?_⟩
  · decide +kernel
  · decide +kernel

end Samples

end WirelessGateway.Broadcast
