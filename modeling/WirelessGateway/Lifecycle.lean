import Mathlib.Logic.Relation
import WirelessGateway.Tasks
import WirelessGateway.WellFormed

namespace WirelessGateway.Lifecycle

open CJson WirelessGateway.Types Memory WsServer Transport Worker Tasks Sends WellFormed Lib.Linked

variable {s t : Server} {p : CallPtr} {c d : ApiCall}

def acceptedCall (P : Platform) (printAlloc : Bool) (json : Json) (sess : SessPtr) (sid : UInt32)
    (h : Option ApiHandlerItem) : ApiCall :=
  { textCall P printAlloc json sess with
    ulId := sid &&& 0xffff
    fHandler := h.map ApiHandlerItem.fHandler
    pxHandlerContext := (h.map ApiHandlerItem.xHandlerContext).getD 0 }

def requestOf (c : ApiCall) : WebapiMsg where
  fid := c.ulFid
  id := c.ulId
  data :=
    if c.longTerm then
      if c.pucReqData.isSome && 0 < c.ulReqDataLen then
        c.pucReqData.map (fun bs => bs.take c.ulReqDataLen)
      else none
    else c.pucReqData
  len := c.ulReqDataLen

def hangUp (s : Server) (conn : ConnPtr) (userData : Option SessPtr) : Server :=
  match userData with
  | none => s.closeConn conn
  | some q => { s with sessions := Function.update s.sessions q none }.closeConn conn

def accepted (s : Server) (conn : ConnPtr) (json : Json) (c : ApiCall) : Server :=
  ((s.allocCall c).toCalls s.nextCall).log (.accept s.nextCall conn json c)

def rejected (s : Server) (evs : List Event) : Server :=
  { s with nextCall := s.nextCall + 1, trace := s.trace ++ evs ++ [.free s.nextCall] }

def removed (s : Server) (p : CallPtr) : Server :=
  { s.unlink p with calls := Function.update s.calls p none }.log (.free p)

def pushed (s : Server) (q : QueueId) (r : Request) : Server :=
  (s.setPeriph q { s.periph q with queue := (s.periph q).queue ++ [r] }).log (.forward r.call q r.msg)

def forwarded (s : Server) (p : CallPtr) (c : ApiCall) (q : QueueId) : Server :=
  (pushed s q ⟨requestOf c, p⟩).setCall p (if c.longTerm then c else c.dropReqData)

def stalled (s : Server) (p : CallPtr) : Server := s.log (.stall p)

def refused (s : Server) (p : CallPtr) (c : ApiCall) (env : SendEnv) : Server :=
  (frames s (.refuse p :: attempts s .worker p (.status apiCallStatusBusy) env)).setCall p
    c.dropSession

def announced (s : Server) (p : CallPtr) (c : ApiCall) (env : SendEnv) : Server :=
  (frames s (attempts s .worker p (.status apiCallStatusDelivered) env)).setCall p
    (if delivered s p env then c.clearNew else c)

def invalidated (s : Server) (p : CallPtr) (env : SendEnv) : Server :=
  removed (frames s (attempts s .worker p (.status apiCallStatusInvalid) env)) p

def replyFrames (s : Server) (p : CallPtr) (r : Reply) (env : SendEnv) : List Event :=
  if r.msg.len = 0 then [] else attempts s .worker p (.reply r) env

theorem mem_replyFrames {r : Reply} {env : SendEnv} {e : Event} (h : e ∈ replyFrames s p r env) :
    ∃ c x, target s p = some (c, x) ∧
      e = .queue .worker p x.conn c.ulFid c.ulId (.reply r) (env.sent p) := by
  unfold replyFrames at h
  split at h
  · cases h
  · exact mem_attempts h

def rearmed (s : Server) (p : CallPtr) (c : ApiCall) : Server :=
  (s.setCall p (c.setNextPoll (s.tick + c.ulPollIntervalTicks))).toCalls p

def answered (s : Server) (p : CallPtr) (c : ApiCall) (r : Reply) (env : SendEnv) : Server :=
  let s := frames s (replyFrames s p r env ++ [.respond p r])
  if c.longTerm then rearmed s p c else removed s p

def posted (s : Server) (q : QueueId) (r : Request) (id : UInt32) (published : Bool)
    (data : Option Bytes) : Server :=
  { s.setPeriph q { s.periph q with busy := none } with
    xWsWorkerQueue := s.xWsWorkerQueue ++
      [⟨⟨r.msg.fid, id, data, (data.map List.length).getD 0⟩, r.call, published, s.nextReply⟩]
    nextReply := s.nextReply + 1 }

def taken (s : Server) (q : QueueId) (r : Request) (rs : List Request) : Server :=
  s.setPeriph q { s.periph q with queue := rs, busy := some r }

/-- What is assumed of the acts that can go wrong: the SID of a request, a data
frame that the transport accepts, an answer to a call, a request that could not
be allocated and a request that is never answered. -/
structure Guard where
  accept : Server → UInt32 → Prop
  data : Server → CallPtr → Reply → Prop
  respond : Server → CallPtr → Reply → Prop
  stall : Server → CallPtr → Prop
  drop : Server → Request → Prop

/-- Everything that may happen to a call, to a request and to a reply. -/
inductive Act (P : Platform) (G : Guard) : Server → Server → Prop
  | soft {s t : Server} (h : Soft s t) : Act P G s t
  | connect {s : Server} {fd : Int} {alloc : Bool}
      (hfd : ∀ n k, s.conns n = some k → k.fd ≠ fd) : Act P G s (wsServerOnConnect s fd alloc)
  | disconnect {s : Server} {conn : ConnPtr} {k : Conn} (hk : s.conns conn = some k)
      (hq : ∀ q, k.userData = some q → ∀ p c, s.calls p = some c → c.session ≠ some q) :
      Act P G s (hangUp s conn k.userData)
  | accept {s : Server} {conn : ConnPtr} {k : Conn} {q : SessPtr} {alloc : Bool} {json : Json}
      {fl sid : UInt32} {h : Option ApiHandlerItem} (hk : s.conns conn = some k)
      (hq : k.userData = some q) (hfid : frameFid json ≠ 0)
      (hfl : frameNumber json ['F', 'L', 'A', 'G', 'S'] = some fl)
      (hsid : frameNumber json ['S', 'I', 'D'] = some sid) (hG : G.accept s sid) :
      Act P G s (accepted s conn json (acceptedCall P alloc json q sid h))
  | reject {s : Server} {conn : ConnPtr} {evs : List Event} (hk : (s.conns conn).isSome)
      (hev : ∀ e ∈ evs, ∃ fid sid sta sent,
        e = .queue .httpd s.nextCall conn fid sid (.status sta) sent) : Act P G s (rejected s evs)
  | forward {s : Server} {p : CallPtr} {c : ApiCall} {q : QueueId} (hp : p ∈ s.pxWsApiCall)
      (hc : s.calls p = some c) (hdel : c.toDelete = false) (hq : s.wsGetFidQueue c.ulFid = some q)
      (hroom : (s.periph q).queue.length < (s.periph q).depth)
      (hfirst : ∀ p' ∈ before p s.pxWsApiCall, ∀ c', s.calls p' = some c' → c'.longTerm = true) :
      Act P G s ((forwarded s p c q).toWaiting p)
  | stall {s : Server} {p : CallPtr} {c : ApiCall} {q : QueueId} (hp : p ∈ s.pxWsApiCall)
      (hc : s.calls p = some c) (hdel : c.toDelete = false) (hq : s.wsGetFidQueue c.ulFid = some q)
      (hG : G.stall s p) : Act P G s ((stalled s p).toWaiting p)
  | refuse {s : Server} {p : CallPtr} {c : ApiCall} {q : QueueId} {env : SendEnv}
      (hp : p ∈ s.pxWsApiCall) (hc : s.calls p = some c) (hdel : c.toDelete = false)
      (hq : s.wsGetFidQueue c.ulFid = some q)
      (hfull : (s.periph q).depth ≤ (s.periph q).queue.length) : Act P G s ((refused s p c env).toWaiting p)
  | announce {s : Server} {p : CallPtr} {c : ApiCall} {env : SendEnv}
      (hp : p ∈ s.pxWsApiWaitingForResponse) (hc : s.calls p = some c) (hdel : c.toDelete = false)
      (hnew : c.isNew = true) : Act P G s (announced s p c env)
  | invalid {s : Server} {p : CallPtr} {c : ApiCall} {env : SendEnv} (hp : p ∈ s.pxWsApiCall)
      (hc : s.calls p = some c) (hdel : c.toDelete = false) (hq : s.wsGetFidQueue c.ulFid = none) :
      Act P G s (invalidated s p env)
  | release {s : Server} {p : CallPtr} {c : ApiCall} (hc : s.calls p = some c) :
      Act P G s (removed s p)
  | respond {s : Server} {p : CallPtr} {c : ApiCall} {r : Reply} {env : SendEnv}
      (hp : p ∈ s.pxWsApiWaitingForResponse) (hc : s.calls p = some c) (hr : s.handling = some r)
      (hmatch : if r.msg.id = 0 then c.ulFid = r.msg.fid else c.ulId = r.msg.id)
      (hdata : r.msg.len ≠ 0 → delivered s p env = true → G.data s p r) (hG : G.respond s p r) :
      Act P G s (answered s p c r env)
  | take {s : Server} {q : QueueId} {r : Request} {rs : List Request}
      (hb : (s.periph q).busy = none) (hr : (s.periph q).queue = r :: rs) :
      Act P G s (taken s q r rs)
  | post {s : Server} {q : QueueId} {r : Request} {id : UInt32} {published : Bool}
      {data : Option Bytes} (hb : (s.periph q).busy = some r)
      (hroom : s.xWsWorkerQueue.length < workerQueueDepth)
      (hid : if published then id = 0 else id = r.msg.id) :
      Act P G s (posted s q r id published data)
  | drop {s : Server} {q : QueueId} {r : Request} (hb : (s.periph q).busy = some r)
      (hG : G.drop s r) : Act P G s (dropRequest s q r)
  | receive {s : Server} {r : Reply} {rs : List Reply} (hr : s.xWsWorkerQueue = r :: rs)
      (hh : s.handling = none) : Act P G s (s.receive r rs)
  | handled {s : Server} {r : Reply} (hr : s.handling = some r)
      (hnone : (∀ p ∈ s.pxWsApiWaitingForResponse, ∀ c, s.calls p = some c → c.session.isSome →
          if r.msg.id = 0 then c.ulFid ≠ r.msg.fid else c.ulId ≠ r.msg.id) ∨
        ∃ s' p, G.respond s' p r ∧ p ∉ s.pxWsApiWaitingForResponse ∧ r.msg.id ≠ 0) :
      Act P G s (s.handled r)

/-- What a step of a task other than the worker's ends with. -/
inductive Outer (P : Platform) (G : Guard) : Server → Server → Prop
  | same (s : Server) : Outer P G s s
  | connect {s : Server} {fd : Int} {alloc : Bool}
      (hfd : ∀ n k, s.conns n = some k → k.fd ≠ fd) : Outer P G s (wsServerOnConnect s fd alloc)
  | disconnect {s : Server} {conn : ConnPtr} {k : Conn} (hk : s.conns conn = some k)
      (hq : ∀ q, k.userData = some q → ∀ p c, s.calls p = some c → c.session ≠ some q) :
      Outer P G s (hangUp s conn k.userData)
  | accept {s : Server} {conn : ConnPtr} {k : Conn} {q : SessPtr} {alloc : Bool} {json : Json}
      {fl sid : UInt32} {h : Option ApiHandlerItem} (hk : s.conns conn = some k)
      (hq : k.userData = some q) (hfid : frameFid json ≠ 0)
      (hfl : frameNumber json ['F', 'L', 'A', 'G', 'S'] = some fl)
      (hsid : frameNumber json ['S', 'I', 'D'] = some sid) (hG : G.accept s sid) :
      Outer P G s (accepted s conn json (acceptedCall P alloc json q sid h))
  | reject {s : Server} {conn : ConnPtr} {evs : List Event} (hk : (s.conns conn).isSome)
      (hev : ∀ e ∈ evs, ∃ fid sid sta sent,
        e = .queue .httpd s.nextCall conn fid sid (.status sta) sent) : Outer P G s (rejected s evs)
  | take {s : Server} {q : QueueId} {r : Request} {rs : List Request}
      (hb : (s.periph q).busy = none) (hr : (s.periph q).queue = r :: rs) :
      Outer P G s (taken s q r rs)
  | post {s : Server} {q : QueueId} {r : Request} {id : UInt32} {published : Bool}
      {data : Option Bytes} (hb : (s.periph q).busy = some r)
      (hroom : s.xWsWorkerQueue.length < workerQueueDepth)
      (hid : if published then id = 0 else id = r.msg.id) :
      Outer P G s (posted s q r id published data)
  | drop {s : Server} {q : QueueId} {r : Request} (hb : (s.periph q).busy = some r)
      (hG : G.drop s r) : Outer P G s (dropRequest s q r)

theorem Outer.act {P : Platform} {G : Guard} (h : Outer P G s t) : Act P G s t := by
  cases h with
  | same => exact .soft (.refl s)
  | connect hfd => exact .connect hfd
  | disconnect hk hq => exact .disconnect hk hq
  | accept hk hq hfid hfl hsid hG => exact .accept hk hq hfid hfl hsid hG
  | reject hk hev => exact .reject hk hev
  | take hb hr => exact .take hb hr
  | post hb hroom hid => exact .post hb hroom hid
  | drop hb hG => exact .drop hb hG

@[simp] theorem removed_calls_self (s : Server) (p : CallPtr) : (removed s p).calls p = none :=
  Function.update_self ..

theorem removed_calls_ne {p' : CallPtr} (h : p' ≠ p) : (removed s p).calls p' = s.calls p' :=
  Function.update_of_ne h _ _

@[simp] theorem setCall_calls_self (s : Server) (p : CallPtr) (c : ApiCall) :
    (s.setCall p c).calls p = some c := Function.update_self ..

theorem setCall_calls_ne {p' : CallPtr} (h : p' ≠ p) : (s.setCall p c).calls p' = s.calls p' :=
  Function.update_of_ne h _ _

@[simp] theorem allocCall_calls_self (s : Server) (c : ApiCall) :
    (s.allocCall c).calls s.nextCall = some c := Function.update_self ..

theorem allocCall_calls_ne (h : p ≠ s.nextCall) : (s.allocCall c).calls p = s.calls p :=
  Function.update_of_ne h _ _

theorem removed_wf (h : WF s) (p : CallPtr) : WF (removed s p) where
  nodup := nodup_erase_both h.nodup
  linked p' := by
    rw [show (removed s p).pxWsApiCall ++ (removed s p).pxWsApiWaitingForResponse
      = s.pxWsApiCall.erase p ++ s.pxWsApiWaitingForResponse.erase p from rfl,
      mem_erase_both h.nodup, ← h.linked p']
    by_cases hp : p' = p
    · simp [hp]
    · simp [removed_calls_ne hp, hp]
  attached p' d q hd hq := by
    by_cases hp : p' = p
    · simp [hp] at hd
    · exact h.attached p' d q (removed_calls_ne hp ▸ hd) hq
  owner := h.owner
  userData := h.userData
  fds := h.fds
  nextCall p' hp' := by
    by_cases hp : p' = p
    · simp [hp] at hp'
    · exact h.nextCall p' (removed_calls_ne hp ▸ hp')
  nextConn := h.nextConn
  nextSess := h.nextSess

theorem frames_wf (h : WF s) (evs : List Event) : WF (frames s evs) :=
  h.same rfl rfl rfl rfl rfl rfl rfl rfl

section Connections

variable {conn : ConnPtr} {fd : Int}

theorem conn_fresh (h : WF s) : s.conns s.nextConn = none := by
  cases hk : s.conns s.nextConn with
  | none => rfl
  | some k => exact absurd (h.nextConn s.nextConn (by simp [hk])) (Nat.lt_irrefl _)

theorem sess_fresh (h : WF s) : s.sessions s.nextSess = none := by
  cases hx : s.sessions s.nextSess with
  | none => rfl
  | some x => exact absurd (h.nextSess s.nextSess (by simp [hx])) (Nat.lt_irrefl _)

theorem opened_fds (h : WF s) (hfd : ∀ n k, s.conns n = some k → k.fd ≠ fd) (u : Option SessPtr) :
    ∀ n m k l, Function.update s.conns s.nextConn (some ⟨fd, u⟩) n = some k →
      Function.update s.conns s.nextConn (some ⟨fd, u⟩) m = some l → k.fd = l.fd → n = m := by
  intro n m k l hn hm hkl
  by_cases hn' : n = s.nextConn <;> by_cases hm' : m = s.nextConn
  · rw [hn', hm']
  · rw [hn', Function.update_self, Option.some.injEq] at hn
    rw [Function.update_of_ne hm'] at hm
    exact absurd (hn ▸ hkl).symm (hfd m l hm)
  · rw [hm', Function.update_self, Option.some.injEq] at hm
    rw [Function.update_of_ne hn'] at hn
    rw [← hm] at hkl
    exact absurd hkl (hfd n k hn)
  · rw [Function.update_of_ne hn'] at hn
    rw [Function.update_of_ne hm'] at hm
    exact h.fds n m k l hn hm hkl

theorem opened_nextConn (h : WF s) (u : Option SessPtr) :
    ∀ n, (Function.update s.conns s.nextConn (some ⟨fd, u⟩) n).isSome → n < s.nextConn + 1 := by
  intro n hn
  by_cases hn' : n = s.nextConn
  · exact hn' ▸ Nat.lt_succ_self _
  · rw [Function.update_of_ne hn'] at hn
    exact Nat.lt_succ_of_lt (h.nextConn n hn)

theorem opened_owner (h : WF s) (u : Option SessPtr) : ∀ q x, s.sessions q = some x →
    Function.update s.conns s.nextConn (some ⟨fd, u⟩) x.conn = some ⟨x.fd, some q⟩ := by
  intro q x hx
  have hne : x.conn ≠ s.nextConn := by
    intro he
    have hown := h.owner q x hx
    rw [he, conn_fresh h] at hown
    cases hown
  rw [Function.update_of_ne hne]
  exact h.owner q x hx

theorem connect_wf (h : WF s) (hfd : ∀ n k, s.conns n = some k → k.fd ≠ fd) (alloc : Bool) :
    WF (wsServerOnConnect s fd alloc) := by
  cases alloc with
  | false =>
      refine ⟨h.nodup, h.linked, h.attached, opened_owner h none, ?_, opened_fds h hfd none,
        h.nextCall, opened_nextConn h none, h.nextSess⟩
      intro n k q hk hq
      by_cases hn : n = s.nextConn
      · simp only [wsServerOnConnect, Bool.false_eq_true, if_false, Server.log, hn,
          Function.update_self, Option.some.injEq] at hk
        rw [← hk] at hq
        cases hq
      · simp only [wsServerOnConnect, Bool.false_eq_true, if_false, Server.log,
          Function.update_of_ne hn] at hk
        exact h.userData n k q hk hq
  | true =>
      have hold : ∀ q, q ≠ s.nextSess → ∀ y, Function.update s.sessions s.nextSess y q =
          s.sessions q := fun q hq y => Function.update_of_ne hq _ _
      have hsess := sess_fresh h
      refine ⟨h.nodup, h.linked, ?_, ?_, ?_, opened_fds h hfd (some s.nextSess), h.nextCall,
        opened_nextConn h (some s.nextSess), ?_⟩
      · intro p c q hc hq
        obtain ⟨x, hx⟩ := h.attached p c q hc hq
        have hne : q ≠ s.nextSess := by
          rintro rfl
          rw [hsess] at hx
          cases hx
        exact ⟨x, (hold q hne _).trans hx⟩
      · intro q x hx
        by_cases hq : q = s.nextSess
        · simp only [wsServerOnConnect, if_true, Server.log, hq, Function.update_self,
            Option.some.injEq] at hx
          simp [wsServerOnConnect, Server.log, ← hx, hq]
        · exact opened_owner h _ q x ((hold q hq _).symm.trans hx)
      · intro n k q hk hq
        by_cases hn : n = s.nextConn
        · simp only [wsServerOnConnect, if_true, Server.log, hn, Function.update_self,
            Option.some.injEq] at hk
          rw [← hk, Option.some.injEq] at hq
          simp [wsServerOnConnect, Server.log, ← hq, hn]
        · simp only [wsServerOnConnect, if_true, Server.log, Function.update_of_ne hn] at hk
          obtain ⟨x, hx, hxn⟩ := h.userData n k q hk hq
          have hne : q ≠ s.nextSess := by
            rintro rfl
            rw [hsess] at hx
            cases hx
          exact ⟨x, (hold q hne _).trans hx, hxn⟩
      · intro q hq
        by_cases hq' : q = s.nextSess
        · exact hq' ▸ Nat.lt_succ_self _
        · exact Nat.lt_succ_of_lt (h.nextSess q (by
            simpa [wsServerOnConnect, Server.log, hold q hq'] using hq))

theorem closed_fds (h : WF s) : ∀ n m k l, Function.update s.conns conn none n = some k →
    Function.update s.conns conn none m = some l → k.fd = l.fd → n = m := by
  intro n m k l hn hm hkl
  by_cases hn' : n = conn
  · rw [hn', Function.update_self] at hn
    cases hn
  by_cases hm' : m = conn
  · rw [hm', Function.update_self] at hm
    cases hm
  rw [Function.update_of_ne hn'] at hn
  rw [Function.update_of_ne hm'] at hm
  exact h.fds n m k l hn hm hkl

theorem closed_nextConn (h : WF s) :
    ∀ n, (Function.update s.conns conn none n).isSome → n < s.nextConn := by
  intro n hn
  by_cases hn' : n = conn
  · simp [hn'] at hn
  · rw [Function.update_of_ne hn'] at hn
    exact h.nextConn n hn

theorem closed_owner (h : WF s) {k : Conn} (hk : s.conns conn = some k) {q : SessPtr}
    {x : ApiSession} (hx : s.sessions q = some x) (hne : k.userData ≠ some q) :
    Function.update s.conns conn none x.conn = some ⟨x.fd, some q⟩ := by
  have hc : x.conn ≠ conn := by
    rintro rfl
    have hown := h.owner q x hx
    rw [hk, Option.some.injEq] at hown
    rw [hown] at hne
    exact hne rfl
  rw [Function.update_of_ne hc]
  exact h.owner q x hx

theorem hangUp_wf (h : WF s) {k : Conn} (hk : s.conns conn = some k)
    (hq : ∀ q, k.userData = some q → ∀ p c, s.calls p = some c → c.session ≠ some q) :
    WF (hangUp s conn k.userData) := by
  cases hu : k.userData with
  | none =>
      refine ⟨h.nodup, h.linked, h.attached, fun q x hx => closed_owner h hk hx (by simp [hu]), ?_,
        closed_fds h, h.nextCall, closed_nextConn h, h.nextSess⟩
      intro n l q hl hlq
      by_cases hn : n = conn
      · simp [hangUp, Server.closeConn, Server.log, hn] at hl
      · simp only [hangUp, Server.closeConn, Server.log, Function.update_of_ne hn] at hl
        exact h.userData n l q hl hlq
  | some q =>
      obtain ⟨x, hx, hxc⟩ := h.userData conn k q hk hu
      refine ⟨h.nodup, h.linked, ?_, ?_, ?_, closed_fds (s := s) h, h.nextCall,
        closed_nextConn (s := s) h, ?_⟩
      · intro p c q' hc hq'
        have hne : q' ≠ q := by
          rintro rfl
          exact hq q' hu p c hc hq'
        obtain ⟨y, hy⟩ := h.attached p c q' hc hq'
        exact ⟨y, (Function.update_of_ne hne _ _).trans hy⟩
      · intro q' y hy
        by_cases hqq : q' = q
        · simp [hangUp, Server.closeConn, Server.log, hqq] at hy
        · simp only [hangUp, Server.closeConn, Server.log, Function.update_of_ne hqq] at hy
          exact closed_owner h hk hy (by simpa [hu] using Ne.symm hqq)
      · intro n l q' hl hlq
        by_cases hn : n = conn
        · simp [hangUp, Server.closeConn, Server.log, hn] at hl
        · simp only [hangUp, Server.closeConn, Server.log, Function.update_of_ne hn] at hl
          obtain ⟨y, hy, hyn⟩ := h.userData n l q' hl hlq
          have hne : q' ≠ q := by
            rintro rfl
            rw [hx, Option.some.injEq] at hy
            exact hn (by rw [← hyn, ← hy, hxc])
          exact ⟨y, (Function.update_of_ne hne _ _).trans hy, hyn⟩
      · intro q' hq'
        by_cases hqq : q' = q
        · simp [hangUp, Server.closeConn, Server.log, hqq] at hq'
        · simp only [hangUp, Server.closeConn, Server.log, Function.update_of_ne hqq] at hq'
          exact h.nextSess q' hq'

end Connections

theorem accepted_wf (h : WF s) {conn : ConnPtr} {k : Conn} {q : SessPtr}
    (hk : s.conns conn = some k) (hq : k.userData = some q) (hc : c.session = some q)
    (json : Json) : WF (accepted s conn json c) := by
  have hnone : s.calls s.nextCall = none := h.fresh (Nat.le_refl _)
  have hmem : s.nextCall ∉ s.pxWsApiCall ++ s.pxWsApiWaitingForResponse := by
    rw [← h.linked, hnone]
    simp
  have hlists : (accepted s conn json c).pxWsApiCall ++
      (accepted s conn json c).pxWsApiWaitingForResponse =
      (s.pxWsApiCall ++ [s.nextCall]) ++ s.pxWsApiWaitingForResponse := by
    rw [List.mem_append, not_or] at hmem
    simp [accepted, Server.log, Server.toCalls, Server.unlink, Server.allocCall,
      List.erase_of_not_mem hmem.1, List.erase_of_not_mem hmem.2]
  have hperm : ((s.pxWsApiCall ++ [s.nextCall]) ++ s.pxWsApiWaitingForResponse).Perm
      (s.nextCall :: (s.pxWsApiCall ++ s.pxWsApiWaitingForResponse)) := by
    rw [List.append_assoc]
    exact List.perm_middle
  refine ⟨?_, ?_, ?_, h.owner, h.userData, h.fds, ?_, h.nextConn, h.nextSess⟩
  · rw [hlists, hperm.nodup_iff]
    exact List.nodup_cons.2 ⟨hmem, h.nodup⟩
  · intro p
    rw [hlists, hperm.mem_iff, List.mem_cons, ← h.linked]
    by_cases hp : p = s.nextCall
    · simp [accepted, Server.log, Server.toCalls, Server.unlink, Server.allocCall, hp]
    · simp [accepted, Server.log, Server.toCalls, Server.unlink, Server.allocCall, hp]
  · intro p d q' hd hq'
    by_cases hp : p = s.nextCall
    · simp only [accepted, Server.log, Server.toCalls, Server.unlink, Server.allocCall, hp,
        Function.update_self, Option.some.injEq] at hd
      rw [← hd, hc, Option.some.injEq] at hq'
      obtain ⟨x, hx, -⟩ := h.userData conn k q hk hq
      exact ⟨x, hq' ▸ hx⟩
    · simp only [accepted, Server.log, Server.toCalls, Server.unlink, Server.allocCall,
        Function.update_of_ne hp] at hd
      exact h.attached p d q' hd hq'
  · intro p hp
    by_cases hp' : p = s.nextCall
    · exact hp' ▸ Nat.lt_succ_self _
    · simp only [accepted, Server.log, Server.toCalls, Server.unlink, Server.allocCall,
        Function.update_of_ne hp'] at hp
      exact Nat.lt_succ_of_lt (h.nextCall p hp)

theorem rejected_wf (h : WF s) (evs : List Event) : WF (rejected s evs) :=
  ⟨h.nodup, h.linked, h.attached, h.owner, h.userData, h.fds,
    fun p hp => Nat.lt_succ_of_lt (h.nextCall p hp), h.nextConn, h.nextSess⟩

theorem setPeriph_wf (h : WF s) (q : QueueId) (d : Periph) : WF (s.setPeriph q d) :=
  h.same rfl rfl rfl rfl rfl rfl rfl rfl

theorem forwarded_wf (h : WF s) (hc : s.calls p = some c) (q : QueueId) :
    WF (forwarded s p c q) := by
  have hp : WF (pushed s q ⟨requestOf c, p⟩) := h.same rfl rfl rfl rfl rfl rfl rfl rfl
  refine hp.setCall hc (.inl ?_)
  split <;> rfl

theorem refused_wf (h : WF s) (hc : s.calls p = some c) (env : SendEnv) : WF (refused s p c env) :=
  (frames_wf h _).setCall hc (.inr rfl)

theorem announced_wf (h : WF s) (hc : s.calls p = some c) (env : SendEnv) :
    WF (announced s p c env) := by
  refine (frames_wf h _).setCall hc (.inl ?_)
  split <;> rfl

theorem answered_wf (h : WF s) (hc : s.calls p = some c) (r : Reply) (env : SendEnv) :
    WF (answered s p c r env) := by
  have hf := frames_wf h (replyFrames s p r env ++ [.respond p r])
  unfold answered
  cases hl : c.longTerm with
  | true =>
      have hs : WF ((frames s (replyFrames s p r env ++ [.respond p r])).setCall p
          (c.setNextPoll (s.tick + c.ulPollIntervalTicks))) := hf.setCall hc (.inl rfl)
      exact hs.toCalls (Function.update_self ..)
  | false => exact removed_wf hf p

theorem answered_calls_ne (r : Reply) (env : SendEnv) {z : CallPtr} (hz : z ≠ p) :
    (answered s p c r env).calls z = s.calls z := by
  unfold answered
  cases c.longTerm with
  | true => exact setCall_calls_ne hz
  | false => exact removed_calls_ne hz

theorem answered_waiting (s : Server) (p : CallPtr) (c : ApiCall) (r : Reply) (env : SendEnv) :
    (answered s p c r env).pxWsApiWaitingForResponse = s.pxWsApiWaitingForResponse.erase p := by
  unfold answered
  cases c.longTerm <;> rfl

theorem answered_net (s : Server) (p : CallPtr) (c : ApiCall) (r : Reply) (env : SendEnv) :
    (answered s p c r env).net = s.net := by
  unfold answered
  cases c.longTerm <;> rfl

structure SameMessages (s t : Server) : Prop where
  periph : t.periph = s.periph
  handling : t.handling = s.handling
  queue : t.xWsWorkerQueue = s.xWsWorkerQueue

theorem connect_messages (s : Server) (fd : Int) (alloc : Bool) :
    SameMessages s (wsServerOnConnect s fd alloc) := by
  cases alloc with
  | true => exact ⟨rfl, rfl, rfl⟩
  | false => exact ⟨rfl, rfl, rfl⟩

theorem hangUp_messages (s : Server) (conn : ConnPtr) (u : Option SessPtr) :
    SameMessages s (hangUp s conn u) := by
  cases u with
  | none => exact ⟨rfl, rfl, rfl⟩
  | some q => exact ⟨rfl, rfl, rfl⟩

theorem hangUp_calls (s : Server) (conn : ConnPtr) (u : Option SessPtr) :
    (hangUp s conn u).calls = s.calls ∧ (hangUp s conn u).nextCall = s.nextCall := by
  cases u with
  | none => exact ⟨rfl, rfl⟩
  | some q => exact ⟨rfl, rfl⟩

theorem answered_messages (s : Server) (p : CallPtr) (c : ApiCall) (r : Reply) (env : SendEnv) :
    SameMessages s (answered s p c r env) := by
  unfold answered
  cases c.longTerm with
  | true => exact ⟨rfl, rfl, rfl⟩
  | false => exact ⟨rfl, rfl, rfl⟩

theorem answered_trace (s : Server) (p : CallPtr) (c : ApiCall) (r : Reply) (env : SendEnv) :
    (answered s p c r env).trace = s.trace ++
      (replyFrames s p r env ++ .respond p r :: if c.longTerm then [] else [.free p]) := by
  unfold answered
  cases c.longTerm with
  | true => rfl
  | false =>
      simp [removed, frames, Server.log, Server.unlink]

theorem invalidated_trace (s : Server) (p : CallPtr) (env : SendEnv) :
    (invalidated s p env).trace =
      s.trace ++ (attempts s .worker p (.status apiCallStatusInvalid) env ++ [.free p]) := by
  simp [invalidated, removed, frames, Server.log, Server.unlink]

theorem answered_conns (s : Server) (p : CallPtr) (c : ApiCall) (r : Reply) (env : SendEnv) :
    (answered s p c r env).conns = s.conns ∧ (answered s p c r env).nextConn = s.nextConn := by
  unfold answered
  cases c.longTerm with
  | true => exact ⟨rfl, rfl⟩
  | false => exact ⟨rfl, rfl⟩

theorem Act.wf {P : Platform} {G : Guard} (h : Act P G s t) (hs : WF s) : WF t := by
  cases h with
  | soft h => exact h.wf hs
  | connect hfd => exact connect_wf hs hfd _
  | disconnect hk hq => exact hangUp_wf hs hk hq
  | accept hk hq => exact accepted_wf hs hk hq rfl _
  | reject => exact rejected_wf hs _
  | forward _ hc => exact (forwarded_wf hs hc _).toWaiting (Function.update_self ..)
  | stall _ hc => exact (frames_wf hs [_]).toWaiting hc
  | refuse _ hc => exact (refused_wf hs hc _).toWaiting (Function.update_self ..)
  | announce _ hc => exact announced_wf hs hc _
  | invalid => exact removed_wf (frames_wf hs _) _
  | release => exact removed_wf hs _
  | respond _ hc => exact answered_wf hs hc _ _
  | take => exact setPeriph_wf hs _ _
  | post => exact hs.same rfl rfl rfl rfl rfl rfl rfl rfl
  | drop => exact setPeriph_wf hs _ _
  | receive => exact hs.same rfl rfl rfl rfl rfl rfl rfl rfl
  | handled => exact hs.same rfl rfl rfl rfl rfl rfl rfl rfl

abbrev Acts (P : Platform) (G : Guard) : Server → Server → Prop := Relation.ReflTransGen (Act P G)

theorem Acts.preserve {P : Platform} {G : Guard} {I : Server → Prop}
    (hI : ∀ s t, WF s → Act P G s t → I s → I t) (h : Acts P G s t) (hs : WF s) (hi : I s) :
    WF t ∧ I t := by
  induction h with
  | refl => exact ⟨hs, hi⟩
  | tail _ h ih => exact ⟨h.wf ih.1, hI _ _ ih.1 h ih.2⟩

end WirelessGateway.Lifecycle
