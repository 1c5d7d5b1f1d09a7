import WirelessGateway.Sends

namespace WirelessGateway.WellFormed

open WirelessGateway.Types Memory Sends Lib.Linked

variable {s t u : Server} {p : CallPtr} {c d : ApiCall}

/-- What holds of the heap and of the lists between any two steps. A session
and its open connection point to each other. -/
structure WF (s : Server) : Prop where
  nodup : (s.pxWsApiCall ++ s.pxWsApiWaitingForResponse).Nodup
  linked : ∀ p, (s.calls p).isSome ↔ p ∈ s.pxWsApiCall ++ s.pxWsApiWaitingForResponse
  attached : Attached s
  owner : ∀ q x, s.sessions q = some x → s.conns x.conn = some ⟨x.fd, some q⟩
  userData : ∀ n k q, s.conns n = some k → k.userData = some q →
    ∃ x, s.sessions q = some x ∧ x.conn = n
  fds : ∀ n m k l, s.conns n = some k → s.conns m = some l → k.fd = l.fd → n = m
  nextCall : ∀ p, (s.calls p).isSome → p < s.nextCall
  nextConn : ∀ n, (s.conns n).isSome → n < s.nextConn
  nextSess : ∀ q, (s.sessions q).isSome → q < s.nextSess

theorem WF.call_of_mem (h : WF s) (hp : p ∈ s.pxWsApiCall ∨ p ∈ s.pxWsApiWaitingForResponse) :
    ∃ c, s.calls p = some c :=
  Option.isSome_iff_exists.1 ((h.linked p).2 (List.mem_append.2 hp))

theorem WF.mem_of_call (h : WF s) (hc : s.calls p = some c) :
    p ∈ s.pxWsApiCall ∨ p ∈ s.pxWsApiWaitingForResponse :=
  List.mem_append.1 ((h.linked p).1 (by simp [hc]))

theorem WF.groupOrder_isSome (h : WF s) : ∀ p ∈ groupOrder s, (s.calls p).isSome :=
  fun p hp => (h.linked p).2 (List.mem_append.2 (List.mem_append.1 hp).symm)

theorem WF.not_waiting (h : WF s) (hp : p ∈ s.pxWsApiCall) : p ∉ s.pxWsApiWaitingForResponse :=
  fun hq => (List.nodup_append.1 h.nodup).2.2 p hp p hq rfl

theorem WF.not_call (h : WF s) (hp : p ∈ s.pxWsApiWaitingForResponse) : p ∉ s.pxWsApiCall :=
  fun hq => h.not_waiting hq hp

theorem WF.fresh (h : WF s) (hp : s.nextCall ≤ p) : s.calls p = none := by
  cases hc : s.calls p with
  | none => rfl
  | some c => exact absurd (h.nextCall p (by simp [hc])) (Nat.not_lt.2 hp)

theorem WF.session_unique (h : WF s) {q q' : SessPtr} {x y : ApiSession}
    (hq : s.sessions q = some x) (hq' : s.sessions q' = some y) (hfd : x.fd = y.fd) : q = q' := by
  have hx := h.owner q x hq
  rw [h.fds _ _ _ _ hx (h.owner q' y hq') hfd, h.owner q' y hq'] at hx
  simp only [Option.some.injEq, Conn.mk.injEq] at hx
  exact hx.2.symm

theorem WF.moved (h : WF s)
    (hl : (t.pxWsApiCall ++ t.pxWsApiWaitingForResponse).Perm
      (s.pxWsApiCall ++ s.pxWsApiWaitingForResponse))
    (hcalls : ∀ p, (t.calls p).isSome = (s.calls p).isSome)
    (hsess : ∀ p d q, t.calls p = some d → d.session = some q →
      ∃ c, s.calls p = some c ∧ c.session = some q)
    (hconns : t.conns = s.conns) (hsessions : t.sessions = s.sessions)
    (hcall : t.nextCall = s.nextCall) (hconn : t.nextConn = s.nextConn)
    (hse : t.nextSess = s.nextSess) : WF t where
  nodup := hl.nodup_iff.2 h.nodup
  linked p := by
    rw [hcalls, hl.mem_iff]
    exact h.linked p
  attached p d q hd hq := by
    obtain ⟨c, hc, hcq⟩ := hsess p d q hd hq
    rw [hsessions]
    exact h.attached p c q hc hcq
  owner := by
    rw [hsessions, hconns]
    exact h.owner
  userData := by
    rw [hsessions, hconns]
    exact h.userData
  fds := by
    rw [hconns]
    exact h.fds
  nextCall p hp := by
    rw [hcall]
    exact h.nextCall p (hcalls p ▸ hp)
  nextConn := by
    rw [hconns, hconn]
    exact h.nextConn
  nextSess := by
    rw [hsessions, hse]
    exact h.nextSess

theorem update_calls (hc : s.calls p = some c) (hd : d.session = c.session ∨ d.session = none) :
    (∀ p', (Function.update s.calls p (some d) p').isSome = (s.calls p').isSome) ∧
      ∀ p' e q, Function.update s.calls p (some d) p' = some e → e.session = some q →
        ∃ c, s.calls p' = some c ∧ c.session = some q := by
  constructor
  · intro p'
    by_cases hp : p' = p
    · subst hp
      simp [hc]
    · rw [Function.update_of_ne hp]
  · intro p' e q he hq
    by_cases hp : p' = p
    · subst hp
      rw [Function.update_self, Option.some.injEq] at he
      subst he
      rcases hd with hd | hd
      · exact ⟨c, hc, hd ▸ hq⟩
      · rw [hd] at hq
        cases hq
    · rw [Function.update_of_ne hp] at he
      exact ⟨e, he, hq⟩

theorem WF.setCall (h : WF s) (hc : s.calls p = some c)
    (hd : d.session = c.session ∨ d.session = none) : WF (s.setCall p d) := by
  obtain ⟨hsome, hsess⟩ := update_calls hc hd
  exact h.moved (.refl _) hsome hsess rfl rfl rfl rfl rfl

theorem WF.toWaiting (h : WF s) (hc : s.calls p = some c) : WF (s.toWaiting p) :=
  h.moved (perm_toLast_right h.nodup ((h.linked p).1 (by simp [hc]))) (fun _ => rfl)
    (fun _ d _ hd hq => ⟨d, hd, hq⟩) rfl rfl rfl rfl rfl

theorem WF.toCalls (h : WF s) (hc : s.calls p = some c) : WF (s.toCalls p) :=
  h.moved (perm_toLast_left h.nodup ((h.linked p).1 (by simp [hc]))) (fun _ => rfl)
    (fun _ d _ hd hq => ⟨d, hd, hq⟩) rfl rfl rfl rfl rfl

theorem WF.same (h : WF s) (hl : t.pxWsApiCall = s.pxWsApiCall)
    (hw : t.pxWsApiWaitingForResponse = s.pxWsApiWaitingForResponse) (hcalls : t.calls = s.calls)
    (hconns : t.conns = s.conns) (hsessions : t.sessions = s.sessions)
    (hcall : t.nextCall = s.nextCall) (hconn : t.nextConn = s.nextConn)
    (hse : t.nextSess = s.nextSess) : WF t :=
  h.moved (by rw [hl, hw]) (fun p => by rw [hcalls])
    (fun p d q hd hq => ⟨d, by rw [← hcalls, hd], hq⟩) hconns hsessions hcall hconn hse

/-- What a call keeps, and that it can lose but not regain its session. -/
structure Weaker (c d : ApiCall) : Prop where
  session : d.session = c.session ∨ d.session = none
  data : d.pucReqData = c.pucReqData
  len : d.ulReqDataLen = c.ulReqDataLen
  id : d.ulId = c.ulId
  fid : d.ulFid = c.ulFid
  flags : d.flags = c.flags
  handler : d.fHandler = c.fHandler

theorem Weaker.refl (c : ApiCall) : Weaker c c := ⟨.inl rfl, rfl, rfl, rfl, rfl, rfl, rfl⟩

theorem Weaker.trans {e : ApiCall} (h : Weaker c d) (h' : Weaker d e) : Weaker c e where
  session := by
    rcases h'.session with he | he
    · rw [he]
      exact h.session
    · exact .inr he
  data := h'.data.trans h.data
  len := h'.len.trans h.len
  id := h'.id.trans h.id
  fid := h'.fid.trans h.fid
  flags := h'.flags.trans h.flags
  handler := h'.handler.trans h.handler

theorem Weaker.session_some (h : Weaker c d) {q : SessPtr} (hq : d.session = some q) :
    c.session = some q := by
  rcases h.session with he | he
  · rw [← he, hq]
  · rw [he] at hq
    cases hq

theorem Weaker.longTerm (h : Weaker c d) : d.longTerm = c.longTerm := by
  simp [ApiCall.longTerm, h.flags]

theorem Weaker.toDelete (h : Weaker c d) : d.toDelete = c.toDelete := by
  simp [ApiCall.toDelete, h.flags]

theorem Weaker.isNew (h : Weaker c d) : d.isNew = c.isNew := by
  simp [ApiCall.isNew, h.flags]

theorem dropSession_weaker (c : ApiCall) : Weaker c c.dropSession :=
  ⟨.inr rfl, rfl, rfl, rfl, rfl, rfl, rfl⟩

def CallSid (c : ApiCall) (src : Source) (sid : UInt32) (arg : Payload) : Prop :=
  sid = c.ulId ∨ (src ≠ .worker ∧ sid = 0 ∧ ∃ json, arg = .json json)

/-- The frames of a soft step go to live calls on their own connections. The
worker itself sends only the answers to deletes among them, and the httpd task
none. -/
def SoftEvent (s : Server) : Event → Prop
  | .queue src p conn fid sid arg _ => ∃ c x, target s p = some (c, x) ∧ x.conn = conn ∧
      c.ulFid = fid ∧ (∀ r, arg ≠ .reply r) ∧ (src = .worker → c.toDelete = true) ∧
      src ≠ .httpd ∧ CallSid c src sid arg
  | .control conn _ _ => (s.conns conn).isSome
  | _ => False

/-- Steps that move no call between the lists and no message between the
queues: they may drop sessions and send frames. -/
structure Soft (s t : Server) : Prop where
  lists : t.pxWsApiCall = s.pxWsApiCall
  waiting : t.pxWsApiWaitingForResponse = s.pxWsApiWaitingForResponse
  queue : t.xWsWorkerQueue = s.xWsWorkerQueue
  handling : t.handling = s.handling
  periph : t.periph = s.periph
  conns : t.conns = s.conns
  nextConn : t.nextConn = s.nextConn
  nextSess : t.nextSess = s.nextSess
  nextCall : t.nextCall = s.nextCall
  nextReply : t.nextReply = s.nextReply
  routes : ∀ fid q, s.wsGetFidQueue fid = some q → t.wsGetFidQueue fid = some q
  calls : ∀ p, Option.Rel Weaker (s.calls p) (t.calls p)
  sessions : ∀ q, (t.sessions q).map (fun x => (x.conn, x.fd)) =
    (s.sessions q).map (fun x => (x.conn, x.fd))
  trace : ∃ evs, t.trace = s.trace ++ evs ∧ ∀ e ∈ evs, SoftEvent s e

theorem Soft.call (h : Soft s t) (hc : s.calls p = some c) :
    ∃ d, t.calls p = some d ∧ Weaker c d := by
  have hr := h.calls p
  rw [hc] at hr
  cases ht : t.calls p with
  | none =>
      rw [ht] at hr
      cases hr
  | some d =>
      rw [ht] at hr
      cases hr with
      | some hw => exact ⟨d, rfl, hw⟩

theorem Soft.call_back (h : Soft s t) (hd : t.calls p = some d) :
    ∃ c, s.calls p = some c ∧ Weaker c d := by
  have hr := h.calls p
  rw [hd] at hr
  cases hs : s.calls p with
  | none =>
      rw [hs] at hr
      cases hr
  | some c =>
      rw [hs] at hr
      cases hr with
      | some hw => exact ⟨c, rfl, hw⟩

theorem Soft.isSome (h : Soft s t) (p : CallPtr) : (t.calls p).isSome = (s.calls p).isSome := by
  have hr := h.calls p
  cases hs : s.calls p <;> cases ht : t.calls p <;> simp only [hs, ht] at hr <;> first | rfl | cases hr

theorem Soft.session_back (h : Soft s t) {q : SessPtr} {y : ApiSession}
    (hy : t.sessions q = some y) : ∃ x, s.sessions q = some x ∧ x.conn = y.conn ∧ x.fd = y.fd := by
  have hs := h.sessions q
  rw [hy] at hs
  cases hx : s.sessions q with
  | none => simp [hx] at hs
  | some x =>
      simp only [hx, Option.map_some, Option.some.injEq, Prod.mk.injEq] at hs
      exact ⟨x, rfl, hs.1.symm, hs.2.symm⟩

theorem Soft.session (h : Soft s t) {q : SessPtr} {x : ApiSession} (hx : s.sessions q = some x) :
    ∃ y, t.sessions q = some y ∧ y.conn = x.conn ∧ y.fd = x.fd := by
  have hs := h.sessions q
  rw [hx] at hs
  cases hy : t.sessions q with
  | none => simp [hy] at hs
  | some y =>
      simp only [hy, Option.map_some, Option.some.injEq, Prod.mk.injEq] at hs
      exact ⟨y, rfl, hs.1, hs.2⟩

theorem Soft.target_back (h : Soft s t) {y : ApiSession} (hd : target t p = some (d, y)) :
    ∃ c x, target s p = some (c, x) ∧ Weaker c d ∧ x.conn = y.conn ∧ x.fd = y.fd := by
  obtain ⟨hd, q, hq, hy⟩ := target_eq_some_iff.1 hd
  obtain ⟨c, hc, hw⟩ := h.call_back hd
  obtain ⟨x, hx, hconn, hfd⟩ := h.session_back hy
  exact ⟨c, x, target_eq hc (hw.session_some hq) hx, hw, hconn, hfd⟩

theorem Soft.event_back (h : Soft s t) {e : Event} (he : SoftEvent t e) : SoftEvent s e := by
  cases e with
  | queue src p conn fid sid arg sent =>
      obtain ⟨d, y, hd, hconn, hfid, harg, hdel, hsrc, hsid⟩ := he
      obtain ⟨c, x, hc, hw, hx, -⟩ := h.target_back hd
      refine ⟨c, x, hc, hx.trans hconn, hw.fid ▸ hfid, harg, fun hs => hw.toDelete ▸ hdel hs, hsrc, ?_⟩
      rwa [CallSid, ← hw.id]
  | control conn type sent =>
      have he : (t.conns conn).isSome := he
      rwa [h.conns] at he
  | _ => exact he

theorem isTarget_soft (h : Soft s t) {fid : UInt32} (hp : isTarget s fid p = false) :
    isTarget t fid p = false := by
  cases hd : t.calls p with
  | none => simp [isTarget, hd]
  | some d =>
      obtain ⟨c, hc, hw⟩ := h.call_back hd
      rw [isTarget_eq hc] at hp
      rw [isTarget_eq hd, hw.fid]
      cases hq : d.session with
      | none => simp
      | some q => simpa [hw.session_some hq] using hp

theorem Soft.refl (s : Server) : Soft s s where
  lists := rfl
  waiting := rfl
  queue := rfl
  handling := rfl
  periph := rfl
  conns := rfl
  nextConn := rfl
  nextSess := rfl
  nextCall := rfl
  nextReply := rfl
  routes _ _ h := h
  calls p := by
    cases s.calls p with
    | none => exact .none
    | some c => exact .some (.refl c)
  sessions _ := rfl
  trace := ⟨[], by simp, by simp⟩

theorem Soft.trans (h : Soft s t) (h' : Soft t u) : Soft s u where
  lists := h'.lists.trans h.lists
  waiting := h'.waiting.trans h.waiting
  queue := h'.queue.trans h.queue
  handling := h'.handling.trans h.handling
  periph := h'.periph.trans h.periph
  conns := h'.conns.trans h.conns
  nextConn := h'.nextConn.trans h.nextConn
  nextSess := h'.nextSess.trans h.nextSess
  nextCall := h'.nextCall.trans h.nextCall
  nextReply := h'.nextReply.trans h.nextReply
  routes fid q hq := h'.routes fid q (h.routes fid q hq)
  calls p := by
    cases hs : s.calls p with
    | none =>
        have ht : t.calls p = none := by simpa [hs] using h.isSome p
        have hu : u.calls p = none := by simpa [ht] using h'.isSome p
        rw [hu]
        exact .none
    | some c =>
        obtain ⟨d, hd, hw⟩ := h.call hs
        obtain ⟨e, he, hw'⟩ := h'.call hd
        rw [he]
        exact .some (hw.trans hw')
  sessions q := (h'.sessions q).trans (h.sessions q)
  trace := by
    obtain ⟨evs, ht, hs⟩ := h.trace
    obtain ⟨evs', hu, hs'⟩ := h'.trace
    refine ⟨evs ++ evs', by rw [hu, ht, List.append_assoc], fun e he => ?_⟩
    rcases List.mem_append.1 he with he | he
    · exact hs e he
    · exact h.event_back (hs' e he)

theorem Soft.wf (h : Soft s t) (hs : WF s) : WF t where
  nodup := by
    rw [h.lists, h.waiting]
    exact hs.nodup
  linked p := by
    rw [h.isSome, h.lists, h.waiting]
    exact hs.linked p
  attached p d q hd hq := by
    obtain ⟨c, hc, hw⟩ := h.call_back hd
    obtain ⟨x, hx⟩ := hs.attached p c q hc (hw.session_some hq)
    obtain ⟨y, hy, -⟩ := h.session hx
    exact ⟨y, hy⟩
  owner q y hy := by
    obtain ⟨x, hx, hconn, hfd⟩ := h.session_back hy
    rw [h.conns, ← hconn, ← hfd]
    exact hs.owner q x hx
  userData n k q hk hq := by
    rw [h.conns] at hk
    obtain ⟨x, hx, hconn⟩ := hs.userData n k q hk hq
    obtain ⟨y, hy, hyc, -⟩ := h.session hx
    exact ⟨y, hy, hyc.trans hconn⟩
  fds := by
    rw [h.conns]
    exact hs.fds
  nextCall p hp := by
    rw [h.nextCall]
    exact hs.nextCall p (h.isSome p ▸ hp)
  nextConn := by
    rw [h.conns, h.nextConn]
    exact hs.nextConn
  nextSess q hq := by
    obtain ⟨y, hy⟩ := Option.isSome_iff_exists.1 hq
    obtain ⟨x, hx, -⟩ := h.session_back hy
    rw [h.nextSess]
    exact hs.nextSess q (by simp [hx])

theorem Soft.frames {evs : List Event} (h : ∀ e ∈ evs, SoftEvent s e) : Soft s (frames s evs) :=
  { Soft.refl s with trace := ⟨evs, rfl, h⟩ }

theorem Soft.record {n : Net} {evs : List Event} (h : ∀ e ∈ evs, SoftEvent s e) :
    Soft s (record s n evs) :=
  { Soft.refl s with trace := ⟨evs, rfl, h⟩ }

theorem Soft.withNet (s : Server) (n : Net) : Soft s (s.withNet n) :=
  { Soft.refl s with }

theorem Soft.passTicks (s : Server) (d : UInt32) : Soft s (s.passTicks d) :=
  { Soft.refl s with }

theorem Soft.handlers (s : Server) (hs : List ApiHandlerItem) :
    Soft s { s with pxWsApiHandlers := hs } :=
  { Soft.refl s with }

theorem Soft.setSession {q : SessPtr} {x y : ApiSession} (hx : s.sessions q = some x)
    (hconn : y.conn = x.conn) (hfd : y.fd = x.fd) : Soft s (s.setSession q y) :=
  { Soft.refl s with
    sessions := by
      intro q'
      by_cases hq : q' = q
      · subst hq
        simp [Server.setSession, hx, hconn, hfd]
      · simp [Server.setSession, Function.update_of_ne hq] }

theorem Soft.setCall (hc : s.calls p = some c) (hw : Weaker c d) : Soft s (s.setCall p d) :=
  { Soft.refl s with
    calls := by
      intro p'
      by_cases hp : p' = p
      · subst hp
        simpa [Server.setCall, hc] using Option.Rel.some hw
      · simpa [Server.setCall, Function.update_of_ne hp] using (Soft.refl s).calls p' }

theorem Soft.registerQueue (s : Server) (fid : UInt32) (q : Option QueueId) :
    Soft s { s with pxWsFidQueues := s.pxWsFidQueues ++ [⟨fid, q⟩] } :=
  { Soft.refl s with
    routes := by
      intro fid' q' hq
      unfold Server.wsGetFidQueue at hq ⊢
      rw [List.find?_append]
      cases hf : s.pxWsFidQueues.find? (fun f => f.ulFid == fid') with
      | none => simp [hf] at hq
      | some f => simpa [hf] using hq }

end WirelessGateway.WellFormed
