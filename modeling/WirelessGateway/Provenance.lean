import WirelessGateway.Steps

namespace WirelessGateway.Provenance

open CJson WirelessGateway.Types Memory WsServer Transport Worker Tasks Sends WellFormed Lifecycle
open Steps Lib.Linked Lib.Runs

variable {P : Platform} {G : Guard} {s t : Server} {p : CallPtr} {c d e : ApiCall}

/-- What may become of a call in a run: it keeps its key, its kind and its
handler, and it gets back neither its session nor its NEW flag. -/
structure Evolves (c d : ApiCall) : Prop where
  session : d.session = c.session ∨ d.session = none
  fid : d.ulFid = c.ulFid
  id : d.ulId = c.ulId
  len : d.ulReqDataLen = c.ulReqDataLen
  handler : d.fHandler = c.fHandler
  longTerm : d.longTerm = c.longTerm
  toDelete : d.toDelete = c.toDelete
  isNew : c.isNew = false → d.isNew = false

theorem Evolves.refl (c : ApiCall) : Evolves c c :=
  ⟨.inl rfl, rfl, rfl, rfl, rfl, rfl, rfl, fun h => h⟩

theorem Evolves.trans (h : Evolves c d) (h' : Evolves d e) : Evolves c e where
  session := by
    rcases h'.session with he | he
    · rw [he]
      exact h.session
    · exact .inr he
  fid := h'.fid.trans h.fid
  id := h'.id.trans h.id
  len := h'.len.trans h.len
  handler := h'.handler.trans h.handler
  longTerm := h'.longTerm.trans h.longTerm
  toDelete := h'.toDelete.trans h.toDelete
  isNew hn := h'.isNew (h.isNew hn)

theorem Evolves.session_some (h : Evolves c d) {q : SessPtr} (hq : d.session = some q) :
    c.session = some q := by
  rcases h.session with he | he
  · rw [← he, hq]
  · rw [he] at hq
    cases hq

theorem weaker_evolves (h : Weaker c d) : Evolves c d :=
  ⟨h.session, h.fid, h.id, h.len, h.handler, h.longTerm, h.toDelete, fun hn => h.isNew ▸ hn⟩

theorem clearNew_evolves (c : ApiCall) : Evolves c c.clearNew :=
  ⟨.inl rfl, rfl, rfl, rfl, rfl, by simp, by simp, by simp⟩

def AsksFor (P : Platform) (json : Json) (c : ApiCall) : Prop :=
  ∃ alloc q fl sid h, frameFid json ≠ 0 ∧
    frameNumber json ['F', 'L', 'A', 'G', 'S'] = some fl ∧
    frameNumber json ['S', 'I', 'D'] = some sid ∧ c = acceptedCall P alloc json q sid h

def Fresh (P : Platform) (G : Guard) (s t : Server) (e : ApiCall) : Prop :=
  ∃ n json sid, t = accepted s n json e ∧ AsksFor P json e ∧
    frameNumber json ['S', 'I', 'D'] = some sid ∧ e.ulId = sid &&& 0xffff ∧ G.accept s sid

/-- What a call was before a step. Only forwarding it takes its ARG away, and
only the DELIVERED status its NEW flag. -/
def Was (s t : Server) (z : CallPtr) (e : ApiCall) : Prop :=
  ∃ c, s.calls z = some c ∧ Evolves c e ∧
    (e.pucReqData = c.pucReqData ∨ ∃ q, t = (forwarded s z c q).toWaiting z) ∧
    (e.isNew = c.isNew ∨ ∃ env, delivered s z env = true ∧ t = announced s z c env)

theorem setCall_was (hc : s.calls p = some c) (h : Evolves c d)
    (hd : d.pucReqData = c.pucReqData) (hn : d.isNew = c.isNew) {z : CallPtr}
    (hz : (s.setCall p d).calls z = some e) :
    ∃ c, s.calls z = some c ∧ Evolves c e ∧ e.pucReqData = c.pucReqData ∧ e.isNew = c.isNew := by
  by_cases hzp : z = p
  · subst hzp
    rw [setCall_calls_self, Option.some.injEq] at hz
    exact ⟨c, hc, hz ▸ h, hz ▸ hd, hz ▸ hn⟩
  · rw [setCall_calls_ne hzp] at hz
    exact ⟨e, hz, .refl e, rfl, rfl⟩

theorem removed_was {z : CallPtr} (hz : (removed s p).calls z = some e) :
    ∃ c, s.calls z = some c ∧ Evolves c e ∧ e.pucReqData = c.pucReqData ∧ e.isNew = c.isNew := by
  by_cases hzp : z = p
  · simp [hzp] at hz
  · rw [removed_calls_ne hzp] at hz
    exact ⟨e, hz, .refl e, rfl, rfl⟩

theorem act_calls (h : Act P G s t) {z : CallPtr} (hz : t.calls z = some e) :
    Was s t z e ∨ (z = s.nextCall ∧ Fresh P G s t e) := by
  have hwas : (∃ c, s.calls z = some c ∧ Evolves c e ∧ e.pucReqData = c.pucReqData ∧
      e.isNew = c.isNew) → Was s t z e ∨ (z = s.nextCall ∧ Fresh P G s t e) :=
    fun ⟨c, hc, hev, hd, hn⟩ => .inl ⟨c, hc, hev, .inl hd, .inl hn⟩
  have hsame : t.calls z = s.calls z → Was s t z e ∨ (z = s.nextCall ∧ Fresh P G s t e) :=
    fun h => hwas ⟨e, h ▸ hz, .refl e, rfl, rfl⟩
  cases h with
  | soft h =>
      obtain ⟨c, hc, hw⟩ := h.call_back hz
      exact hwas ⟨c, hc, weaker_evolves hw, hw.data, hw.isNew⟩
  | @connect fd alloc _ => exact hsame (by cases alloc <;> rfl)
  | disconnect => exact hsame (congrFun (hangUp_calls ..).1 z)
  | @accept n k q alloc json fl sid hd _ _ hfid hfl hsid hG =>
      by_cases hzn : z = s.nextCall
      · have hnew : (s.allocCall (acceptedCall P alloc json q sid hd)).calls z = some e := hz
        rw [hzn, allocCall_calls_self, Option.some.injEq] at hnew
        subst hnew
        exact .inr ⟨hzn, n, json, sid, rfl, ⟨alloc, q, fl, sid, hd, hfid, hfl, hsid, rfl⟩, hsid, rfl, hG⟩
      · exact hsame (allocCall_calls_ne hzn)
  | reject => exact hsame rfl
  | @forward p c q _ hc =>
      by_cases hzp : z = p
      · subst hzp
        have hnew : (forwarded s z c q).calls z = some e := hz
        rw [forwarded, setCall_calls_self, Option.some.injEq] at hnew
        refine .inl ⟨c, hc, ?_, .inr ⟨q, rfl⟩, .inl ?_⟩
        · rw [← hnew]
          split
          · exact .refl c
          · exact ⟨.inl rfl, rfl, rfl, rfl, rfl, rfl, rfl, fun h => h⟩
        · rw [← hnew]
          split <;> rfl
      · exact hsame (setCall_calls_ne (s := pushed s q ⟨requestOf c, p⟩) hzp)
  | stall => exact hsame rfl
  | refuse _ hc =>
      exact hwas (setCall_was (s := frames s (_ :: _)) (d := ApiCall.dropSession _) hc
        ⟨.inr rfl, rfl, rfl, rfl, rfl, rfl, rfl, fun h => h⟩ rfl rfl hz)
  | @announce p c env _ hc =>
      by_cases hzp : z = p
      · subst hzp
        rw [announced, setCall_calls_self, Option.some.injEq] at hz
        cases hsent : delivered s z env with
        | true =>
            rw [hsent, if_pos rfl] at hz
            subst hz
            exact .inl ⟨c, hc, clearNew_evolves c, .inl rfl, .inr ⟨env, hsent, rfl⟩⟩
        | false =>
            rw [hsent, if_neg Bool.false_ne_true] at hz
            subst hz
            exact hwas ⟨c, hc, .refl c, rfl, rfl⟩
      · exact hsame (setCall_calls_ne (s := frames s _) hzp)
  | invalid => exact hwas (removed_was (s := frames s _) hz)
  | release => exact hwas (removed_was hz)
  | @respond p c r env _ hc =>
      simp only [answered] at hz
      split at hz
      · exact hwas (setCall_was (s := frames s _)
          (d := c.setNextPoll (s.tick + c.ulPollIntervalTicks)) hc
          ⟨.inl rfl, rfl, rfl, rfl, rfl, rfl, rfl, fun h => h⟩ rfl rfl hz)
      · exact hwas (removed_was (s := frames s _) hz)
  | take => exact hsame rfl
  | post => exact hsame rfl
  | drop => exact hsame rfl
  | receive => exact hsame rfl
  | handled => exact hsame rfl

theorem act_evolves (h : Act P G s t) {z : CallPtr} (hz : t.calls z = some e)
    (hlt : z < s.nextCall) : ∃ c, s.calls z = some c ∧ Evolves c e := by
  obtain ⟨c, hc, hev, -⟩ := (act_calls h hz).resolve_right (fun hn => Nat.ne_of_lt hlt hn.1)
  exact ⟨c, hc, hev⟩

theorem act_session_none (h : Act P G s t) {z : CallPtr} (hc : s.calls z = some c)
    (hlt : z < s.nextCall) (hq : c.session = none) : ∀ e, t.calls z = some e → e.session = none := by
  intro e he
  obtain ⟨d, hd, hev⟩ := act_evolves h he hlt
  rw [hc, Option.some.injEq] at hd
  subst hd
  rcases hev.session with he | he
  · rw [he, hq]
  · exact he

theorem act_nextCall (h : Act P G s t) : s.nextCall ≤ t.nextCall := by
  cases h with
  | soft h => exact Nat.le_of_eq h.nextCall.symm
  | @connect fd alloc _ => cases alloc <;> exact Nat.le_refl _
  | disconnect => exact Nat.le_of_eq (hangUp_calls ..).2.symm
  | accept => exact Nat.le_succ _
  | reject => exact Nat.le_succ _
  | @respond p c r env =>
      simp only [answered]
      split <;> exact Nat.le_refl _
  | _ => exact Nat.le_refl _

theorem act_nextReply (h : Act P G s t) : s.nextReply ≤ t.nextReply := by
  cases h with
  | soft h => exact h.nextReply.ge
  | @connect fd alloc => cases alloc <;> exact Nat.le_refl _
  | @disconnect conn k => cases k.userData <;> exact Nat.le_refl _
  | @respond p c r env =>
      unfold answered
      cases c.longTerm <;> exact Nat.le_refl _
  | post => exact Nat.le_succ _
  | _ => exact Nat.le_refl _

/-- What the worker did to a call when it sent it a frame. -/
def Frames (G : Guard) (s t : Server) (p : CallPtr) (c : ApiCall) (sent : Bool) : Payload → Prop
  | .status sta =>
      (sta = apiCallStatusBusy ∧ ∃ env, t = (refused s p c env).toWaiting p) ∨
      (sta = apiCallStatusDelivered ∧ p ∈ s.pxWsApiWaitingForResponse ∧ c.isNew = true ∧
        ∃ env, delivered s p env = sent ∧ t = announced s p c env) ∨
      (sta = apiCallStatusInvalid ∧ p ∈ s.pxWsApiCall ∧ s.wsGetFidQueue c.ulFid = none ∧
        ∃ env, t = invalidated s p env)
  | .reply r => p ∈ s.pxWsApiWaitingForResponse ∧ (sent = true → G.data s p r) ∧
      ∃ env, t = answered s p c r env
  | .json _ => False

/-- The step that an event of the history was logged by. -/
def Caused (P : Platform) (G : Guard) (s t : Server) : Event → Prop
  | .accept p n json c => p = s.nextCall ∧ AsksFor P json c ∧ t = accepted s n json c
  | .forward p q m => ∃ c, p ∈ s.pxWsApiCall ∧ s.calls p = some c ∧ m = requestOf c ∧
      s.wsGetFidQueue c.ulFid = some q ∧
      (∀ p' ∈ before p s.pxWsApiCall, ∀ c', s.calls p' = some c' → c'.longTerm = true) ∧
      t = (forwarded s p c q).toWaiting p
  | .refuse p => ∃ c q env, p ∈ s.pxWsApiCall ∧ s.calls p = some c ∧
      s.wsGetFidQueue c.ulFid = some q ∧ t = (refused s p c env).toWaiting p
  | .stall p => ∃ c q, p ∈ s.pxWsApiCall ∧ s.calls p = some c ∧
      s.wsGetFidQueue c.ulFid = some q ∧ t = (stalled s p).toWaiting p
  | .queue .worker p _ _ _ arg sent =>
      ∃ c, s.calls p = some c ∧
        ((c.toDelete = true ∧ ∀ r, arg ≠ .reply r) ∨ Frames G s t p c sent arg)
  | _ => True

theorem soft_caused {e : Event} (he : SoftEvent s e) : Caused P G s t e := by
  cases e with
  | queue src p n fid sid arg sent =>
      obtain ⟨c, x, ht, -, -, harg, hdel, -⟩ := he
      cases src with
      | worker => exact ⟨c, (target_eq_some_iff.1 ht).1, .inl ⟨hdel rfl, harg⟩⟩
      | _ => trivial
  | control => trivial
  | _ => cases he

theorem attempts_caused (arg : Payload) {env : SendEnv} (hc : s.calls p = some c)
    (h : delivered s p env = env.sent p → Frames G s t p c (env.sent p) arg) :
    ∀ e ∈ attempts s .worker p arg env, Caused P G s t e := by
  intro e he
  obtain ⟨d, x, ht, rfl⟩ := mem_attempts he
  have halloc : env.alloc = true := by
    by_contra hne
    simp [attempts, ht, hne] at he
  exact ⟨c, hc, .inr (h (by simp [delivered, ht, halloc]))⟩

theorem act_trace (h : Act P G s t) : ∃ l, t.trace = s.trace ++ l ∧ ∀ e ∈ l, Caused P G s t e := by
  have hone : ∀ {e : Event}, t.trace = s.trace ++ [e] → Caused P G s t e →
      ∃ l, t.trace = s.trace ++ l ∧ ∀ e ∈ l, Caused P G s t e :=
    fun ht he => ⟨_, ht, fun e' he' => List.mem_singleton.1 he' ▸ he⟩
  have hnone : t.trace = s.trace → ∃ l, t.trace = s.trace ++ l ∧ ∀ e ∈ l, Caused P G s t e :=
    fun ht => ⟨[], by simp [ht], by simp⟩
  cases h with
  | soft h =>
      obtain ⟨l, ht, hl⟩ := h.trace
      exact ⟨l, ht, fun e he => soft_caused (hl e he)⟩
  | @connect fd alloc _ => cases alloc <;> exact hone rfl trivial
  | @disconnect n k _ _ =>
      refine hone (e := .disconnect n) ?_ trivial
      cases k.userData <;> rfl
  | @accept n k q alloc json fl sid hd _ _ hfid hfl hsid _ =>
      exact hone rfl ⟨rfl, ⟨alloc, q, fl, sid, hd, hfid, hfl, hsid, rfl⟩, rfl⟩
  | @reject n evs hk hev =>
      refine ⟨evs ++ [.free s.nextCall], by simp [rejected], fun e he => ?_⟩
      rcases List.mem_append.1 he with he | he
      · obtain ⟨_, _, _, _, rfl⟩ := hev e he
        trivial
      · rw [List.mem_singleton.1 he]
        trivial
  | forward hp hc hdel hq hroom hfirst => exact hone rfl ⟨_, hp, hc, rfl, hq, hfirst, rfl⟩
  | stall hp hc hdel hq => exact hone rfl ⟨_, _, hp, hc, hq, rfl⟩
  | @refuse p c q env hp hc hdel hq =>
      refine ⟨_, rfl, fun e he => ?_⟩
      rcases List.mem_cons.1 he with rfl | he
      · exact ⟨c, q, env, hp, hc, hq, rfl⟩
      · exact attempts_caused (.status _) hc (fun _ => .inl ⟨rfl, env, rfl⟩) e he
  | @announce p c env hp hc hdel hnew =>
      exact ⟨_, rfl, attempts_caused (.status _) hc (fun hs => .inr (.inl ⟨rfl, hp, hnew, env, hs, rfl⟩))⟩
  | @invalid p c env hp hc hdel hq =>
      refine ⟨_, invalidated_trace s p env, fun e he => ?_⟩
      rcases List.mem_append.1 he with he | he
      · exact attempts_caused (.status _) hc (fun _ => .inr (.inr ⟨rfl, hp, hq, env, rfl⟩)) e he
      · rw [List.mem_singleton.1 he]
        trivial
  | release => exact hone rfl trivial
  | @respond p c r env hp hc hr hm hdata hG =>
      refine ⟨_, answered_trace s p c r env, fun e he => ?_⟩
      rcases List.mem_append.1 he with he | he
      · unfold replyFrames at he
        split at he
        next => cases he
        next hlen =>
          exact attempts_caused (.reply r) hc
            (fun hs => ⟨hp, fun ht => hdata hlen (hs.trans ht), env, rfl⟩) e he
      · rcases List.mem_cons.1 he with rfl | he
        · trivial
        · split at he
          · cases he
          · rw [List.mem_singleton.1 he]
            trivial
  | take => exact hnone rfl
  | post => exact hnone rfl
  | drop => exact hnone rfl
  | receive => exact hnone rfl
  | handled => exact hone rfl trivial

/-- What becomes of pxWsApiCall: calls leave it, and the calls that are added are
accepted ones and LONG_TERM ones. -/
theorem act_lists (h : Act P G s t) : t.pxWsApiCall.Sublist s.pxWsApiCall ∨
    ∃ p, t.pxWsApiCall = s.pxWsApiCall.erase p ++ [p] ∧
      (p = s.nextCall ∨ ∃ c r, s.calls p = some c ∧ c.longTerm = true ∧ G.respond s p r) := by
  cases h with
  | soft h => exact .inl (h.lists ▸ List.Sublist.refl _)
  | @connect fd alloc _ => cases alloc <;> exact .inl (List.Sublist.refl _)
  | @disconnect n k _ _ => cases k.userData <;> exact .inl (List.Sublist.refl _)
  | accept => exact .inr ⟨s.nextCall, rfl, .inl rfl⟩
  | forward | stall | refuse | invalid | release => exact .inl List.erase_sublist
  | @respond p c r env _ hc _ _ _ hG =>
      unfold answered
      cases hl : c.longTerm with
      | true => exact .inr ⟨p, rfl, .inr ⟨c, r, hc, hl, hG⟩⟩
      | false => exact .inl List.erase_sublist
  | reject | announce | take | post | drop | receive | handled => exact .inl (List.Sublist.refl _)

theorem act_routes (h : Act P G s t) {fid : UInt32} {q : QueueId}
    (hq : s.wsGetFidQueue fid = some q) : t.wsGetFidQueue fid = some q := by
  cases h with
  | soft h => exact h.routes fid q hq
  | @connect fd alloc _ => cases alloc <;> exact hq
  | @disconnect n k _ _ => cases k.userData <;> exact hq
  | @respond p c r env =>
      unfold answered
      cases c.longTerm <;> exact hq
  | _ => exact hq

/-- The requests of a queue that are not answered yet. -/
def outstanding (s : Server) (q : QueueId) : List Request :=
  (s.periph q).queue ++ (s.periph q).busy.toList ++ (s.periph q).unanswered

def replies (s : Server) : List Reply := s.handling.toList ++ s.xWsWorkerQueue

theorem replies_congr (hh : t.handling = s.handling) (hq : t.xWsWorkerQueue = s.xWsWorkerQueue) :
    replies t = replies s := by
  rw [replies, hh, hq, replies]

/-- A request is in the queue of its FID, and carries the FID and the SID of its
call. -/
structure RequestOk (s : Server) (q : QueueId) (r : Request) : Prop where
  lt : r.call < s.nextCall
  routed : s.wsGetFidQueue r.msg.fid = some q
  labels : ∀ c, s.calls r.call = some c → r.msg.fid = c.ulFid ∧ r.msg.id = c.ulId

def ReplyOk (s : Server) (m : Reply) : Prop :=
  m.call < s.nextCall ∧ ∀ c, s.calls m.call = some c → m.msg.fid = c.ulFid ∧
    if m.published then m.msg.id = 0 else m.msg.id = c.ulId

structure Labelled (s : Server) : Prop where
  request : ∀ q, ∀ r ∈ outstanding s q, RequestOk s q r
  reply : ∀ m ∈ replies s, ReplyOk s m

theorem act_requestOk (h : Act P G s t) {q : QueueId} {r : Request} (hr : RequestOk s q r) :
    RequestOk t q r := by
  refine ⟨Nat.lt_of_lt_of_le hr.lt (act_nextCall h), act_routes h hr.routed, fun d hd => ?_⟩
  obtain ⟨c, hc, hev⟩ := act_evolves h hd hr.lt
  rw [hev.fid, hev.id]
  exact hr.labels c hc

theorem act_replyOk (h : Act P G s t) {m : Reply} (hm : ReplyOk s m) : ReplyOk t m := by
  refine ⟨Nat.lt_of_lt_of_le hm.1 (act_nextCall h), fun d hd => ?_⟩
  obtain ⟨c, hc, hev⟩ := act_evolves h hd hm.1
  rw [hev.fid, hev.id]
  exact hm.2 c hc

theorem forwarded_outstanding (s : Server) (p : CallPtr) (c : ApiCall) (q q' : QueueId) :
    (outstanding ((forwarded s p c q).toWaiting p) q').Perm
      ((if q' = q then [⟨requestOf c, p⟩] else []) ++ outstanding s q') := by
  show (outstanding (s.setPeriph q { s.periph q with
    queue := (s.periph q).queue ++ [⟨requestOf c, p⟩] }) q').Perm _
  by_cases hq : q' = q
  · subst hq
    simp only [outstanding, Server.setPeriph, Function.update_self, if_true, List.append_assoc,
      List.singleton_append]
    exact List.perm_middle
  · simp [outstanding, Server.setPeriph, hq]

theorem setPeriph_outstanding {q : QueueId} {d : Periph}
    (h : (d.queue ++ d.busy.toList ++ d.unanswered).Subperm (outstanding s q)) (q' : QueueId) :
    (outstanding (s.setPeriph q d) q').Subperm (outstanding s q') := by
  by_cases hq : q' = q
  · subst hq
    simpa [outstanding, Server.setPeriph] using h
  · simp [outstanding, Server.setPeriph, hq, List.Subperm.refl]

theorem act_requests (h : Act P G s t) : (∀ q, (outstanding t q).Subperm (outstanding s q)) ∨
    ∃ p c q, p ∈ s.pxWsApiCall ∧ s.calls p = some c ∧ s.wsGetFidQueue c.ulFid = some q ∧
      t = (forwarded s p c q).toWaiting p := by
  have hsame : SameMessages s t → ∀ q, (outstanding t q).Subperm (outstanding s q) := fun h q => by
    rw [outstanding, h.periph]
    exact .refl _
  cases h with
  | forward hp hc _ hq => exact .inr ⟨_, _, _, hp, hc, hq, rfl⟩
  | soft h => exact .inl (hsame ⟨h.periph, h.handling, h.queue⟩)
  | connect => exact .inl (hsame (connect_messages ..))
  | disconnect => exact .inl (hsame (hangUp_messages ..))
  | respond => exact .inl (hsame (answered_messages ..))
  | take hb hq =>
      refine .inl (setPeriph_outstanding (List.Perm.subperm ?_))
      simp only [outstanding, hq, hb, Option.toList_none, Option.toList_some, List.append_nil,
        List.append_assoc, List.cons_append]
      exact List.perm_middle
  | post hb =>
      refine .inl (setPeriph_outstanding (List.Sublist.subperm ?_))
      simp [outstanding]
  | drop hb =>
      refine .inl (setPeriph_outstanding (List.Perm.subperm ?_))
      simp only [outstanding, hb, Option.toList_none, Option.toList_some, List.append_nil,
        List.append_assoc]
      exact List.Perm.append_left _ List.perm_append_comm
  | _ => exact .inl (fun q => .refl _)

theorem act_replies (h : Act P G s t) {m : Reply} (hm : m ∈ replies t) :
    m ∈ replies s ∨ (m.serial = s.nextReply ∧ t.nextReply = s.nextReply + 1) ∧
      ∃ q, ∃ r ∈ outstanding s q, m.call = r.call ∧
        m.msg.fid = r.msg.fid ∧ if m.published then m.msg.id = 0 else m.msg.id = r.msg.id := by
  have hsame : t.handling = s.handling → t.xWsWorkerQueue = s.xWsWorkerQueue → m ∈ replies s :=
    fun hh hq => by rwa [replies_congr hh hq] at hm
  have hmessages : SameMessages s t → m ∈ replies s := fun h => hsame h.handling h.queue
  cases h with
  | soft h => exact .inl (hsame h.handling h.queue)
  | connect => exact .inl (hmessages (connect_messages ..))
  | disconnect => exact .inl (hmessages (hangUp_messages ..))
  | respond => exact .inl (hmessages (answered_messages ..))
  | @post q r id pub data hb hroom hid =>
      have hm' : m ∈ replies s ++ [⟨⟨r.msg.fid, id, data, (data.map List.length).getD 0⟩, r.call,
          pub, s.nextReply⟩] := by
        simpa [replies, posted, Server.setPeriph] using hm
      rcases List.mem_append.1 hm' with hm | hm
      · exact .inl hm
      · rw [List.mem_singleton] at hm
        subst hm
        exact .inr ⟨⟨rfl, rfl⟩, q, r, by simp [outstanding, hb], rfl, rfl, hid⟩
  | @receive r rs hq hh =>
      have hm' : m ∈ r :: rs := by simpa [replies, Server.receive] using hm
      exact .inl (by simpa [replies, hq, hh] using hm')
  | @handled r hr =>
      have hm' : m ∈ s.xWsWorkerQueue := by simpa [replies, Server.handled, Server.log] using hm
      exact .inl (by simp [replies, hm'])
  | _ => exact .inl (hsame rfl rfl)

/-- The requests and the replies after an act are old ones, the request of a
forwarded call, or the reply to a request. -/
theorem act_messages (h : Act P G s t) :
    (∀ q, ∀ r ∈ outstanding t q, r ∈ outstanding s q ∨ ∃ p c, s.calls p = some c ∧
      s.wsGetFidQueue c.ulFid = some q ∧ r = ⟨requestOf c, p⟩) ∧
    ∀ m ∈ replies t, m ∈ replies s ∨ ∃ q, ∃ r ∈ outstanding s q, m.call = r.call ∧
      m.msg.fid = r.msg.fid ∧ if m.published then m.msg.id = 0 else m.msg.id = r.msg.id := by
  refine ⟨fun q r hr => ?_, fun m hm => (act_replies h hm).imp_right And.right⟩
  rcases act_requests h with hsub | ⟨p, c, q', -, hc, hq, rfl⟩
  · exact .inl ((hsub q).subset hr)
  · rw [(forwarded_outstanding s p c q' q).mem_iff, List.mem_append] at hr
    rcases hr with hr | hr
    · split at hr
      next he => exact .inr ⟨p, c, hc, he ▸ hq, List.mem_singleton.1 hr⟩
      next => cases hr
    · exact .inl hr

theorem act_labelled (hs : WF s) (h : Act P G s t) (hl : Labelled s) : Labelled t := by
  obtain ⟨hreq, hrep⟩ := act_messages h
  constructor
  · intro q r hr
    rcases hreq q r hr with hr | ⟨p, c, hc, hq, rfl⟩
    · exact act_requestOk h (hl.request q r hr)
    · refine act_requestOk h ⟨hs.nextCall p (by simp [hc]), hq, fun d hd => ?_⟩
      rw [hc, Option.some.injEq] at hd
      exact hd ▸ ⟨rfl, rfl⟩
  · intro m hm
    rcases hrep m hm with hm | ⟨q, r, hr, hcall, hfid, hid⟩
    · exact act_replyOk h (hl.reply m hm)
    · obtain ⟨hlt, -, hok⟩ := hl.request q r hr
      refine act_replyOk h ⟨hcall ▸ hlt, fun d hd => ?_⟩
      obtain ⟨hf, hi⟩ := hok d (hcall ▸ hd)
      refine ⟨hfid.trans hf, ?_⟩
      split at hid
      next hp => rw [if_pos hp, hid]
      next hp => rw [if_neg hp, hid, hi]

theorem reachable_labelled {x : System} (h : Reachable (machine P) x) : Labelled x.srv := by
  refine reachable_acts (fun depth => ⟨fun q r hr => ?_, fun m hm => ?_⟩)
    (fun s t hs hact hl => act_labelled hs hact hl) h
  · simp [outstanding, initServer] at hr
  · simp [replies, initServer] at hm

end WirelessGateway.Provenance
