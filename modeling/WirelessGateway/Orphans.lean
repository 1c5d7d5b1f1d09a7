import WirelessGateway.Gateway
import WirelessGateway.Routing

namespace WirelessGateway.Orphans

open CJson WirelessGateway.Types Memory WsServer Transport Worker Tasks Sends WellFormed SoftSteps
open Lifecycle Steps Forwarding Outcomes Provenance Uart Modbus ModbusTransaction Gateway Lib.Linked
open Lib.Fallible Lib.Runs

variable {B : Base64} {lib : ModbusLib} {P : Platform} {g h : Device} {a : GatewayLabel}
variable {s t : Server} {p : CallPtr} {c : ApiCall} {r : Reply}

def requests (s : Server) (q : QueueId) : List Request :=
  (s.periph q).queue ++ (s.periph q).busy.toList

/-- Something is still to come for a call: its request is with a peripheral, or
the worker has a reply with its id, or a broadcast for its FID. A message with
id 0 is a broadcast. -/
def Expecting (s : Server) (p : CallPtr) (c : ApiCall) : Prop :=
  (∃ q, ∃ m ∈ requests s q, m.call = p) ∨
    ∃ r ∈ replies s, if r.msg.id = 0 then r.msg.fid = c.ulFid else r.msg.id = c.ulId

/-- No waiting call of a live session is forgotten. -/
def NoOrphan (s : Server) : Prop :=
  ∀ p ∈ s.pxWsApiWaitingForResponse, ∀ c, s.calls p = some c → c.session.isSome → Expecting s p c

def waits (s : Server) (p : CallPtr) : Bool :=
  decide (p ∈ s.pxWsApiWaitingForResponse) && (s.calls p).any (fun c => c.session.isSome)

theorem waits_of (hp : p ∈ s.pxWsApiWaitingForResponse) (hc : s.calls p = some c)
    (hq : c.session.isSome) : waits s p = true := by
  simp [waits, hp, hc, hq]

section Answers

def cnfAnswers (P : Platform) (inMsg : WebapiMsg) (env : UartEnv) : Bool :=
  inMsg.data.any (fun data => (P.parse (data.take inMsg.len)).isSome) && env.jsonAlloc

def rawRxAnswers (B : Base64) (ctx : UartSubscriptionContext) (env : UartEnv) : Bool :=
  ctx.buf.isEmpty || (!(B.encode ctx.buf).isEmpty && env.jsonAlloc)

def rawTxAnswers (B : Base64) (inMsg : WebapiMsg) (env : UartEnv) : Bool :=
  inMsg.data.any (fun data =>
    let b64 := (data.drop 1).take (inMsg.len - 2)
    inMsg.len > 2 && B.decodeBufferRequired b64 > 0 && !(B.decode b64).isEmpty) && env.jsonAlloc

def uartAnswers (B : Base64) (P : Platform) (app : UartApp) (inMsg : WebapiMsg) (env : UartEnv) :
    Bool :=
  if inMsg.fid = espWsApiUart1Cnf then cnfAnswers P inMsg env
  else if inMsg.fid = espWsApiUart2Cnf then cnfAnswers P inMsg env
  else if inMsg.fid = espWsApiUart1RawRx then rawRxAnswers B (app.context ⟨0, Nat.two_pos⟩) env
  else if inMsg.fid = espWsApiUart2RawRx then rawRxAnswers B (app.context ⟨1, Nat.one_lt_two⟩) env
  else if inMsg.fid = espWsApiUart1RawTx then rawTxAnswers B inMsg env
  else if inMsg.fid = espWsApiUart2RawTx then rawTxAnswers B inMsg env
  else if inMsg.fid = espWsApiUart1Echo then env.jsonAlloc
  else if inMsg.fid = espWsApiUart2Echo then env.jsonAlloc
  else false

variable {app : UartApp} {inMsg : WebapiMsg} {env : UartEnv}

theorem handleCnf_isSome (i : Fin 2) :
    (handleCnf P app i inMsg env).2.isSome = cnfAnswers P inMsg env := by
  unfold handleCnf cnfAnswers
  cases inMsg.data with
  | none => rfl
  | some data =>
      simp only [parseUartParams, Option.any_some]
      cases P.parse (data.take inMsg.len) with
      | none => rfl
      | some json => cases env.jsonAlloc <;> rfl

theorem isEmpty_eq (bs : Bytes) : (!bs.isEmpty) = decide (bs.length > 0) := by
  cases bs <;> simp

theorem handleRawRx_isSome (i : Fin 2) :
    (handleRawRx B P app i inMsg env).2.isSome = rawRxAnswers B (app.context i) env := by
  simp only [handleRawRx, rawRxAnswers, isEmpty_eq]
  cases hbuf : (app.context i).buf with
  | nil => rfl
  | cons b bs =>
      simp only [List.length_cons, gt_iff_lt, Nat.succ_pos, if_true, List.isEmpty_cons, Bool.false_or]
      split_ifs with hsend
      · exact hsend.symm
      · exact (Bool.eq_false_iff.2 hsend).symm

theorem handleRawTx_isSome (i : Fin 2) :
    (handleRawTx B P app i inMsg env).2.isSome = rawTxAnswers B inMsg env := by
  simp only [handleRawTx, rawTxAnswers, isEmpty_eq]
  cases inMsg.data with
  | none => rfl
  | some data =>
      simp only [Option.any_some]
      generalize (data.drop 1).take (inMsg.len - 2) = b64
      split_ifs with hlen hsend halloc
      · simpa [hlen, halloc] using hsend
      · simp [halloc]
      · have hempty : 0 < B.decodeBufferRequired b64 → B.decode b64 = [] := by simpa using hsend
        simp only [Option.isSome_none, hlen, decide_true, Bool.true_and]
        by_cases hreq : 0 < B.decodeBufferRequired b64
        · simp [hempty hreq]
        · simp [hreq]
      · simp [hlen]

theorem handleEcho_isSome (i : Fin 2) :
    (handleEcho P app i inMsg env).2.isSome = env.jsonAlloc := by
  unfold handleEcho
  cases env.jsonAlloc <;> rfl

theorem handleMsg_isSome :
    (handleMsg B P app inMsg env).2.isSome = uartAnswers B P app inMsg env := by
  simp only [handleMsg, apply_ite Prod.snd, apply_ite Option.isSome, handleCnf_isSome,
    handleRawRx_isSome, handleRawTx_isSome, handleEcho_isSome, Option.isSome_none]
  rfl

end Answers

section Invariant

/-- Only broadcasts are answered, and nothing that a live call waits for is
lost. -/
def attentive : Guard :=
  { anything with
    respond := fun _ _ r => r.msg.id = 0
    stall := fun s p => target s p = none
    drop := fun s m => waits s m.call = false }

variable {G : Guard}

theorem requests_congr (h : t.periph = s.periph) (q : QueueId) : requests t q = requests s q := by
  rw [requests, h, requests]

theorem Expecting.mono (hreq : ∀ q, ∀ m ∈ requests s q, m.call = p → ∃ q', m ∈ requests t q')
    (hrep : ∀ r ∈ replies s, r ∈ replies t) (hs : Expecting s p c) : Expecting t p c := by
  rcases hs with ⟨q, m, hm, hp⟩ | ⟨r, hr, hmatch⟩
  · obtain ⟨q', hm'⟩ := hreq q m hm hp
    exact .inl ⟨q', m, hm', hp⟩
  · exact .inr ⟨r, hrep r hr, hmatch⟩

theorem Expecting.same (h : SameMessages s t) (hs : Expecting s p c) : Expecting t p c := by
  refine hs.mono (fun q m hm _ => ⟨q, ?_⟩) (fun r hr => ?_)
  · rw [requests_congr h.periph]
    exact hm
  · rw [replies_congr h.handling h.queue]
    exact hr

theorem NoOrphan.act (hs : WF s) (h : Act P G s t) (ha : NoOrphan s)
    (hwait : ∀ z ∈ t.pxWsApiWaitingForResponse, ∀ d, t.calls z = some d → d.session.isSome →
      z ∈ s.pxWsApiWaitingForResponse ∨ Expecting t z d)
    (hkeep : ∀ z c, z ∈ s.pxWsApiWaitingForResponse → s.calls z = some c → c.session.isSome →
      Expecting s z c → Expecting t z c) : NoOrphan t := by
  intro z hz d hd hq
  rcases hwait z hz d hd hq with hz' | hnew
  · obtain ⟨e, he⟩ := hs.call_of_mem (.inr hz')
    obtain ⟨c, hc, hev⟩ := act_evolves h hd (hs.nextCall z (by simp [he]))
    obtain ⟨q, hq'⟩ := Option.isSome_iff_exists.1 hq
    have hcq : c.session.isSome := by simp [hev.session_some hq']
    have hexp := hkeep z c hz' hc hcq (ha z hz' c hc hcq)
    unfold Expecting at hexp ⊢
    rw [hev.fid, hev.id]
    exact hexp
  · exact hnew

theorem setPeriph_requests (s : Server) (q : QueueId) (d : Periph) (q' : QueueId) :
    requests (s.setPeriph q d) q' = if q' = q then d.queue ++ d.busy.toList else requests s q' := by
  unfold requests Server.setPeriph
  by_cases hq : q' = q
  · simp [hq]
  · simp [hq]

theorem forwarded_requests_eq (s : Server) (p : CallPtr) (c : ApiCall) (q q' : QueueId) :
    requests ((forwarded s p c q).toWaiting p) q' = if q' = q then
      (s.periph q).queue ++ [⟨requestOf c, p⟩] ++ (s.periph q).busy.toList else requests s q' := by
  have hperiph : ((forwarded s p c q).toWaiting p).periph = (s.setPeriph q { s.periph q with
      queue := (s.periph q).queue ++ [⟨requestOf c, p⟩] }).periph := rfl
  rw [requests_congr hperiph, setPeriph_requests]

theorem forwarded_expecting (s : Server) (p : CallPtr) (c : ApiCall) (q : QueueId) (d : ApiCall) :
    Expecting ((forwarded s p c q).toWaiting p) p d := by
  refine .inl ⟨q, ⟨requestOf c, p⟩, ?_, rfl⟩
  rw [forwarded_requests_eq, if_pos rfl]
  simp

theorem forwarded_requests (s : Server) (p : CallPtr) (c : ApiCall) (q : QueueId) {q' : QueueId}
    {m : Request} (hm : m ∈ requests s q') : m ∈ requests ((forwarded s p c q).toWaiting p) q' := by
  rw [forwarded_requests_eq]
  split_ifs with hq
  · subst hq
    rw [requests, List.mem_append] at hm
    simp only [List.mem_append]
    exact hm.imp .inl id
  · exact hm

theorem forwarded_replies (s : Server) (p : CallPtr) (c : ApiCall) (q : QueueId) :
    replies ((forwarded s p c q).toWaiting p) = replies s := by
  apply replies_congr
  · rfl
  · rfl

theorem taken_requests {q : QueueId} {m : Request} {ms : List Request}
    (hb : (s.periph q).busy = none) (hm : (s.periph q).queue = m :: ms) {q' : QueueId} {m' : Request}
    (h : m' ∈ requests s q') : m' ∈ requests (taken s q m ms) q' := by
  rw [taken, setPeriph_requests]
  split_ifs with hq
  · subst hq
    rw [requests, hb, hm] at h
    simpa [or_comm] using h
  · exact h

theorem freed_requests {q : QueueId} {m : Request} {d : Periph} (hb : (s.periph q).busy = some m)
    (hd : d.queue = (s.periph q).queue) {q' : QueueId} {m' : Request} (h : m' ∈ requests s q') :
    m' = m ∨ m' ∈ requests (s.setPeriph q d) q' := by
  rw [setPeriph_requests]
  split_ifs with hq
  · subst hq
    rw [requests, hb, List.mem_append, Option.toList_some, List.mem_singleton] at h
    rcases h with h | h
    · exact .inr (List.mem_append_left _ (hd ▸ h))
    · exact .inl h
  · exact .inr h

theorem posted_expecting (hl : Labelled s) {q : QueueId} {m : Request} {id : UInt32}
    {published : Bool} {data : Option Bytes} (hb : (s.periph q).busy = some m)
    (hid : id = m.msg.id ∨ id = 0) (hc : s.calls p = some c) (hexp : Expecting s p c) :
    Expecting (posted s q m id published data) p c := by
  rcases hexp with ⟨q', m', hm', hp⟩ | ⟨r, hr, hmatch⟩
  · rcases freed_requests (d := { s.periph q with busy := none }) hb rfl hm' with rfl | hstay
    · -- the reply to its own request
      refine .inr ⟨⟨⟨m'.msg.fid, id, data, (data.map List.length).getD 0⟩, m'.call, published,
        s.nextReply⟩, by simp [replies, posted, Server.setPeriph], ?_⟩
      have hlabels := (hl.request q m' (by simp [outstanding, hb])).labels c (hp ▸ hc)
      split_ifs with hzero
      · exact hlabels.1
      · exact (hid.resolve_right hzero).trans hlabels.2
    · exact .inl ⟨q', m', hstay, hp⟩
  · refine .inr ⟨r, ?_, hmatch⟩
    have hr' : r ∈ s.handling.toList ++ s.xWsWorkerQueue := hr
    show r ∈ s.handling.toList ++ (s.xWsWorkerQueue ++ _)
    rw [← List.append_assoc]
    exact List.mem_append_left _ hr'

theorem act_noOrphan (hs : WF s) (hl : Labelled s) (h : Act P attentive s t) (ha : NoOrphan s) :
    NoOrphan t := by
  have hact := h
  have hquiet : (∀ z ∈ t.pxWsApiWaitingForResponse, z ∈ s.pxWsApiWaitingForResponse) →
      SameMessages s t → NoOrphan t := fun hw hsame =>
    ha.act hs hact (fun z hz _ _ _ => .inl (hw z hz)) (fun _ _ _ _ _ hexp => hexp.same hsame)
  have hmoved : ∀ {p z : CallPtr}, z ∈ s.pxWsApiWaitingForResponse.erase p ++ [p] →
      z ∈ s.pxWsApiWaitingForResponse ∨ z = p := by
    intro p z hz
    rcases List.mem_append.1 hz with hz | hz
    · exact .inl (List.mem_of_mem_erase hz)
    · exact .inr (List.mem_singleton.1 hz)
  cases h with
  | soft h => exact hquiet (by rw [h.waiting]; exact fun _ hz => hz) ⟨h.periph, h.handling, h.queue⟩
  | @connect fd alloc _ =>
      refine hquiet ?_ (connect_messages s fd alloc)
      cases alloc <;> exact fun _ hz => hz
  | @disconnect conn k _ _ =>
      refine hquiet ?_ (hangUp_messages s conn k.userData)
      cases k.userData <;> exact fun _ hz => hz
  | accept => exact hquiet (fun _ hz => List.mem_of_mem_erase hz) ⟨rfl, rfl, rfl⟩
  | reject => exact hquiet (fun _ hz => hz) ⟨rfl, rfl, rfl⟩
  | @forward p c q hp hc =>
      refine ha.act hs hact (fun z hz d hd _ => ?_) (fun z c' _ _ _ hexp => ?_)
      · rcases hmoved hz with hz | rfl
        · exact .inl hz
        · exact .inr (forwarded_expecting s z c q d)
      · refine hexp.mono (fun q' m hm _ => ⟨q', forwarded_requests s p c q hm⟩) (fun r hr => ?_)
        rw [forwarded_replies]
        exact hr
  | @stall p c q hp hc _ _ hG =>
      refine ha.act hs hact (fun z hz d hd hq => ?_) (fun _ _ _ _ _ hexp => hexp.same ⟨rfl, rfl, rfl⟩)
      rcases hmoved hz with hz | rfl
      · exact .inl hz
      · obtain ⟨q, hq'⟩ := Option.isSome_iff_exists.1 hq
        have hd' : s.calls z = some d := hd
        obtain ⟨x, -, htarget⟩ := hs.attached.target hd' hq'
        rw [show target s z = none from hG] at htarget
        cases htarget
  | @refuse p c q env hp hc =>
      refine ha.act hs hact (fun z hz d hd hq => ?_) (fun _ _ _ _ _ hexp => hexp.same ⟨rfl, rfl, rfl⟩)
      rcases hmoved hz with hz | rfl
      · exact .inl hz
      · have hd' : (refused s z c env).calls z = some d := hd
        rw [refused, setCall_calls_self, Option.some.injEq] at hd'
        rw [← hd'] at hq
        cases hq
  | announce => exact hquiet (fun _ hz => hz) ⟨rfl, rfl, rfl⟩
  | invalid | release => exact hquiet (fun _ hz => List.mem_of_mem_erase hz) ⟨rfl, rfl, rfl⟩
  | @respond p c r env =>
      refine hquiet ?_ (answered_messages s p c r env)
      rw [answered_waiting]
      exact fun _ hz => List.mem_of_mem_erase hz
  | @take q m ms hb hm =>
      refine ha.act hs hact (fun z hz _ _ _ => .inl hz) (fun z c _ _ _ hexp => ?_)
      exact hexp.mono (fun q' m' hm' _ => ⟨q', taken_requests hb hm hm'⟩) (fun _ hr => hr)
  | @post q m id published data hb hroom hid =>
      refine ha.act hs hact (fun z hz _ _ _ => .inl hz) (fun z c _ hc _ hexp => ?_)
      refine posted_expecting hl hb ?_ hc hexp
      split_ifs at hid
      · exact .inr hid
      · exact .inl hid
  | @drop q m hb hG =>
      refine ha.act hs hact (fun z hz _ _ _ => .inl hz) (fun z c hz hc hq hexp => ?_)
      refine Expecting.mono (s := s) (t := dropRequest s q m) (fun q' m' hm' hcall => ⟨q', ?_⟩)
        (fun _ hr => hr) hexp
      have hfreed := freed_requests (d := { s.periph q with
        busy := none, unanswered := (s.periph q).unanswered ++ [m] }) hb rfl hm'
      refine hfreed.resolve_left ?_
      rintro rfl
      have hG' : waits s m'.call = false := hG
      rw [hcall, waits_of hz hc hq] at hG'
      cases hG'
  | @receive r rs hr hh =>
      refine ha.act hs hact (fun z hz _ _ _ => .inl hz) (fun z c _ _ _ hexp => ?_)
      refine Expecting.mono (s := s) (t := s.receive r rs) (fun q m hm _ => ⟨q, hm⟩)
        (fun r' hr' => ?_) hexp
      simpa [replies, hh, hr, Server.receive] using hr'
  | @handled r hr hnone =>
      refine ha.act hs hact (fun z hz _ _ _ => .inl hz) (fun z c hz hc hq hexp => ?_)
      rcases hexp with hreq | ⟨r', hr', hmatch⟩
      · exact .inl hreq
      · have hcases : r' = r ∨ r' ∈ s.xWsWorkerQueue := by simpa [replies, hr] using hr'
        rcases hcases with rfl | hstay
        · rcases hnone with hnone | ⟨_, _, hzero, -, hne⟩
          · have hmiss := hnone z hz c hc hq
            split_ifs at hmatch hmiss with hid
            · exact absurd hmatch.symm hmiss
            · exact absurd hmatch.symm hmiss
          · exact absurd hzero hne
        · exact .inr ⟨r', by simpa [replies, Server.handled, Server.log] using hstay, hmatch⟩

end Invariant

section Steps

variable {x y : System}

/-- Every live call that waits with the id of the reply, and does not get it, is
expecting something else. -/
def Spared (s : Server) (r : Reply) : Prop :=
  ∀ z ∈ s.pxWsApiWaitingForResponse, picked s r.msg.id ≠ some z → ∀ c, s.calls z = some c →
    c.session.isSome → c.ulId = r.msg.id → Expecting { s with handling := none } z c

def RoomFor (s : Server) (q : QueueId) : Prop :=
  ∀ r, (s.periph q).busy = some r → waits s r.call = true → hasRoom s = true

/-- The worker can allocate the request of a live call, a reply that is handed
out is not the last thing that another call with its id waits for, handle_msg
has an answer for a live call, and there is room for every answer. -/
def AttentiveStep (B : Base64) (P : Platform) (g : Device) (a : GatewayLabel) (_ : Device) : Prop :=
  match a with
  | .server (.worker env) => match g.sys.worker with
    | .forward (some p) => wouldStall g.sys.srv p env = true → target g.sys.srv p = none
    | .taken r => r.msg.id ≠ 0 → Spared g.sys.srv r
    | _ => True
  | .uartHandle env => ∀ r, (g.sys.srv.periph cmdQueue).busy = some r →
      waits g.sys.srv r.call = true → uartAnswers B P g.app r.msg env = true
  | .uartSend => RoomFor g.sys.srv cmdQueue
  | .mbHandle i _ => RoomFor g.sys.srv (mbQueue i)
  | _ => True

theorem allowed_noOrphan {b : Label} (hr : Reachable (Tasks.machine P) x)
    (hallow : Allows P attentive x b) (h : (Tasks.machine P).Step x b y) (hn : NoOrphan x.srv) :
    NoOrphan y.srv := by
  have hrun := Along.step (m := Tasks.machine P) (P := fun x a _ => Allows P attentive x a) .start h
    hallow
  have hboth := along_acts (I := fun s => Labelled s ∧ NoOrphan s)
    (fun _ _ hs hact hi => ⟨act_labelled hs hact hi.1, act_noOrphan hs hi.1 hact hi.2⟩) hr
    ⟨reachable_labelled hr, hn⟩ hrun
  exact hboth.2

theorem send_allows {q : QueueId} (m : Request) (hroom : RoomFor x.srv q) (msg : WebapiMsg) :
    Allows P attentive x (sendLabel q m (some msg)) := by
  have hfull : ∀ r, (x.srv.periph q).busy = some r → workerQueueDepth ≤ x.srv.xWsWorkerQueue.length →
      waits x.srv r.call = false := by
    intro r hr hlen
    apply Bool.eq_false_iff.2
    intro hw
    have hlt := of_decide_eq_true (hroom r hr hw)
    exact absurd hlt (Nat.not_lt.2 hlen)
  unfold sendLabel
  dsimp only
  split_ifs
  · exact hfull
  · exact hfull

theorem server_allows (hx : Inv x) {b : Label} (hb : isServer b = true)
    (hstall : ∀ env p, b = .worker env → x.worker = .forward (some p) →
      wouldStall x.srv p env = true → target x.srv p = none)
    (htaken : ∀ env r, b = .worker env → x.worker = .taken r → r.msg.id ≠ 0 →
      picked x.srv r.msg.id = none) : Allows P attentive x b := by
  cases b with
  | worker env =>
      refine ⟨fun r p hans => ?_, fun p hp => hstall env p rfl hp⟩
      rcases answering_worker hans with ⟨hw, hid, hpick⟩ | hw
      · rw [htaken env r rfl hw hid] at hpick
        cases hpick
      · have hpc := hx.pc
        rw [hw] at hpc
        exact fun _ _ => ⟨hpc.2.1, fun _ _ => trivial⟩
  | text env => exact fun _ _ _ _ _ _ _ => trivial
  | periphTake | periphAnswer | periphPublish | periphDrop => cases hb
  | _ => trivial

theorem answered_noOrphan {s' : Server} {m : Net} {env : SendEnv} (hs : WF s)
    (hr : s.handling = some r) (hid : r.msg.id ≠ 0) (hp : picked s r.msg.id = some p)
    (hsoft : Soft s s') (hsp : Spared s r) (hn : NoOrphan s) :
    NoOrphan ((answered (s'.withNet m) p c r env).handled r) := by
  have hsame := answered_messages (s'.withNet m) p c r env
  intro z hz d hd hq
  have hz' : z ∈ (answered (s'.withNet m) p c r env).pxWsApiWaitingForResponse := hz
  rw [answered_waiting] at hz'
  have hwait : (s'.withNet m).pxWsApiWaitingForResponse = s.pxWsApiWaitingForResponse := hsoft.waiting
  rw [hwait] at hz'
  have hne : z ≠ p := ((hs.nodup.of_append_right).mem_erase_iff.1 hz').1
  have hzs : z ∈ s.pxWsApiWaitingForResponse := List.mem_of_mem_erase hz'
  have hd' : s'.calls z = some d := by
    have hkept := answered_calls_ne (s := s'.withNet m) (c := c) r env hne
    exact hkept.symm.trans hd
  obtain ⟨e, he, hw⟩ := hsoft.call_back hd'
  have heq : e.session.isSome := by
    rcases hw.session with hsess | hsess
    · rwa [← hsess]
    · rw [hsess] at hq
      cases hq
  have hexp : Expecting { s with handling := none } z e := by
    by_cases hlabel : e.ulId = r.msg.id
    · refine hsp z hzs ?_ e he heq hlabel
      rw [hp]
      exact fun h => hne (Option.some.inj h).symm
    · rcases hn z hzs e he heq with hreq | ⟨r', hr', hmatch⟩
      · exact .inl hreq
      · refine .inr ⟨r', ?_, hmatch⟩
        have hcases : r' = r ∨ r' ∈ s.xWsWorkerQueue := by simpa [replies, hr] using hr'
        rcases hcases with rfl | hstay
        · rw [if_neg hid] at hmatch
          exact absurd hmatch.symm hlabel
        · exact hstay
  unfold Expecting at hexp ⊢
  rw [hw.fid, hw.id]
  rcases hexp with ⟨q, m', hm', hcall⟩ | ⟨r', hr', hmatch⟩
  · refine .inl ⟨q, m', ?_, hcall⟩
    have hperiph : ((answered (s'.withNet m) p c r env).handled r).periph = s.periph :=
      hsame.periph.trans hsoft.periph
    rw [requests_congr hperiph]
    exact hm'
  · refine .inr ⟨r', ?_, hmatch⟩
    have hqueue : (answered (s'.withNet m) p c r env).xWsWorkerQueue = s.xWsWorkerQueue :=
      hsame.queue.trans hsoft.queue
    show r' ∈ (answered (s'.withNet m) p c r env).xWsWorkerQueue
    rw [hqueue]
    exact hr'

theorem step_noOrphan (hg : Reachable (machine B lib P) g) (hn : NoOrphan g.sys.srv)
    (hstep : (machine B lib P).Step g a h) (hatt : AttentiveStep B P g a h) : NoOrphan h.sys.srv := by
  have hr := reachable_sys hg
  have hx := reachable_inv hr
  have hallowed : ∀ {b : Label}, (Tasks.machine P).Step g.sys b h.sys → Allows P attentive g.sys b →
      NoOrphan h.sys.srv := fun hb hallow => allowed_noOrphan hr hallow hb hn
  cases step_move hstep with
  | @server b hb hsys he =>
      by_cases hpick : ∃ env r p, b = .worker env ∧ g.sys.worker = .taken r ∧ r.msg.id ≠ 0 ∧
          picked g.sys.srv r.msg.id = some p
      · obtain ⟨env, r, p, rfl, hw, hid, hp⟩ := hpick
        have hpc := hx.pc
        rw [hw] at hpc
        simp only [AttentiveStep, hw] at hatt
        rcases Routing.taken_step hx hw hid hsys with ⟨hnone, -⟩ | ⟨p', s', c, m, hp', hsoft, -, he'⟩
        · rw [hp] at hnone
          cases hnone
        · rw [he']
          exact answered_noOrphan hx.sound.wf hpc hid hp' hsoft (hatt hid) hn
      · refine hallowed hsys (server_allows hx hb (fun env p hb' hw => ?_) (fun env r hb' hw hid => ?_))
        · subst hb'
          simpa only [AttentiveStep, hw] using hatt
        · apply Option.eq_none_iff_forall_ne_some.2
          intro p hp
          exact hpick ⟨env, r, p, hb', hw, hid, hp⟩
  | uartTake hsys _ => exact hallowed hsys trivial
  | mbTake hsys _ => exact hallowed hsys trivial
  | handled _ _ _ he =>
      rw [he]
      exact hn
  | received he =>
      rw [he]
      exact hn
  | @dropped env r app hbusy _ hmsg hsys _ =>
      refine hallowed hsys (fun r' hr' => ?_)
      apply Bool.eq_false_iff.2
      intro hw
      have hans := hatt r' hr' hw
      rw [hbusy] at hr'
      cases hr'
      rw [← handleMsg_isSome, hmsg] at hans
      cases hans
  | sent _ _ hsys _ => exact hallowed hsys (send_allows _ hatt _)
  | mbHandled _ hw hsys _ =>
      obtain ⟨msg, hmsg, -⟩ := handleModbusMsg_fits hw
      rw [hmsg] at hsys
      exact hallowed hsys (send_allows _ hatt msg)

/-- When every live call's request can be allocated and is answered, no call is
forgotten. -/
theorem no_call_orphaned (B : Base64) (lib : ModbusLib) (P : Platform) {as : List GatewayLabel}
    (hg : (machine B lib P).init g) (hrun : Along (machine B lib P) (AttentiveStep B P) g as h) :
    NoOrphan h.sys.srv := by
  refine hrun.invariant (I := fun g => NoOrphan g.sys.srv) (.init hg) ?_
    (fun g a h hr hn hstep hatt => step_noOrphan hr hn hstep hatt)
  intro p hp
  rw [hg.1] at hp
  cases hp

def attends (B : Base64) (P : Platform) (g : Device) : GatewayLabel → Bool
  | .server (.worker env) => match g.sys.worker with
    | .forward (some p) => !wouldStall g.sys.srv p env
    | .taken r => r.msg.id == 0 || g.sys.srv.pxWsApiWaitingForResponse.all (fun z =>
      picked g.sys.srv r.msg.id == some z || !idTarget g.sys.srv r.msg.id z)
    | _ => true
  | .uartHandle env => (g.sys.srv.periph cmdQueue).busy.all (fun r => uartAnswers B P g.app r.msg env)
  | .uartSend | .mbHandle .. => hasRoom g.sys.srv
  | _ => true

theorem attentive_of (ha : attends B P g a = true) : AttentiveStep B P g a h := by
  have hall : ∀ {env : UartEnv}, attends B P g (.uartHandle env) = true → ∀ r,
      (g.sys.srv.periph cmdQueue).busy = some r → uartAnswers B P g.app r.msg env = true := by
    intro env ha r hr
    simpa only [attends, hr, Option.all_some] using ha
  cases a with
  | uartHandle env => exact fun r hr _ => hall ha r hr
  | uartSend | mbHandle => exact fun _ _ _ => ha
  | server b =>
      cases b with
      | worker env =>
          unfold attends at ha
          unfold AttentiveStep
          cases hw : g.sys.worker with
          | forward item =>
              cases item with
              | none => trivial
              | some p =>
                  rw [hw] at ha
                  intro hstall
                  simp [hstall] at ha
          | taken r =>
              rw [hw] at ha
              intro hid z hz hpick c hc hq hlabel
              have hother : idTarget g.sys.srv r.msg.id z = true := idTarget_iff.2 ⟨c, hc, hlabel, hq⟩
              simp only [beq_iff_eq, hid, Bool.or_eq_true, false_or, List.all_eq_true] at ha
              rcases ha z hz with hz' | hz'
              · exact absurd hz' hpick
              · rw [hother] at hz'
                cases hz'
          | _ => trivial
      | _ => trivial
  | _ => trivial

def threeCalls : List GatewayLabel :=
  serverSteps ([.registerQueue 0x1013 (some 0) true true, .registerQueue 0x1011 (some 0) true true,
    .registerQueue 0x1113 (some 1) true true, .connect 1 true] ++ request 0 (0x1013, 0, 5) ++
    request 0 (0x1011, 4, 6) ++ request 0 (0x1113, 0, 7) ++ work 12) ++
  [.uartTake, .uartHandle calm, .uartSend, .uartTake, .uartHandle calm, .uartSend, .mbTake ⟨0, Nat.two_pos⟩,
    .mbHandle ⟨0, Nat.two_pos⟩ (completes none)] ++ serverSteps (work 20)

def threeCallsPlatform : Platform := platform [(0x1013, 0, 5), (0x1011, 4, 6), (0x1113, 0, 7)]

theorem no_call_orphaned_three : ∃ h, Along (machine plainText wordLib threeCallsPlatform)
    (AttentiveStep plainText threeCallsPlatform) gatewayStart threeCalls h ∧ NoOrphan h.sys.srv := by
  have hcheck : (machine plainText wordLib threeCallsPlatform).check
      (attends plainText threeCallsPlatform) (fun _ => true) gatewayStart threeCalls = true := by
    decide +kernel
  obtain ⟨h, hrun, -⟩ := exists_of_check hcheck
  have halong := hrun.imp (fun _ _ u ha => attentive_of (h := u) ha)
  exact ⟨h, halong, no_call_orphaned plainText wordLib threeCallsPlatform gatewayStart_init halong⟩

def forgotten (s : Server) (p : CallPtr) : Bool :=
  waits s p && (s.calls p).all (fun c =>
    (s.wsGetFidQueue c.ulFid).all (fun q => (requests s q).all (fun m => m.call != p)) &&
    (replies s).all (fun r => if r.msg.id = 0 then r.msg.fid != c.ulFid else r.msg.id != c.ulId))

theorem forgotten_orphan (hl : Labelled s) (hf : forgotten s p = true) : ¬ NoOrphan s := by
  intro hn
  simp only [forgotten, waits, Bool.and_eq_true, decide_eq_true_eq] at hf
  obtain ⟨⟨hp, hlive⟩, hf⟩ := hf
  obtain ⟨c, hc, hq⟩ := (Option.any_eq_true _ _).1 hlive
  simp only [hc, Option.all_some, Bool.and_eq_true, List.all_eq_true] at hf
  rcases hn p hp c hc hq with ⟨q, m, hm, rfl⟩ | ⟨r, hr, hmatch⟩
  · have hout : m ∈ outstanding s q := List.mem_append_left _ hm
    have hok := hl.request q m hout
    have hroute := hok.routed
    rw [(hok.labels c hc).1] at hroute
    rw [hroute, Option.all_some] at hf
    have hne := List.all_eq_true.1 hf.1 m hm
    simp at hne
  · have hmiss := hf.2 r hr
    split_ifs at hmatch hmiss with hid
    · simp [hmatch] at hmiss
    · simp [hmatch] at hmiss

def noArgument : List GatewayLabel :=
  serverSteps ([.registerQueue 0x1012 (some 0) true true, .connect 1 true] ++ request 0 (0x1012, 0, 5) ++
    work 12) ++ [.uartTake, .uartHandle calm] ++ serverSteps (work 12)

theorem transmit_call_forgotten : ∃ h, Reachable (machine plainText wordLib (platform [(0x1012, 0, 5)])) h ∧
    ¬ NoOrphan h.sys.srv := by
  have hcheck : (machine plainText wordLib (platform [(0x1012, 0, 5)])).reaches gatewayStart noArgument
      (fun h => forgotten h.sys.srv 0) = true := by decide +kernel
  obtain ⟨h, hrun, hf⟩ := exists_of_reaches hcheck
  have hr : Reachable (machine plainText wordLib (platform [(0x1012, 0, 5)])) h :=
    ⟨_, _, gatewayStart_init, hrun⟩
  exact ⟨h, hr, forgotten_orphan (reachable_labelled (reachable_sys hr)) hf⟩

end Steps

end WirelessGateway.Orphans
