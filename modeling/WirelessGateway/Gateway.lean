import WirelessGateway.ModbusTransaction
import WirelessGateway.Outcomes
import WirelessGateway.Provenance
import WirelessGateway.Requests
import WirelessGateway.Uart

namespace WirelessGateway.Gateway

open CJson WirelessGateway.Types Memory WsServer Transport Worker Tasks Sends WellFormed SoftSteps
open Lifecycle Requests Forwarding ForwardPass Steps Outcomes Uart Modbus ModbusTransaction
open Provenance Lib.Fallible Lib.Runs

def espWsApiUart1ModbusReq : UInt32 := 0x1113
def espWsApiUart2ModbusReq : UInt32 := 0x1123

def cmdQueue : QueueId := 0
def mbQueue (i : Fin 2) : QueueId := 1 + i

def queueDepth (q : QueueId) : Nat := if q = cmdQueue then 10 else 32

def fidQueues : List (UInt32 × QueueId) :=
  [(espWsApiUart1Cnf, cmdQueue), (espWsApiUart1RawRx, cmdQueue), (espWsApiUart1RawTx, cmdQueue),
    (espWsApiUart1Echo, cmdQueue), (espWsApiUart2Cnf, cmdQueue), (espWsApiUart2RawRx, cmdQueue),
    (espWsApiUart2RawTx, cmdQueue), (espWsApiUart2Echo, cmdQueue),
    (espWsApiUart1ModbusReq, mbQueue ⟨0, Nat.two_pos⟩),
    (espWsApiUart2ModbusReq, mbQueue ⟨1, Nat.one_lt_two⟩)]

/-- The server's tasks with the tasks of apih_uart.c and apih_modbus.c. The
message that handle_msg has prepared and not sent yet is kept with its task. -/
structure Device where
  sys : System
  app : UartApp
  sending : Option WebapiMsg

/-- The atomic steps. The server's own ones are those of its tasks. -/
inductive GatewayLabel
  | server (a : Label)
  | uartTake
  | uartHandle (env : UartEnv)
  | uartSend
  | uartRx (i : Fin 2) (data : Bytes)
  | mbTake (i : Fin 2)
  | mbHandle (i : Fin 2) (env : MbEnv)

def isServer : Label → Bool
  | .periphTake _ | .periphAnswer .. | .periphPublish .. | .periphDrop _ => false
  | .registerQueue fid queue _ _ =>
    fidQueues.any (fun f => f.1 == fid && queue.all (fun q => q == f.2))
  | _ => true

def hasRoom (s : Server) : Bool := s.xWsWorkerQueue.length < workerQueueDepth

/-- A message that a peripheral puts on xWsWorkerQueue while it is busy with a
request, or the end of the request without one. -/
def sendLabel (q : QueueId) (r : Request) : Option WebapiMsg → Label
  | none => .periphDrop q
  | some msg => if msg.id = r.msg.id then .periphAnswer q msg.data else .periphPublish q msg.data

def Device.run (P : Platform) (g : Device) (a : Label) : Option (Fallible Device) :=
  (Tasks.step P g.sys a).map (Except.map (fun x => { g with sys := x }))

/-- One step of the gateway. The UART task drains and prepares its answer in one
step and sends it in another one. A Modbus task waits for the library and then
for room, so that what counts is the room at the end. -/
def step (B : Base64) (lib : ModbusLib) (P : Platform) (g : Device) :
    GatewayLabel → Option (Fallible Device)
  | .server a => if isServer a then g.run P a else none
  | .uartTake => g.run P (.periphTake cmdQueue)
  | .uartHandle env => match (g.sys.srv.periph cmdQueue).busy, g.sending with
    | some r, none => match handleMsg B P g.app r.msg env with
      | (app, some msg) => some (.ok { g with app := app, sending := some msg })
      | (app, none) => ({ g with app := app } : Device).run P (sendLabel cmdQueue r none)
    | _, _ => none
  | .uartSend => match (g.sys.srv.periph cmdQueue).busy, g.sending with
    | some r, some msg =>
      ({ g with sending := none } : Device).run P (sendLabel cmdQueue r (some msg))
    | _, _ => none
  | .uartRx i data =>
    some (.ok { g with app := g.app.setContext i (uartEventOnRx (g.app.context i) data) })
  | .mbTake i => g.run P (.periphTake (mbQueue i))
  | .mbHandle i env => match (g.sys.srv.periph (mbQueue i)).busy with
    | some r =>
      match handleModbusMsg lib P ⟨false, [], []⟩ r.msg { env with room := hasRoom g.sys.srv } with
      | some w => g.run P (sendLabel (mbQueue i) r (w.replies.head?.map Prod.fst))
      | none => none
    | none => none

def machine (B : Base64) (lib : ModbusLib) (P : Platform) : Machine Device GatewayLabel Fault where
  init g := g.sys = initSystem queueDepth ∧ g.sending = none ∧
    ∀ i, g.app.context i = ⟨uartTmpBufSize, []⟩
  step := step B lib P

variable {B : Base64} {lib : ModbusLib} {P : Platform} {g h : Device} {a : GatewayLabel}

theorem run_ok {b : Label} (hrun : g.run P b = some (.ok h)) :
    (Tasks.machine P).Step g.sys b h.sys ∧ h = { g with sys := h.sys } := by
  obtain ⟨res, hres, he⟩ := Option.map_eq_some_iff.1 hrun
  obtain ⟨x, rfl, rfl⟩ := map_eq_ok he
  exact ⟨hres, rfl⟩

inductive Move (B : Base64) (lib : ModbusLib) (P : Platform) (g h : Device) : GatewayLabel → Prop
  | server {b : Label} (hb : isServer b = true) (hstep : (Tasks.machine P).Step g.sys b h.sys)
      (he : h = { g with sys := h.sys }) : Move B lib P g h (.server b)
  | uartTake (hstep : (Tasks.machine P).Step g.sys (.periphTake cmdQueue) h.sys)
      (he : h = { g with sys := h.sys }) : Move B lib P g h .uartTake
  | handled {env : UartEnv} {r : Request} {app : UartApp} {msg : WebapiMsg}
      (hr : (g.sys.srv.periph cmdQueue).busy = some r) (hnone : g.sending = none)
      (hmsg : handleMsg B P g.app r.msg env = (app, some msg))
      (he : h = { g with app := app, sending := some msg }) : Move B lib P g h (.uartHandle env)
  | dropped {env : UartEnv} {r : Request} {app : UartApp}
      (hr : (g.sys.srv.periph cmdQueue).busy = some r) (hnone : g.sending = none)
      (hmsg : handleMsg B P g.app r.msg env = (app, none))
      (hstep : (Tasks.machine P).Step g.sys (.periphDrop cmdQueue) h.sys)
      (he : h = { g with sys := h.sys, app := app }) : Move B lib P g h (.uartHandle env)
  | sent {r : Request} {msg : WebapiMsg} (hr : (g.sys.srv.periph cmdQueue).busy = some r)
      (hmsg : g.sending = some msg)
      (hstep : (Tasks.machine P).Step g.sys (sendLabel cmdQueue r (some msg)) h.sys)
      (he : h = { g with sys := h.sys, sending := none }) : Move B lib P g h .uartSend
  | received {i : Fin 2} {data : Bytes}
      (he : h = { g with app := g.app.setContext i (uartEventOnRx (g.app.context i) data) }) :
      Move B lib P g h (.uartRx i data)
  | mbTake {i : Fin 2} (hstep : (Tasks.machine P).Step g.sys (.periphTake (mbQueue i)) h.sys)
      (he : h = { g with sys := h.sys }) : Move B lib P g h (.mbTake i)
  | mbHandled {i : Fin 2} {env : MbEnv} {r : Request} {w : MbTask}
      (hr : (g.sys.srv.periph (mbQueue i)).busy = some r)
      (hw : handleModbusMsg lib P ⟨false, [], []⟩ r.msg { env with room := hasRoom g.sys.srv } =
        some w)
      (hstep : (Tasks.machine P).Step g.sys
        (sendLabel (mbQueue i) r (w.replies.head?.map Prod.fst)) h.sys)
      (he : h = { g with sys := h.sys }) : Move B lib P g h (.mbHandle i env)

theorem step_move (hstep : (machine B lib P).Step g a h) : Move B lib P g h a := by
  have hs : step B lib P g a = some (.ok h) := hstep
  cases a with
  | server b =>
      simp only [step] at hs
      split_ifs at hs with hb
      obtain ⟨hrun, he⟩ := run_ok hs
      exact .server hb hrun he
  | uartTake =>
      obtain ⟨hrun, he⟩ := run_ok hs
      exact .uartTake hrun he
  | uartHandle env =>
      simp only [step] at hs
      split at hs
      next r hr hnone =>
        split at hs
        next app msg hmsg =>
          cases hs
          exact .handled hr hnone hmsg rfl
        next app hmsg =>
          obtain ⟨hrun, he⟩ := run_ok hs
          exact .dropped hr hnone hmsg hrun he
      next => cases hs
  | uartSend =>
      simp only [step] at hs
      split at hs
      next r msg hr hmsg =>
        obtain ⟨hrun, he⟩ := run_ok hs
        exact .sent hr hmsg hrun he
      next => cases hs
  | uartRx i data =>
      cases hs
      exact .received rfl
  | mbTake i =>
      obtain ⟨hrun, he⟩ := run_ok hs
      exact .mbTake hrun he
  | mbHandle i env =>
      simp only [step] at hs
      split at hs
      next r hr =>
        split at hs
        next w hw =>
          obtain ⟨hrun, he⟩ := run_ok hs
          exact .mbHandled hr hw hrun he
        next => cases hs
      next => cases hs

theorem sendLabel_peripheral (q : QueueId) (r : Request) (msg : Option WebapiMsg) (env : WorkerEnv) :
    sendLabel q r msg ≠ .worker env := by
  unfold sendLabel
  split
  · exact Label.noConfusion
  · split_ifs
    · exact Label.noConfusion
    · exact Label.noConfusion

theorem Move.sys (hm : Move B lib P g h a) : h.sys = g.sys ∨
    ∃ b, (Tasks.machine P).Step g.sys b h.sys ∧ ∀ env, b = .worker env → a = .server b := by
  cases hm with
  | server _ hb => exact .inr ⟨_, hb, fun _ _ => rfl⟩
  | uartTake hb | dropped _ _ _ hb | mbTake hb => exact .inr ⟨_, hb, fun _ he => by cases he⟩
  | sent _ _ hb | mbHandled _ _ hb =>
      exact .inr ⟨_, hb, fun env he => absurd he (sendLabel_peripheral _ _ _ env)⟩
  | handled _ _ _ he | received he =>
      rw [he]
      exact .inl rfl

/-- What the gateway does, the server can do with peripherals that answer as
they like. -/
theorem refines : Refines (machine B lib P) (Tasks.machine P) Device.sys where
  init g hg := ⟨queueDepth, hg.1⟩
  step g a h _ hstep := by
    rcases (step_move hstep).sys with he | ⟨b, hb, -⟩
    · rw [he]
      exact ⟨[], .start⟩
    · exact ⟨[b], .step .start hb trivial⟩

theorem reachable_sys (hg : Reachable (machine B lib P) g) : Reachable (Tasks.machine P) g.sys :=
  refines.reachable hg

variable {s t : Server} {x y : System} {p : CallPtr} {c : ApiCall}

section Busy

theorem wsServerOnText_periph (hs : Sound s) {conn : ConnPtr} {k : Conn} (hk : s.conns conn = some k)
    (data : Option Bytes) (env : TextEnv) :
    Yields (wsServerOnText P s conn k.userData data env) (fun t => t.periph = s.periph) := by
  have hself : Yields (pure s : Fallible Server) (fun t => t.periph = s.periph) := .pure rfl
  have hreject : ∀ {q : SessPtr} {c : ApiCall} (sta : UInt32) (e : SendEnv), k.userData = some q →
      c.session = some q → Yields (rejectCall (s.allocCall c) s.nextCall sta e)
        (fun t => t.periph = s.periph) := by
    intro q c sta e hq hc
    obtain ⟨m, -, he⟩ := rejectCall_eq hs hk hq hc sta e
    rw [he]
    exact .pure rfl
  unfold wsServerOnText
  split
  next q b bs hq =>
    split_ifs
    · exact hself
    · split
      · exact hself
      · split_ifs
        · exact hself
        · split
          · dsimp only
            split_ifs
            · exact hreject _ _ hq rfl
            · exact .pure rfl
          · exact hreject _ _ hq rfl
  next => exact hself

theorem wsServerOnDisconnect_periph (hs : Sound s) {conn : ConnPtr} {k : Conn}
    (hk : s.conns conn = some k) :
    Yields (wsServerOnDisconnect s conn k.userData) (fun t => t.periph = s.periph) := by
  cases hq : k.userData with
  | none => exact .pure rfl
  | some q =>
      obtain ⟨x, hx, -⟩ := hs.wf.userData conn k q hk hq
      simp only [wsServerOnDisconnect, session_eq hx, ok_bind]
      refine .bind (fun t ht => .pure ?_)
      have hquiet := (vBreakApiCallsByFd_quiet x.fd hs.wf).eq_ok ht
      exact hquiet.1.1.periph

theorem server_periph (hx : Inv x) {b : Label} (hb : isServer b = true)
    (hne : ∀ env, b ≠ .worker env) (h : (Tasks.machine P).Step x b y) :
    y.srv.periph = x.srv.periph := by
  have hcalm : ∀ {op : Fallible Server} {l : Bool}, Calm x.srv op → x.lift l op = some (.ok y) →
      y.srv.periph = x.srv.periph := by
    intro op l hop hy
    obtain ⟨-, t, ht, rfl⟩ := lift_ok hy
    exact (hop.eq_ok ht).1.periph
  have hs : Tasks.step P x b = some (.ok y) := h
  cases b with
  | connect fd alloc =>
      obtain ⟨-, t, ht, rfl⟩ := lift_ok hs
      cases ht
      exact (connect_messages x.srv fd alloc).periph
  | disconnect conn =>
      simp only [Tasks.step] at hs
      split at hs
      next k hk =>
        obtain ⟨-, t, ht, rfl⟩ := lift_ok hs
        exact (wsServerOnDisconnect_periph hx.sound hk).result t ht
      next => cases hs
  | frame conn type data sent =>
      simp only [Tasks.step] at hs
      split at hs
      next k hk =>
        split_ifs at hs
        obtain ⟨t, ht, hy⟩ := bind_eq_ok (Option.some.inj hs)
        have hsoft := ((touchSession_calm hx.sound hk).eq_ok ht).1
        have hctl := fun ty => (wsServerOnControl_soft (s := t) (by rw [hsoft.conns, hk]; rfl) ty sent).1
        cases type with
        | text =>
            cases hy
            exact hsoft.periph
        | cont | binary | close | ping | pong =>
            cases hy
            exact (hsoft.trans (hctl _)).periph
      next => cases hs
  | text env =>
      simp only [Tasks.step] at hs
      split at hs
      next conn data _ =>
        obtain ⟨-, t, ht, rfl⟩ := lift_ok hs
        cases hk : x.srv.conns conn with
        | none =>
            rw [hk] at ht
            cases ht
            rfl
        | some k =>
            rw [hk] at ht
            exact (wsServerOnText_periph hx.sound hk data env).result t ht
      next => cases hs
  | transferComplete i err took =>
      simp only [Tasks.step] at hs
      split at hs
      next op hop => exact hcalm (vWsTransferComplete_calm hx.sound hop) hs
      next => cases hs
  | complete p => exact hcalm (vApiCallComplete_calm hx.sound p) hs
  | sendGroup fid json env =>
      exact hcalm (Returns.map (bApiCallSendJsonFidGroup_calm hx.sound (.inr rfl) fid json env)) hs
  | register hd fid ctx took alloc =>
      exact hcalm (bApiCallRegister_calm hx.sound hd fid ctx took alloc) hs
  | unregister fid took => exact hcalm (bApiCallUnregister_calm hx.sound fid took) hs
  | registerQueue fid queue took alloc =>
      exact hcalm (wsServerRegisterFidQueue_calm hx.sound fid queue took alloc) hs
  | tick d =>
      obtain ⟨-, t, ht, rfl⟩ := lift_ok hs
      cases ht
      rfl
  | worker env => exact absurd rfl (hne env)
  | periphTake | periphAnswer | periphPublish | periphDrop => cases hb

theorem passed_busy (env : WorkerEnv) (q : QueueId) :
    ((passed s p c env).periph q).busy = (s.periph q).busy := by
  unfold passed
  split_ifs
  · rw [deleted_periph]
  · rfl
  · split
    next q' _ =>
      rw [told_periph, attempted]
      split_ifs
      · rfl
      · show (Function.update s.periph q' _ q).busy = _
        by_cases hq : q = q'
        · rw [hq, Function.update_self]
        · rw [Function.update_of_ne hq]
      · rfl
    · rfl

theorem server_busy (hr : Reachable (Tasks.machine P) x) {b : Label} (hb : isServer b = true)
    (h : (Tasks.machine P).Step x b y) (q : QueueId) :
    (y.srv.periph q).busy = (x.srv.periph q).busy := by
  by_cases hw : ∃ env, b = .worker env
  · obtain ⟨env, rfl⟩ := hw
    have hout := (worker_outcome hr h).1
    generalize y.srv = t at hout ⊢
    generalize y.worker = pc at hout
    cases hout with
    | turned | swept | received | unanswered => rfl
    | kept _ _ _ hsoft => rw [hsoft.periph]
    | passed => exact passed_busy env q
    | @answered r p c s m _ _ _ hsoft =>
        have hsame := (answered_messages (s.withNet m) p c r env.reply).periph
        exact congrArg (fun d => (d q).busy) (hsame.trans hsoft.periph)
    | @broadcast r p next c s m _ _ hsoft =>
        have hsame := (answered_messages (s.withNet m) p c r env.reply).periph
        exact congrArg (fun d => (d q).busy) (hsame.trans hsoft.periph)
  · rw [server_periph (reachable_inv hr) hb (fun env he => hw ⟨env, he⟩) h]

end Busy

section Messages

/-- A message answers a request: under its FID, with its id or for everyone. -/
structure Fits (inMsg msg : WebapiMsg) : Prop where
  fid : msg.fid = inMsg.fid
  id : msg.id = inMsg.id ∨ msg.id = 0
  len : msg.len = (msg.data.map List.length).getD 0

variable {inMsg msg : WebapiMsg} {app app' : UartApp} {env : UartEnv}

theorem uartResponse_fits {id : UInt32} {json : Option Json} (hid : id = inMsg.id ∨ id = 0) :
    Fits inMsg (uartResponse P id inMsg.fid json env) := ⟨rfl, hid, rfl⟩

theorem handleMsg_fits (h : handleMsg B P app inMsg env = (app', some msg)) : Fits inMsg msg := by
  have hown : ∀ {json : Option Json}, Fits inMsg (uartResponse P inMsg.id inMsg.fid json env) :=
    uartResponse_fits (.inl rfl)
  have hall : ∀ {json : Option Json}, Fits inMsg (uartResponse P 0 inMsg.fid json env) :=
    uartResponse_fits (.inr rfl)
  have hcnf : ∀ i, (handleCnf P app i inMsg env).2 = some msg → Fits inMsg msg := by
    intro i hi
    unfold handleCnf at hi
    split at hi
    · cases hi
    · split at hi
      · cases hi
      · dsimp only at hi
        split_ifs at hi
        cases hi
        exact hown
  have hrx : ∀ i, (handleRawRx B P app i inMsg env).2 = some msg → Fits inMsg msg := by
    intro i hi
    unfold handleRawRx at hi
    dsimp only at hi
    split_ifs at hi
    all_goals
      cases hi
      exact hall
  have htx : ∀ i, (handleRawTx B P app i inMsg env).2 = some msg → Fits inMsg msg := by
    intro i hi
    unfold handleRawTx at hi
    dsimp only at hi
    split at hi
    · cases hi
    · split_ifs at hi
      cases hi
      exact hown
  have hecho : ∀ i, (handleEcho P app i inMsg env).2 = some msg → Fits inMsg msg := by
    intro i hi
    unfold handleEcho at hi
    dsimp only at hi
    split_ifs at hi
    all_goals
      cases hi
      exact hown
  have hsnd : (handleMsg B P app inMsg env).2 = some msg := congrArg Prod.snd h
  exact handleMsg_cases (Q := fun r => r.2 = some msg → Fits inMsg msg) (fun i _ => hcnf i) hrx htx hecho
    (fun h => by cases h) hsnd

theorem sendMbMsg_fits {w : MbTask} (hw : w.replies = []) (text : List Char) (env : MbEnv) :
    ∃ msg, (w.sendMbMsg inMsg.id inMsg.fid text env).replies.head?.map Prod.fst = some msg ∧
      Fits inMsg msg := by
  refine ⟨mbMsg inMsg.id inMsg.fid text env.msgAlloc, ?_, ?_⟩
  · rw [MbTask.sendMbMsg, MbTask.queueSend, hw]
    rfl
  · unfold mbMsg
    split_ifs
    · exact ⟨rfl, .inl rfl, by simp [bytes]⟩
    · exact ⟨rfl, .inl rfl, rfl⟩

theorem handleModbusMsg_fits {w : MbTask} {env : MbEnv}
    (h : handleModbusMsg lib P ⟨false, [], []⟩ inMsg env = some w) :
    ∃ msg, w.replies.head?.map Prod.fst = some msg ∧ Fits inMsg msg := by
  rcases handle_cases lib P ⟨false, [], []⟩ inMsg env with ⟨-, he⟩ | ⟨frame, awt, -, he⟩
  · rw [he, Option.some.injEq] at h
    rw [← h]
    exact sendMbMsg_fits rfl _ env
  · rw [he] at h
    rcases transact_spec h with ⟨-, rfl⟩ | ⟨-, -, n, rfl⟩ | ⟨-, c, -, n, rfl⟩
    · exact sendMbMsg_fits rfl _ env
    · exact sendMbMsg_fits rfl _ env
    · unfold MbTask.formatAndSendMbResponse
      split_ifs
      · exact sendMbMsg_fits rfl _ env
      · exact sendMbMsg_fits rfl _ env

theorem send_step {q : QueueId} {r : Request} (hr : (x.srv.periph q).busy = some r)
    (hfits : Fits r.msg msg) (h : (Tasks.machine P).Step x (sendLabel q r (some msg)) y) :
    y.worker = x.worker ∧ if hasRoom x.srv then y.srv.xWsWorkerQueue = x.srv.xWsWorkerQueue ++
        [⟨msg, r.call, decide (msg.id ≠ r.msg.id), x.srv.nextReply⟩] ∧
      y.srv = posted x.srv q r msg.id (decide (msg.id ≠ r.msg.id)) msg.data
    else y.srv = dropRequest x.srv q r := by
  have hpost : ∀ id published, y.srv = postReply x.srv q r id published msg.data → id = msg.id →
      published = decide (msg.id ≠ r.msg.id) → if hasRoom x.srv then
        y.srv.xWsWorkerQueue = x.srv.xWsWorkerQueue ++
          [⟨msg, r.call, decide (msg.id ≠ r.msg.id), x.srv.nextReply⟩] ∧
        y.srv = posted x.srv q r msg.id (decide (msg.id ≠ r.msg.id)) msg.data
      else y.srv = dropRequest x.srv q r := by
    rintro id published hy rfl rfl
    have hmsg : (⟨r.msg.fid, msg.id, msg.data, (msg.data.map List.length).getD 0⟩ : WebapiMsg) = msg := by
      rw [← hfits.fid, ← hfits.len]
    unfold postReply at hy
    split_ifs at hy with hroom
    · rw [if_pos (by simpa [hasRoom] using hroom), hy]
      exact ⟨by rw [hmsg], rfl⟩
    · rw [if_neg (by simpa [hasRoom] using hroom), hy]
  have hs : Tasks.step P x (sendLabel q r (some msg)) = some (.ok y) := h
  unfold sendLabel at hs
  dsimp only at hs
  split_ifs at hs with hid
  · simp only [Tasks.step, hr] at hs
    obtain ⟨-, t, ht, rfl⟩ := lift_ok hs
    cases ht
    exact ⟨rfl, hpost _ _ rfl hid.symm (by simp [hid])⟩
  · simp only [Tasks.step, hr] at hs
    obtain ⟨-, t, ht, rfl⟩ := lift_ok hs
    cases ht
    exact ⟨rfl, hpost _ _ rfl ((hfits.id.resolve_left hid).symm) (by simp [hid])⟩

end Messages

def Prepared (g : Device) : Prop :=
  ∀ msg, g.sending = some msg → ∃ r, (g.sys.srv.periph cmdQueue).busy = some r ∧ Fits r.msg msg

theorem mbQueue_ne (i : Fin 2) : cmdQueue ≠ mbQueue i :=
  Nat.ne_of_lt (Nat.add_pos_left Nat.one_pos _)

theorem step_prepared (hg : Reachable (machine B lib P) g) (hp : Prepared g)
    (hstep : (machine B lib P).Step g a h) : Prepared h := by
  have hr := reachable_sys hg
  have hkeep : h.sending = g.sending → (h.sys.srv.periph cmdQueue).busy =
      (g.sys.srv.periph cmdQueue).busy → Prepared h := by
    intro hs hb msg hmsg
    rw [hb]
    exact hp msg (hs ▸ hmsg)
  cases step_move hstep with
  | server hb hsys he => exact hkeep (by rw [he]) (server_busy hr hb hsys cmdQueue)
  | uartTake hsys he =>
      intro msg hmsg
      rw [he] at hmsg
      obtain ⟨r, hbusy, -⟩ := hp msg hmsg
      obtain ⟨_, _, hidle, -⟩ := periphTake_cases (P := P) hsys
      rw [hbusy] at hidle
      cases hidle
  | handled hr' _ hmsg he =>
      intro m hm
      rw [he, Option.some.injEq] at hm
      rw [he, ← hm]
      exact ⟨_, hr', handleMsg_fits hmsg⟩
  | dropped _ hnone _ _ he =>
      intro msg hmsg
      rw [he, hnone] at hmsg
      cases hmsg
  | sent _ _ _ he =>
      intro msg hmsg
      rw [he] at hmsg
      cases hmsg
  | received he => exact hkeep (by rw [he]) (by rw [he])
  | @mbTake i hsys he =>
      refine hkeep (by rw [he]) ?_
      obtain ⟨_, _, -, -, hs⟩ := periphTake_cases (P := P) hsys
      obtain ⟨-, u, hu, hy⟩ := lift_ok hs
      cases hu
      rw [hy]
      exact congrArg Periph.busy (Function.update_of_ne (mbQueue_ne i) _ _)
  | @mbHandled i env r w hbusy hw hsys he =>
      refine hkeep (by rw [he]) ?_
      obtain ⟨msg, hmsg, hfits⟩ := handleModbusMsg_fits hw
      rw [hmsg] at hsys
      obtain ⟨-, hout⟩ := send_step hbusy hfits hsys
      split_ifs at hout
      · rw [hout.2]
        exact congrArg Periph.busy (Function.update_of_ne (mbQueue_ne i) _ _)
      · rw [hout]
        exact congrArg Periph.busy (Function.update_of_ne (mbQueue_ne i) _ _)

theorem reachable_prepared (hg : Reachable (machine B lib P) g) : Prepared g := by
  refine hg.invariant ?_ (fun g a h hr hp hstep => step_prepared hr hp hstep)
  intro g hg msg hmsg
  rw [hg.2.1] at hmsg
  cases hmsg

section Samples

def gatewayStart : Device :=
  ⟨initSystem queueDepth, ⟨fun _ => ⟨⟨115200, .data8Bits, .disable, .bits1⟩, false, []⟩,
    fun _ => ⟨uartTmpBufSize, []⟩⟩, none⟩

theorem gatewayStart_init : (machine B lib P).init gatewayStart := ⟨rfl, rfl, fun _ => rfl⟩

def plainText : Base64 := ⟨id, List.length, id⟩

def calm : UartEnv := ⟨true, true, true, 0⟩

def serverSteps (as : List Label) : List GatewayLabel := as.map .server

end Samples

end WirelessGateway.Gateway
