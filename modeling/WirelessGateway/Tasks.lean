import WirelessGateway.Lib.Fallible
import WirelessGateway.Lib.Runs
import WirelessGateway.Transport
import WirelessGateway.Worker

namespace WirelessGateway.Tasks

open CJson WirelessGateway.Types Memory WsServer Transport Worker Lib.Fallible Lib.Runs

/-- What the httpd task is doing: a TEXT frame updates the session before
ws_server_on_text takes the mutex. -/
inductive HttpdPc
  | idle
  | text (conn : ConnPtr) (data : Option Bytes)

structure System where
  srv : Server
  worker : WorkerPc
  httpd : HttpdPc

/-- The atomic steps of the tasks. A step that takes xWsApiMutex waits until
the worker does not hold it, unless its take times out. -/
inductive Label
  | connect (fd : Int) (alloc : Bool)
  | disconnect (conn : ConnPtr)
  | frame (conn : ConnPtr) (type : FrameType) (data : Option Bytes) (sent : Bool)
  | text (env : TextEnv)
  | transferComplete (i : Nat) (err took : Bool)
  | complete (p : CallPtr)
  | sendGroup (fid : UInt32) (json : Bytes) (env : SendEnv)
  | register (fHandler : Option HandlerId) (fid : UInt32) (ctx : Nat) (took alloc : Bool)
  | unregister (fid : UInt32) (took : Bool)
  | registerQueue (fid : UInt32) (queue : Option QueueId) (took alloc : Bool)
  | tick (d : UInt32)
  | worker (env : WorkerEnv)
  | periphTake (q : QueueId)
  | periphAnswer (q : QueueId) (data : Option Bytes)
  | periphPublish (q : QueueId) (data : Option Bytes)
  | periphDrop (q : QueueId)

theorem worker_or_other (a : Label) : (∃ env, a = .worker env) ∨ ∀ env, a ≠ .worker env := by
  cases a with
  | worker env => exact .inl ⟨env, rfl⟩
  | _ => exact .inr (fun _ h => by cases h)

def takeRequest (s : Server) (q : QueueId) : Option Server :=
  match (s.periph q).busy, (s.periph q).queue with
  | none, r :: rs => some (s.setPeriph q { s.periph q with queue := rs, busy := some r })
  | _, _ => none

def dropRequest (s : Server) (q : QueueId) (r : Request) : Server :=
  s.setPeriph q { s.periph q with
    busy := none, unanswered := (s.periph q).unanswered ++ [r] }

def postReply (s : Server) (q : QueueId) (r : Request) (id : UInt32) (published : Bool)
    (data : Option Bytes) : Server :=
  if s.xWsWorkerQueue.length < workerQueueDepth then
    let msg := ⟨r.msg.fid, id, data, (data.map List.length).getD 0⟩
    { s.setPeriph q { s.periph q with busy := none } with
      xWsWorkerQueue := s.xWsWorkerQueue ++ [⟨msg, r.call, published, s.nextReply⟩]
      nextReply := s.nextReply + 1 }
  else dropRequest s q r

def System.lift (x : System) (enabled : Bool) (op : Fallible Server) : Option (Fallible System) :=
  if enabled then some (op.map (fun s => { x with srv := s })) else none

theorem lift_ok {x y : System} {enabled : Bool} {op : Fallible Server}
    (h : x.lift enabled op = some (.ok y)) :
    enabled = true ∧ ∃ t, op = .ok t ∧ y = { x with srv := t } := by
  unfold System.lift at h
  split at h
  next henabled =>
    obtain ⟨t, ht, hy⟩ := map_eq_ok (Option.some.inj h)
    exact ⟨henabled, t, ht, hy.symm⟩
  next => cases h

def HttpdPc.isIdle : HttpdPc → Bool
  | .idle => true
  | .text _ _ => false

def fdLive (s : Server) (fd : Int) : Bool :=
  (List.range s.nextConn).any (fun conn => (s.conns conn).any (fun c => c.fd == fd))

def stepFrame (x : System) (conn : ConnPtr) (c : Conn) (type : FrameType) (data : Option Bytes)
    (sent : Bool) : Fallible System := do
  let s ← touchSession x.srv c.userData
  match type with
  | .text => pure { x with srv := s, httpd := .text conn data }
  | type => pure { x with srv := wsServerOnControl s conn type sent }

/-- One step of the whole system. The httpd task handles one event at a time. -/
def step (P : Platform) (x : System) : Label → Option (Fallible System)
  | .connect fd alloc =>
    x.lift (x.httpd.isIdle && !fdLive x.srv fd) (pure (wsServerOnConnect x.srv fd alloc))
  | .disconnect conn => match x.srv.conns conn with
    | some c => x.lift (x.httpd.isIdle && !x.worker.locked)
        (wsServerOnDisconnect x.srv conn c.userData)
    | none => none
  | .frame conn type data sent => match x.srv.conns conn with
    | some c => if x.httpd.isIdle then some (stepFrame x conn c type data sent) else none
    | none => none
  | .text env => match x.httpd with
    | .text conn data =>
      ({ x with httpd := .idle } : System).lift (!x.worker.locked)
        (wsServerOnText P x.srv conn ((x.srv.conns conn).bind Conn.userData) data env)
    | .idle => none
  | .transferComplete i err took => match vWsTransferComplete x.srv i err took with
    | some op => x.lift (x.httpd.isIdle && !(err && took && x.worker.locked)) op
    | none => none
  | .complete p => x.lift (!x.worker.locked) (vApiCallComplete x.srv p)
  | .sendGroup fid json env =>
    x.lift (!x.worker.locked)
      ((bApiCallSendJsonFidGroup x.srv .client fid json env).map Prod.fst)
  | .register h fid ctx took alloc =>
    x.lift (!(took && x.worker.locked)) (pure (bApiCallRegister x.srv h fid ctx took alloc).1)
  | .unregister fid took =>
    x.lift (!(took && x.worker.locked)) ((bApiCallUnregister x.srv fid took).map Prod.fst)
  | .registerQueue fid queue took alloc =>
    x.lift (!(took && x.worker.locked))
      (pure (wsServerRegisterFidQueue x.srv fid queue took alloc).1)
  | .tick d => x.lift true (pure (x.srv.passTicks d))
  | .worker env =>
    some ((workerStep x.srv x.worker env).map (fun r => { x with srv := r.1, worker := r.2 }))
  | .periphTake q => match takeRequest x.srv q with
    | some s => x.lift true (pure s)
    | none => none
  | .periphAnswer q data => match (x.srv.periph q).busy with
    | some r => x.lift true (pure (postReply x.srv q r r.msg.id false data))
    | none => none
  | .periphPublish q data => match (x.srv.periph q).busy with
    | some r => x.lift true (pure (postReply x.srv q r 0 true data))
    | none => none
  | .periphDrop q => match (x.srv.periph q).busy with
    | some r => x.lift true (pure (dropRequest x.srv q r))
    | none => none

theorem periphTake_cases {P : Platform} {x : System} {q : QueueId} {res : Fallible System}
    (h : step P x (.periphTake q) = some res) : ∃ r rs, (x.srv.periph q).busy = none ∧
      (x.srv.periph q).queue = r :: rs ∧ x.lift true (pure (x.srv.setPeriph q
        { x.srv.periph q with queue := rs, busy := some r })) = some res := by
  cases hb : (x.srv.periph q).busy with
  | some r => simp [step, takeRequest, hb] at h
  | none =>
      cases hq : (x.srv.periph q).queue with
      | nil => simp [step, takeRequest, hb, hq] at h
      | cons r rs =>
          simp only [step, takeRequest, hb, hq] at h
          exact ⟨r, rs, rfl, rfl, h⟩

/-- The server after ws_server_init, with the depths of the peripherals'
queues. -/
def initServer (depth : QueueId → Nat) : Server where
  tick := 0
  conns := fun _ => none
  sessions := fun _ => none
  calls := fun _ => none
  pxWsApiHandlers := []
  pxWsFidQueues := []
  pxWsApiCall := []
  pxWsApiWaitingForResponse := []
  xWsWorkerQueue := []
  handling := none
  periph := fun q => ⟨depth q, [], none, []⟩
  net := ⟨fun _ => none, [], 0⟩
  nextConn := 0
  nextSess := 0
  nextCall := 0
  nextReply := 0
  trace := []

def initSystem (depth : QueueId → Nat) : System := ⟨initServer depth, .idle, .idle⟩

def machine (P : Platform) : Machine System Label Fault where
  init x := ∃ depth, x = initSystem depth
  step := step P

section Samples

def digits (n : Nat) : List Char := Nat.toDigits 10 n

def requestText (r : Nat × Nat × Nat) : Bytes :=
  bytes (['\x7b', '"', 'F', 'I', 'D', '"', ':'] ++ digits r.1 ++
    [',', '"', 'F', 'L', 'A', 'G', 'S', '"', ':'] ++ digits r.2.1 ++
    [',', '"', 'S', 'I', 'D', '"', ':'] ++ digits r.2.2 ++ ['\x7d'])

def requestJson (r : Nat × Nat × Nat) : Json :=
  .object [(bytes ['F', 'I', 'D'], .number (Int32.ofNat r.1) r.1),
    (bytes ['F', 'L', 'A', 'G', 'S'], .number (Int32.ofNat r.2.1) r.2.1),
    (bytes ['S', 'I', 'D'], .number (Int32.ofNat r.2.2) r.2.2)]

def platform (rs : List (Nat × Nat × Nat)) : Platform where
  parse text := (rs.find? (fun r => requestText r == text)).map requestJson
  print _ := []
  msToTicks t := t

def okSend : SendEnv := ⟨true, fun _ => true⟩

def okEnv : WorkerEnv := ⟨0, true, true, true, okSend, okSend, okSend, []⟩

def request (conn : ConnPtr) (r : Nat × Nat × Nat) : List Label :=
  [.frame conn .text (some (requestText r)) true, .text ⟨true, true, okSend⟩]

def work (n : Nat) : List Label := List.replicate n (.worker okEnv)

end Samples

end WirelessGateway.Tasks
