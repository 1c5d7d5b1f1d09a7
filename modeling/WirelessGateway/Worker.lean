import WirelessGateway.WsServer

namespace WirelessGateway.Worker

open CJson WirelessGateway.Types Memory WsServer Lib.Linked

inductive HandlerAction
  | sendJson (json : Bytes) (env : SendEnv)
  | sendStatus (sta : UInt32) (env : SendEnv)
  | sendGroup (fid : UInt32) (json : Bytes) (env : SendEnv)
  | setContext (ctx : Nat)
  | complete (p : CallPtr)
  | register (fHandler : Option HandlerId) (fid : UInt32) (ctx : Nat) (alloc : Bool)
  | unregister (fid : UInt32)

/-- One action of the handler of a call. The mutex is recursive, so takes of
the worker's task succeed. -/
def handlerAction (p : CallPtr) (s : Server) : HandlerAction → Fallible Server
  | .sendJson json env => do
    let (s, _) ← bApiCallSendJson s .handler p json env
    pure s
  | .sendStatus sta env => do
    let (s, _) ← bApiCallSendStatus s .handler p sta env
    pure s
  | .sendGroup fid json env => do
    let (s, _) ← bApiCallSendJsonFidGroup s .handler fid json env
    pure s
  | .setContext ctx => s.modifyCall p (fun c => { c with pxHandlerContext := ctx })
  | .complete q => vApiCallComplete s q
  | .register h fid ctx alloc => pure (bApiCallRegister s h fid ctx true alloc).1
  | .unregister fid => do
    let (s, _) ← bApiCallUnregister s fid true
    pure s

/-- The environment of one micro-step of the worker: allocations, results of
the sends, what the handler does, and the ticks that pass during a ping. -/
structure WorkerEnv where
  elapsed : UInt32
  pingSent : Bool
  msgAlloc : Bool
  dataAlloc : Bool
  busy : SendEnv
  status : SendEnv
  reply : SendEnv
  handler : List HandlerAction

def vServeApiCall (s : Server) (item : CallPtr) (env : WorkerEnv) : Fallible Server := do
  let call ← s.call item
  match call.session with
  | some q => do
    let sess ← s.session (some q)
    let now := s.tick
    if now - sess.ulAliveTs ≥ configWebSocketPingDelay ∧
        now - sess.ulPingTs ≥ configWebSocketPingDelay then
      let s := s.log (.control sess.conn .ping env.pingSent)
      if !env.pingSent then vApiCallComplete s item
      else
        let s := s.passTicks env.elapsed
        let call ← s.call item
        let sess ← s.session call.session
        pure (s.setSession (call.session.getD 0) { sess with ulPingTs := s.tick })
    else pure s
  | none => (s.unlink item).freeCall item

def queueSend (s : Server) (q : QueueId) (r : Request) : Option Server :=
  let d := s.periph q
  if d.queue.length < d.depth then
    some ((s.setPeriph q { d with queue := d.queue ++ [r] }).log (.forward r.call q r.msg))
  else none

def refuseCall (s : Server) (p : CallPtr) (env : WorkerEnv) : Fallible Server := do
  let (s, _) ← bApiCallSendStatus (s.log (.refuse p)) .worker p apiCallStatusBusy env.busy
  s.modifyCall p ApiCall.dropSession

def vForwardCallToPeripheral (s : Server) (p : CallPtr) (queue : QueueId) (env : WorkerEnv) :
    Fallible Server := do
  let call ← s.call p
  if !env.msgAlloc then pure (s.log (.stall p))
  else if call.longTerm then
    if call.pucReqData.isSome && 0 < call.ulReqDataLen then
      if !env.dataAlloc then pure (s.log (.stall p))
      else
        let data := call.pucReqData.map (fun bs => bs.take call.ulReqDataLen)
        let msg := ⟨call.ulFid, call.ulId, data, call.ulReqDataLen⟩
        match queueSend s queue ⟨msg, p⟩ with
        | some s => pure s
        | none => refuseCall s p env
    else
      match queueSend s queue ⟨⟨call.ulFid, call.ulId, none, call.ulReqDataLen⟩, p⟩ with
      | some s => pure s
      | none => refuseCall s p env
  else
    match queueSend s queue ⟨⟨call.ulFid, call.ulId, call.pucReqData, call.ulReqDataLen⟩, p⟩ with
    | some s => s.modifyCall p ApiCall.dropReqData
    | none => refuseCall s p env

def deleteMatching (fd : Int) (fid id : UInt32) (items : Server → List CallPtr) :
    Nat → Server → Fallible Server
  | 0, s => pure s
  | n + 1, s => do
    match ← findFirst (bCallClientIdMatch fd fid id s) (items s) with
    | none => pure s
    | some found => do
      let s ← (s.unlink found).freeCall found
      deleteMatching fd fid id items n s

def deleteCall (s : Server) (item : CallPtr) (next : Option CallPtr) (env : WorkerEnv) :
    Fallible (Server × Option CallPtr) := do
  let (s, _) ← bApiCallSendStatus s .worker item apiCallStatusDelivered env.status
  let call ← s.call item
  if call.session.isSome then
    let sess ← s.session call.session
    let s ← s.modifyCall item ApiCall.dropSession
    let s ← deleteMatching sess.fd call.ulFid call.ulId Server.pxWsApiWaitingForResponse
      s.pxWsApiWaitingForResponse.length s
    let s ← deleteMatching sess.fd call.ulFid call.ulId Server.pxWsApiCall s.pxWsApiCall.length s
    let next ← s.findNext item anyItem
    let s ← (s.unlink item).freeCall item
    pure (s, next)
  else
    let s ← (s.unlink item).freeCall item
    pure (s, next)

def parked (s : Server) (call : ApiCall) : Bool :=
  call.longTerm && !call.isNew && (s.tick - call.ulNextPollTick).toInt32 < 0

def forwardItem (s : Server) (item : CallPtr) (env : WorkerEnv) :
    Fallible (Server × Option CallPtr) := do
  let next ← s.findNext item anyItem
  let call ← s.call item
  if call.toDelete then deleteCall s item next env
  else if parked s call then pure (s, next)
  else match s.wsGetFidQueue call.ulFid with
  | some queue => do
    let s ← vForwardCallToPeripheral s item queue env
    let s := s.toWaiting item
    let call ← s.call item
    if call.isNew then
      let (s, sent) ← bApiCallSendStatus s .worker item apiCallStatusDelivered env.status
      let s ← if sent then s.modifyCall item ApiCall.clearNew else pure s
      pure (s, next)
    else pure (s, next)
  | none => do
    let (s, _) ← bApiCallSendStatus s .worker item apiCallStatusInvalid env.status
    let s ← (s.unlink item).freeCall item
    pure (s, next)

def invokeHandler (s : Server) (p : CallPtr) (env : WorkerEnv) : Fallible Server := do
  let call ← s.call p
  if call.fHandler.isSome then env.handler.foldlM (handlerAction p) s else pure s

/-- What both branches of the reply loop do for the call they picked: invoke
its handler, send the data, then release the call or arm its next poll. -/
def respond (s : Server) (p : CallPtr) (r : Reply) (env : WorkerEnv) : Fallible Server := do
  let s ← invokeHandler s p env
  let s ← if r.msg.len ≠ 0 then do
      let (s, _) ← apiCallSendJson s .worker (some p) 0 (.reply r) env.reply
      pure s
    else pure s
  let call ← s.call p
  let s := s.log (.respond p r)
  if !call.longTerm then (s.unlink p).freeCall p
  else
    let s ← s.modifyCall p (fun c => c.setNextPoll (s.tick + c.ulPollIntervalTicks))
    pure (s.toCalls p)

/-- Where the worker task stands in vWsApiCallWorkerStep. An item is the one
the loop looks at next, none once the loop is over. -/
inductive WorkerPc
  | idle
  | serveCalls (item : Option CallPtr)
  | serveWaiting (item : Option CallPtr)
  | served
  | forward (item : Option CallPtr)
  | receive
  | taken (r : Reply)
  | broadcast (r : Reply) (it : Option CallPtr)

def WorkerPc.locked : WorkerPc → Bool
  | .serveCalls _ | .serveWaiting _ | .forward _ | .broadcast _ _ => true
  | .idle | .served | .receive | .taken _ => false

/-- One micro-step of vWsApiCallWorkerStep: one iteration of one of its loops,
or the step from one loop to the next. -/
def workerStep (s : Server) (pc : WorkerPc) (env : WorkerEnv) : Fallible (Server × WorkerPc) :=
  match pc with
  | .idle => pure (s, .serveCalls s.pxWsApiCall.head?)
  | .serveCalls none => pure (s, .serveWaiting s.pxWsApiWaitingForResponse.head?)
  | .serveCalls (some item) => do
    let next ← s.findNext item anyItem
    let s ← vServeApiCall s item env
    pure (s, .serveCalls next)
  | .serveWaiting none => pure (s, .served)
  | .serveWaiting (some item) => do
    let next ← s.findNext item anyItem
    let s ← vServeApiCall s item env
    pure (s, .serveWaiting next)
  | .served => pure (s, .forward s.pxWsApiCall.head?)
  | .forward none => pure (s, .receive)
  | .forward (some item) => do
    let (s, next) ← forwardItem s item env
    pure (s, .forward next)
  | .receive => match s.xWsWorkerQueue with
    | [] => pure (s, .idle)
    | r :: rs => pure (s.receive r rs, .taken r)
  | .taken r =>
    if r.msg.id = 0 then do
      let it ← findFirst (bCallFidMatch r.msg.fid s) s.pxWsApiWaitingForResponse
      pure (s, .broadcast r it)
    else do
      let it ← findFirst (bCallIdMatch r.msg.id s) s.pxWsApiWaitingForResponse
      match it with
      | none => pure (s.handled r, .receive)
      | some p => do
        let s ← respond s p r env
        pure (s.handled r, .receive)
  | .broadcast r none => pure (s.handled r, .receive)
  | .broadcast r (some it) => do
    let next ← s.findNext it (bCallFidMatch r.msg.fid)
    let s ← respond s it r env
    pure (s, .broadcast r next)

end WirelessGateway.Worker
