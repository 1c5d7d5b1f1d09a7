import WirelessGateway.Memory

namespace WirelessGateway.WsServer

open CJson WirelessGateway.Types Memory Lib.Linked

def bCallClientIdMatch (fd : Int) (fid id : UInt32) (s : Server) (p : CallPtr) : Fallible Bool := do
  let call ← s.call p
  if call.session.isNone then pure false
  else
    let sess ← s.session call.session
    pure (sess.fd == fd && call.ulFid == fid && call.ulId == id)

def bCallIdMatch (id : UInt32) (s : Server) (p : CallPtr) : Fallible Bool := do
  let call ← s.call p
  pure (call.ulId == id && call.session.isSome)

def bCallFidMatch (fid : UInt32) (s : Server) (p : CallPtr) : Fallible Bool := do
  let call ← s.call p
  pure (call.ulFid == fid && call.session.isSome)

def vBreakApiCallByFd (fd : Int) (s : Server) (item : CallPtr) : Fallible Server := do
  let call ← s.call item
  if call.session.isNone then pure s
  else
    let sess ← s.session call.session
    if sess.fd = fd then s.modifyCall item ApiCall.dropSession else pure s

def vBreakApiCallByFid (fid : UInt32) (s : Server) (item : CallPtr) : Fallible Server := do
  let call ← s.call item
  if call.ulFid = fid then s.modifyCall item ApiCall.dropSession else pure s

def vBreakApiCallsByFd (s : Server) (fd : Int) : Fallible Server :=
  s.forEach (vBreakApiCallByFd fd)

def vBreakApiCallsByFid (s : Server) (fid : UInt32) : Fallible Server :=
  s.forEach (vBreakApiCallByFid fid)

/-- Whether the buffer of a send can be allocated, and whether the transport
accepts the frame for the session of a call. -/
structure SendEnv where
  alloc : Bool
  sent : CallPtr → Bool

def sendToSession (s : Server) (src : Source) (sub : CallPtr) (resp : BufPtr)
    (sent : CallPtr → Bool) : Fallible (Server × Bool) := do
  let call ← s.call sub
  let sess ← s.session call.session
  let d ← s.net.buf resp
  let s := s.log (.queue src sub sess.conn d.fid d.sid d.arg (sent sub))
  if sent sub then
    let transfer := ⟨call.session.getD 0, sess.fd, resp⟩
    pure (s.withNet { s.net with inflight := s.net.inflight ++ [transfer] }, true)
  else
    let net ← s.net.release resp
    pure (s.withNet net, false)

def countMatch (found : CallPtr → Fallible Bool) : List CallPtr → Fallible Nat
  | [] => pure 0
  | p :: ps => do
    let hit ← found p
    let n ← countMatch found ps
    pure (n + hit.toNat)

/-- One of the two group loops of _bApiCallSendJson, with the result of the
last send. A send changes neither the lists nor a session, so looking at an
item when it is reached is looking at it one send earlier. -/
def sendToGroup (src : Source) (fid : UInt32) (resp : BufPtr) (sent : CallPtr → Bool) :
    List CallPtr → Server → Bool → Fallible (Server × Bool)
  | [], s, res => pure (s, res)
  | p :: ps, s, res => do
    if ← bCallFidMatch fid s p then
      let (s, res) ← sendToSession s src p resp sent
      sendToGroup src fid resp sent ps s res
    else sendToGroup src fid resp sent ps s res

def apiCallSendJson (s : Server) (src : Source) (pxApiCall : Option CallPtr) (ulFid : UInt32)
    (arg : Payload) (env : SendEnv) : Fallible (Server × Bool) :=
  match pxApiCall with
  | some p =>
    if ulFid ≠ 0 then pure (s, false)
    else do
      let call ← s.call p
      if call.session.isNone then pure (s, false)
      else if !env.alloc then pure (s, false)
      else sendToSession (s.allocData 1 call.ulFid call.ulId arg) src p s.net.nextBuf env.sent
  | none =>
    if ulFid = 0 then pure (s, false)
    else do
      let waiting ← countMatch (bCallFidMatch ulFid s) s.pxWsApiWaitingForResponse
      let calls ← countMatch (bCallFidMatch ulFid s) s.pxWsApiCall
      if waiting + calls = 0 then pure (s, false)
      else if !env.alloc then pure (s, false)
      else
        let resp := s.net.nextBuf
        let (s, res) ← sendToGroup src ulFid resp env.sent s.pxWsApiWaitingForResponse
          (s.allocData (waiting + calls) ulFid 0 arg) true
        sendToGroup src ulFid resp env.sent s.pxWsApiCall s res

def bApiCallSendJson (s : Server) (src : Source) (p : CallPtr) (json : Bytes) (env : SendEnv) :
    Fallible (Server × Bool) :=
  apiCallSendJson s src (some p) 0 (.json json) env

def bApiCallSendStatus (s : Server) (src : Source) (p : CallPtr) (ulSta : UInt32) (env : SendEnv) :
    Fallible (Server × Bool) :=
  apiCallSendJson s src (some p) 0 (.status ulSta) env

def bApiCallSendJsonFidGroup (s : Server) (src : Source) (ulFid : UInt32) (json : Bytes)
    (env : SendEnv) : Fallible (Server × Bool) :=
  apiCallSendJson s src none ulFid (.json json) env

/-- vWsTransferComplete_cb for the i-th outstanding send, taken by the httpd
task. It gives up on the mutex after 100 ms. -/
def vWsTransferComplete (s : Server) (i : Nat) (err took : Bool) : Option (Fallible Server) :=
  match s.net.inflight[i]? with
  | none => none
  | some t => some (do
    let s := s.withNet { s.net with inflight := s.net.inflight.eraseIdx i }
    let s ← if err && took then vBreakApiCallsByFd s t.fd else pure s
    let net ← s.net.release t.buf
    pure (s.withNet net))

def vApiCallComplete (s : Server) (p : CallPtr) : Fallible Server :=
  if p ∈ s.pxWsApiCall ∨ p ∈ s.pxWsApiWaitingForResponse then
    s.modifyCall p (fun c =>
      let pending := if c.ulCallPending = 0 then 0 else c.ulCallPending - 1
      { c with ulCallPending := pending, session := if pending = 0 then none else c.session })
  else pure s

def bApiCallRegister (s : Server) (fHandler : Option HandlerId) (fid : UInt32) (ctx : Nat)
    (took alloc : Bool) : Server × Bool :=
  match fHandler with
  | none => (s, false)
  | some h =>
    if fid = apiHandlerIdGeneral then (s, false)
    else if !took then (s, false)
    else if (s.findHandler fid).isSome then (s, false)
    else if !alloc then (s, false)
    else ({ s with pxWsApiHandlers := s.pxWsApiHandlers ++ [⟨h, fid, ctx⟩] }, true)

def bApiCallUnregister (s : Server) (fid : UInt32) (took : Bool) : Fallible (Server × Bool) :=
  if fid = apiHandlerIdGeneral then pure (s, false)
  else if !took then pure (s, false)
  else if (s.findHandler fid).isSome then do
    let s ← vBreakApiCallsByFid s fid
    pure ({ s with pxWsApiHandlers := s.pxWsApiHandlers.eraseP (fun h => h.ulFid == fid) }, true)
  else pure (s, false)

def wsServerRegisterFidQueue (s : Server) (fid : UInt32) (queue : Option QueueId)
    (took alloc : Bool) : Server × Bool :=
  if !took then (s, false)
  else if (s.pxWsFidQueues.find? (fun f => f.ulFid == fid)).isSome then (s, false)
  else if !alloc then (s, false)
  else ({ s with pxWsFidQueues := s.pxWsFidQueues ++ [⟨fid, queue⟩] }, true)

end WirelessGateway.WsServer
