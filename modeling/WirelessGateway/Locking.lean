import WirelessGateway.CallHandles
import WirelessGateway.Lib.Locks

namespace WirelessGateway.Locking

open CJson WirelessGateway.Types Memory WsServer Transport Worker Tasks CallHandles Updates
open Lib.Linked Lib.Locks Lib.Fallible Lib.Runs Steps

abbrev Locked := Traced Fault

variable {P : Platform} {s : Server} {p : CallPtr} {d : Int}

section Api

def vBreakApiCallsByFd (s : Server) (fd : Int) (took : Bool) : Locked Server := do
  if ← attempt took then
    let s ← access (s.pxWsApiCall.foldlM (vBreakApiCallByFd fd) s)
    let s ← access (s.pxWsApiWaitingForResponse.foldlM (vBreakApiCallByFd fd) s)
    give
    pure s
  else pure s

def vBreakApiCallsByFid (s : Server) (fid : UInt32) (took : Bool) : Locked Server := do
  if ← attempt took then
    let s ← access (s.pxWsApiCall.foldlM (vBreakApiCallByFid fid) s)
    let s ← access (s.pxWsApiWaitingForResponse.foldlM (vBreakApiCallByFid fid) s)
    give
    pure s
  else pure s

def bApiCallRegister (s : Server) (fHandler : Option HandlerId) (fid : UInt32) (ctx : Nat)
    (took alloc : Bool) : Locked (Server × Bool) :=
  match fHandler with
  | none => pure (s, false)
  | some h =>
    if fid = apiHandlerIdGeneral then pure (s, false)
    else do
      if ← attempt took then
        let registered ← access (pure (s.findHandler fid))
        if registered.isSome then
          give
          pure (s, false)
        else if !alloc then
          give
          pure (s, false)
        else
          let s ← access (pure { s with pxWsApiHandlers := s.pxWsApiHandlers ++ [⟨h, fid, ctx⟩] })
          give
          pure (s, true)
      else pure (s, false)

/-- The inner take finds the mutex held by the task itself, and succeeds. -/
def bApiCallUnregister (s : Server) (fid : UInt32) (took : Bool) : Locked (Server × Bool) :=
  if fid = apiHandlerIdGeneral then pure (s, false)
  else do
    if ← attempt took then
      let registered ← access (pure (s.findHandler fid))
      if registered.isSome then
        let s ← vBreakApiCallsByFid s fid true
        let s ← access (pure
          { s with pxWsApiHandlers := s.pxWsApiHandlers.eraseP (fun h => h.ulFid == fid) })
        give
        pure (s, true)
      else
        give
        pure (s, false)
    else pure (s, false)

def vApiCallComplete (s : Server) (p : CallPtr) : Locked Server := do
  take
  let listed ← access (pure (decide (p ∈ s.pxWsApiCall ∨ p ∈ s.pxWsApiWaitingForResponse)))
  if listed then
    let s ← plain (s.modifyCall p completed)
    give
    pure s
  else
    give
    pure s

def bApiCallGetId (s : Server) (pxApiCall : Option CallPtr) (pulOutId : Option UInt32) :
    Locked (Option UInt32 × Bool) :=
  match pxApiCall, pulOutId with
  | some p, some out => do
    take
    let listed ← access (pure (decide (p ∈ s.pxWsApiCall)))
    if listed then
      let call ← plain (s.call p)
      if call.session.isSome then
        give
        pure (some call.ulId, true)
      else
        give
        pure (some out, false)
    else
      give
      pure (some out, false)
  | _, out => pure (out, false)

def sendToGroup (src : Source) (fid : UInt32) (resp : BufPtr) (sent : CallPtr → Bool) :
    List CallPtr → Server → Bool → Locked (Server × Bool)
  | [], s, res => access (pure (s, res))
  | p :: ps, s, res => do
    if ← access (bCallFidMatch fid s p) then
      let (s, res) ← plain (sendToSession s src p resp sent)
      sendToGroup src fid resp sent ps s res
    else sendToGroup src fid resp sent ps s res

def apiCallSendJson (s : Server) (src : Source) (pxApiCall : Option CallPtr) (ulFid : UInt32)
    (arg : Payload) (env : SendEnv) : Locked (Server × Bool) :=
  match pxApiCall with
  | some p =>
    if ulFid ≠ 0 then pure (s, false)
    else do
      let call ← plain (s.call p)
      take
      if call.session.isNone then
        give
        pure (s, false)
      else if !env.alloc then
        give
        pure (s, false)
      else
        let r ← plain (sendToSession (s.allocData 1 call.ulFid call.ulId arg) src p s.net.nextBuf
          env.sent)
        give
        pure r
  | none =>
    if ulFid = 0 then pure (s, false)
    else do
      take
      let waiting ← access (countMatch (bCallFidMatch ulFid s) s.pxWsApiWaitingForResponse)
      let calls ← access (countMatch (bCallFidMatch ulFid s) s.pxWsApiCall)
      if waiting + calls = 0 then
        give
        pure (s, false)
      else if !env.alloc then
        give
        pure (s, false)
      else
        let resp := s.net.nextBuf
        let (s, res) ← sendToGroup src ulFid resp env.sent s.pxWsApiWaitingForResponse
          (s.allocData (waiting + calls) ulFid 0 arg) true
        let r ← sendToGroup src ulFid resp env.sent s.pxWsApiCall s res
        give
        pure r

def bApiCallSendStatus (s : Server) (src : Source) (p : CallPtr) (ulSta : UInt32) (env : SendEnv) :
    Locked (Server × Bool) :=
  apiCallSendJson s src (some p) 0 (.status ulSta) env

def wsServerRegisterFidQueue (s : Server) (fid : UInt32) (queue : Option QueueId)
    (took alloc : Bool) : Locked (Server × Bool) := do
  if ← attempt took then
    let existing ← access (pure (s.pxWsFidQueues.find? (fun f => f.ulFid == fid)))
    if existing.isSome then
      give
      pure (s, false)
    else if !alloc then
      give
      pure (s, false)
    else
      let s ← access (pure { s with pxWsFidQueues := s.pxWsFidQueues ++ [⟨fid, queue⟩] })
      give
      pure (s, true)
  else pure (s, false)

end Api

section Callbacks

def rejectCall (s : Server) (p : CallPtr) (sta : UInt32) (env : SendEnv) : Locked Server := do
  let (s, _) ← bApiCallSendStatus s .httpd p sta env
  plain (s.freeCall p)

def wsServerOnText (P : Platform) (s : Server) (conn : ConnPtr) (userData : Option SessPtr)
    (data : Option Bytes) (env : TextEnv) : Locked Server :=
  match userData, data with
  | some sess, some (b :: bs) =>
    if !env.callAlloc then pure s
    else match P.parse (b :: bs) with
    | none => pure s
    | some json =>
      if frameFid json = apiHandlerIdGeneral then pure s
      else
        let wscd := textCall P env.printAlloc json sess
        let p := s.nextCall
        match frameNumber json ['F', 'L', 'A', 'G', 'S'], frameNumber json ['S', 'I', 'D'] with
        | some _, some sid => do
          take
          let wscd := { wscd with ulId := sid &&& 0xffff }
          let hlr ← access (pure (s.findHandler wscd.ulFid))
          let queue ← access (pure (s.wsGetFidQueue wscd.ulFid))
          if hlr.isNone && queue.isNone then
            let s ← rejectCall (s.allocCall wscd) p apiCallErrorStatusNoHandler env.status
            give
            pure s
          else
            let wscd := { wscd with
              fHandler := hlr.map ApiHandlerItem.fHandler
              pxHandlerContext := (hlr.map ApiHandlerItem.xHandlerContext).getD 0 }
            let s ← access (pure (((s.allocCall wscd).toCalls p).log (.accept p conn json wscd)))
            give
            pure s
        | _, _ =>
          rejectCall (s.allocCall wscd) p apiCallErrorStatusBadReq env.status
  | _, _ => pure s

def wsServerOnDisconnect (s : Server) (conn : ConnPtr) (userData : Option SessPtr) :
    Locked Server :=
  match userData with
  | none => pure (s.closeConn conn)
  | some q => do
    let sess ← plain (s.session (some q))
    let s ← vBreakApiCallsByFd s sess.fd true
    pure ({ s with sessions := Function.update s.sessions q none }.closeConn conn)

def vWsTransferComplete (s : Server) (i : Nat) (err took : Bool) : Option (Locked Server) :=
  match s.net.inflight[i]? with
  | none => none
  | some t => some (do
    let s := s.withNet { s.net with inflight := s.net.inflight.eraseIdx i }
    let s ← (if err then vBreakApiCallsByFd s t.fd took else pure s)
    let net ← plain (s.net.release t.buf)
    pure (s.withNet net))

end Callbacks

/-- A call of a public function: by a task, or by a handler that the worker
invokes. -/
inductive Operation
  | register (fHandler : Option HandlerId) (fid : UInt32) (ctx : Nat) (took alloc : Bool)
  | unregister (fid : UInt32) (took : Bool)
  | registerQueue (fid : UInt32) (queue : Option QueueId) (took alloc : Bool)
  | complete (p : CallPtr)
  | getId (pxApiCall : Option CallPtr) (pulOutId : Option UInt32)
  | sendJson (src : Source) (p : CallPtr) (json : Bytes) (env : SendEnv)
  | sendStatus (src : Source) (p : CallPtr) (sta : UInt32) (env : SendEnv)
  | sendGroup (src : Source) (fid : UInt32) (json : Bytes) (env : SendEnv)
  | text (conn : ConnPtr) (userData : Option SessPtr) (data : Option Bytes) (env : TextEnv)
  | disconnect (conn : ConnPtr) (userData : Option SessPtr)
  | transferComplete (i : Nat) (err took : Bool)

def Operation.run (P : Platform) (s : Server) : Operation → Locked Server
  | .register h fid ctx took alloc => do
    let (s, _) ← bApiCallRegister s h fid ctx took alloc
    pure s
  | .unregister fid took => do
    let (s, _) ← bApiCallUnregister s fid took
    pure s
  | .registerQueue fid queue took alloc => do
    let (s, _) ← wsServerRegisterFidQueue s fid queue took alloc
    pure s
  | .complete p => vApiCallComplete s p
  | .getId p out => do
    let _ ← bApiCallGetId s p out
    pure s
  | .sendJson src p json env => do
    let (s, _) ← apiCallSendJson s src (some p) 0 (.json json) env
    pure s
  | .sendStatus src p sta env => do
    let (s, _) ← bApiCallSendStatus s src p sta env
    pure s
  | .sendGroup src fid json env => do
    let (s, _) ← apiCallSendJson s src none fid (.json json) env
    pure s
  | .text conn userData data env => wsServerOnText P s conn userData data env
  | .disconnect conn userData => wsServerOnDisconnect s conn userData
  | .transferComplete i err took => (vWsTransferComplete s i err took).getD (pure s)

inductive HandlerCall
  | api (op : Operation)
  | setContext (ctx : Nat)

def HandlerCall.run (P : Platform) (p : CallPtr) (s : Server) : HandlerCall → Locked Server
  | .api op => op.run P s
  | .setContext ctx => plain (s.modifyCall p (fun c => { c with pxHandlerContext := ctx }))

section Worker

def unlinkFree (s : Server) (p : CallPtr) : Locked Server := do
  let s ← access (pure (s.unlink p))
  plain (s.freeCall p)

def vServeApiCall (s : Server) (item : CallPtr) (env : WorkerEnv) : Locked Server := do
  let call ← plain (s.call item)
  match call.session with
  | some q => do
    let sess ← plain (s.session (some q))
    let now := s.tick
    if now - sess.ulAliveTs ≥ configWebSocketPingDelay ∧
        now - sess.ulPingTs ≥ configWebSocketPingDelay then
      let s := s.log (.control sess.conn .ping env.pingSent)
      if !env.pingSent then vApiCallComplete s item
      else
        let s := s.passTicks env.elapsed
        let call ← plain (s.call item)
        let sess ← plain (s.session call.session)
        pure (s.setSession (call.session.getD 0) { sess with ulPingTs := s.tick })
    else pure s
  | none => unlinkFree s item

def refuseCall (s : Server) (p : CallPtr) (env : WorkerEnv) : Locked Server := do
  let (s, _) ← bApiCallSendStatus (s.log (.refuse p)) .worker p apiCallStatusBusy env.busy
  plain (s.modifyCall p ApiCall.dropSession)

def vForwardCallToPeripheral (s : Server) (p : CallPtr) (queue : QueueId) (env : WorkerEnv) :
    Locked Server := do
  let call ← plain (s.call p)
  if !env.msgAlloc then pure (s.log (.stall p))
  else if call.longTerm then
    if call.pucReqData.isSome && 0 < call.ulReqDataLen then
      if !env.dataAlloc then pure (s.log (.stall p))
      else
        let data := call.pucReqData.map (fun bs => bs.take call.ulReqDataLen)
        let msg := ⟨call.ulFid, call.ulId, data, call.ulReqDataLen⟩
        match queueSend s queue ⟨msg, p⟩ with
        | some s => pure s
        | none => refuseCall s p env
    else
      match queueSend s queue ⟨⟨call.ulFid, call.ulId, none, call.ulReqDataLen⟩, p⟩ with
      | some s => pure s
      | none => refuseCall s p env
  else
    match queueSend s queue ⟨⟨call.ulFid, call.ulId, call.pucReqData, call.ulReqDataLen⟩, p⟩ with
    | some s => plain (s.modifyCall p ApiCall.dropReqData)
    | none => refuseCall s p env

def deleteMatching (fd : Int) (fid id : UInt32) (items : Server → List CallPtr) :
    Nat → Server → Locked Server
  | 0, s => access (pure s)
  | n + 1, s => do
    match ← access (findFirst (bCallClientIdMatch fd fid id s) (items s)) with
    | none => pure s
    | some found => do
      let s ← unlinkFree s found
      deleteMatching fd fid id items n s

def deleteCall (s : Server) (item : CallPtr) (next : Option CallPtr) (env : WorkerEnv) :
    Locked (Server × Option CallPtr) := do
  let (s, _) ← bApiCallSendStatus s .worker item apiCallStatusDelivered env.status
  let call ← plain (s.call item)
  if call.session.isSome then
    let sess ← plain (s.session call.session)
    let s ← plain (s.modifyCall item ApiCall.dropSession)
    let s ← deleteMatching sess.fd call.ulFid call.ulId Server.pxWsApiWaitingForResponse
      s.pxWsApiWaitingForResponse.length s
    let s ← deleteMatching sess.fd call.ulFid call.ulId Server.pxWsApiCall s.pxWsApiCall.length s
    let next ← access (s.findNext item anyItem)
    let s ← unlinkFree s item
    pure (s, next)
  else
    let s ← unlinkFree s item
    pure (s, next)

def forwardItem (s : Server) (item : CallPtr) (env : WorkerEnv) :
    Locked (Server × Option CallPtr) := do
  let next ← access (s.findNext item anyItem)
  let call ← plain (s.call item)
  if call.toDelete then deleteCall s item next env
  else if parked s call then pure (s, next)
  else
    match ← access (pure (s.wsGetFidQueue call.ulFid)) with
    | some queue => do
      let s ← vForwardCallToPeripheral s item queue env
      let s ← access (pure (s.toWaiting item))
      let call ← plain (s.call item)
      if call.isNew then
        let (s, sent) ← bApiCallSendStatus s .worker item apiCallStatusDelivered env.status
        let s ← (if sent then plain (s.modifyCall item ApiCall.clearNew) else pure s)
        pure (s, next)
      else pure (s, next)
    | none => do
      let (s, _) ← bApiCallSendStatus s .worker item apiCallStatusInvalid env.status
      let s ← unlinkFree s item
      pure (s, next)

def invokeHandler (P : Platform) (s : Server) (p : CallPtr) (calls : CallPtr → List HandlerCall) :
    Locked Server := do
  let call ← plain (s.call p)
  if call.fHandler.isSome then (calls p).foldlM (HandlerCall.run P p) s else pure s

def respond (P : Platform) (s : Server) (p : CallPtr) (r : Reply) (env : WorkerEnv)
    (calls : CallPtr → List HandlerCall) : Locked Server := do
  let s ← invokeHandler P s p calls
  let s ← (if r.msg.len ≠ 0 then do
      let (s, _) ← apiCallSendJson s .worker (some p) 0 (.reply r) env.reply
      pure s
    else pure s)
  let call ← plain (s.call p)
  let s := s.log (.respond p r)
  if !call.longTerm then unlinkFree s p
  else
    let s ← plain (s.modifyCall p (fun c => c.setNextPoll (s.tick + c.ulPollIntervalTicks)))
    access (pure (s.toCalls p))

/-- One micro-step of vWsApiCallWorkerStep. The handler of the call that it
answers makes any calls. -/
def workerStep (P : Platform) (s : Server) (pc : WorkerPc) (env : WorkerEnv)
    (calls : CallPtr → List HandlerCall) : Locked (Server × WorkerPc) :=
  match pc with
  | .idle => do
    take
    let item ← access (pure s.pxWsApiCall.head?)
    pure (s, .serveCalls item)
  | .serveCalls none => do
    let item ← access (pure s.pxWsApiWaitingForResponse.head?)
    pure (s, .serveWaiting item)
  | .serveCalls (some item) => do
    let next ← access (s.findNext item anyItem)
    let s ← vServeApiCall s item env
    pure (s, .serveCalls next)
  | .serveWaiting none => do
    give
    pure (s, .served)
  | .serveWaiting (some item) => do
    let next ← access (s.findNext item anyItem)
    let s ← vServeApiCall s item env
    pure (s, .serveWaiting next)
  | .served => do
    take
    let item ← access (pure s.pxWsApiCall.head?)
    pure (s, .forward item)
  | .forward none => do
    give
    pure (s, .receive)
  | .forward (some item) => do
    let (s, next) ← forwardItem s item env
    pure (s, .forward next)
  | .receive => match s.xWsWorkerQueue with
    | [] => pure (s, .idle)
    | r :: rs => pure (s.receive r rs, .taken r)
  | .taken r => do
    take
    if r.msg.id = 0 then
      let it ← access (findFirst (bCallFidMatch r.msg.fid s) s.pxWsApiWaitingForResponse)
      pure (s, .broadcast r it)
    else
      match ← access (findFirst (bCallIdMatch r.msg.id s) s.pxWsApiWaitingForResponse) with
      | none => do
        give
        pure (s.handled r, .receive)
      | some p => do
        let s ← respond P s p r env calls
        give
        pure (s.handled r, .receive)
  | .broadcast r none => do
    give
    pure (s.handled r, .receive)
  | .broadcast r (some it) => do
    let next ← access (s.findNext it (bCallFidMatch r.msg.fid))
    let s ← respond P s it r env calls
    pure (s, .broadcast r next)

/-- A turn of the worker's task: what the other tasks have made of the server
since the last one, and what its micro-step meets. -/
structure Turn where
  srv : Server
  env : WorkerEnv
  calls : CallPtr → List HandlerCall

def workerRun (P : Platform) : WorkerPc → List Turn → Locked WorkerPc
  | pc, [] => pure pc
  | pc, t :: ts => do
    let (_, pc) ← workerStep P t.srv pc t.env t.calls
    workerRun P pc ts

end Worker

section Balance

theorem vBreakApiCallsByFd_balanced (hd : 0 ≤ d) (s : Server) (fd : Int) (took : Bool) :
    Balanced d (vBreakApiCallsByFd s fd took) :=
  .attempt (.access hd (fun _ => .access hd (fun t => .leave d t))) (.pure d s)

theorem vBreakApiCallsByFid_balanced (hd : 0 ≤ d) (s : Server) (fid : UInt32) (took : Bool) :
    Balanced d (vBreakApiCallsByFid s fid took) :=
  .attempt (.access hd (fun _ => .access hd (fun t => .leave d t))) (.pure d s)

theorem bApiCallRegister_balanced (hd : 0 ≤ d) (s : Server) (h : Option HandlerId) (fid : UInt32)
    (ctx : Nat) (took alloc : Bool) : Balanced d (bApiCallRegister s h fid ctx took alloc) := by
  cases h with
  | none => exact .pure d (s, false)
  | some h =>
      refine .ite (.pure d (s, false)) (.attempt (.access hd (fun registered => ?_)) (.pure d _))
      exact .ite (.leave d _) (.ite (.leave d _) (.access hd (fun t => .leave d (t, true))))

theorem bApiCallUnregister_balanced (hd : 0 ≤ d) (s : Server) (fid : UInt32) (took : Bool) :
    Balanced d (bApiCallUnregister s fid took) := by
  refine .ite (.pure d (s, false)) (.attempt (.access hd (fun registered => ?_)) (.pure d _))
  refine .ite (.bind (vBreakApiCallsByFid_balanced (by omega) s fid true) (fun t => ?_)) (.leave d _)
  exact .access hd (fun u => .leave d (u, true))

theorem vApiCallComplete_balanced (hd : 0 ≤ d) (s : Server) (p : CallPtr) :
    Balanced d (vApiCallComplete s p) :=
  .enter (.access hd (fun _ => .ite (.plain (fun t => .leave d t)) (.leave d s)))

theorem bApiCallGetId_balanced (hd : 0 ≤ d) (s : Server) (px : Option CallPtr)
    (out : Option UInt32) : Balanced d (bApiCallGetId s px out) := by
  unfold bApiCallGetId
  split
  · refine .enter (.access hd (fun listed => .ite (.plain (fun call => ?_)) (.leave d _)))
    exact .ite (.leave d _) (.leave d _)
  · exact .pure d _

theorem sendToGroup_balanced (hd : 1 ≤ d) (src : Source) (fid : UInt32) (b : BufPtr)
    (sent : CallPtr → Bool) (ps : List CallPtr) (s : Server) (res : Bool) :
    Balanced d (sendToGroup src fid b sent ps s res) := by
  induction ps generalizing s res with
  | nil => exact .access hd _
  | cons p ps ih =>
      refine .bind (.access hd _) (fun hit => .ite ?_ (ih s res))
      exact .bind (.plain d _) (fun r => ih r.1 r.2)

theorem apiCallSendJson_balanced (hd : 0 ≤ d) (s : Server) (src : Source) (px : Option CallPtr)
    (fid : UInt32) (arg : Payload) (env : SendEnv) :
    Balanced d (apiCallSendJson s src px fid arg env) := by
  have hgroup := sendToGroup_balanced (d := d + 1) (by omega) src fid s.net.nextBuf env.sent
  cases px with
  | some p =>
      refine .ite (.pure d _) (.bind (.plain d _) (fun call => .enter ?_))
      exact .ite (.leave d _) (.ite (.leave d _) (.plain (fun r => .leave d r)))
  | none =>
      refine .ite (.pure d _) (.enter (.access hd (fun waiting => .access hd (fun calls => ?_))))
      refine .ite (.leave d _) (.ite (.leave d _) (.bind (hgroup _ _ _) (fun r => ?_)))
      exact .bind (hgroup _ r.1 r.2) (fun r => .leave d r)

theorem wsServerRegisterFidQueue_balanced (hd : 0 ≤ d) (s : Server) (fid : UInt32)
    (queue : Option QueueId) (took alloc : Bool) :
    Balanced d (wsServerRegisterFidQueue s fid queue took alloc) := by
  refine .attempt (.access hd (fun existing => ?_)) (.pure d _)
  exact .ite (.leave d _) (.ite (.leave d _) (.access hd (fun t => .leave d (t, true))))

theorem rejectCall_balanced (hd : 0 ≤ d) (s : Server) (p : CallPtr) (sta : UInt32)
    (env : SendEnv) : Balanced d (rejectCall s p sta env) :=
  .bind (apiCallSendJson_balanced hd s .httpd (some p) 0 _ env) (fun _ => .plain d _)

theorem wsServerOnText_balanced (hd : 0 ≤ d) (s : Server) (conn : ConnPtr)
    (userData : Option SessPtr) (data : Option Bytes) (env : TextEnv) :
    Balanced d (wsServerOnText P s conn userData data env) := by
  have hreject : ∀ {d : Int}, 0 ≤ d → ∀ s p sta, Balanced d (rejectCall s p sta env.status) :=
    fun hd s p sta => rejectCall_balanced hd s p sta env.status
  unfold wsServerOnText
  split
  · refine .ite (.pure d s) ?_
    split
    · exact .pure d s
    · refine .ite (.pure d s) ?_
      dsimp only
      split
      · refine .enter (.access hd (fun hlr => .access hd (fun queue => .ite ?_ ?_)))
        · exact .bind (hreject (by omega) _ _ _) (fun t => .leave d t)
        · exact .access hd (fun t => .leave d t)
      · exact hreject hd _ _ _
  · exact .pure d s

theorem wsServerOnDisconnect_balanced (hd : 0 ≤ d) (s : Server) (conn : ConnPtr)
    (userData : Option SessPtr) : Balanced d (wsServerOnDisconnect s conn userData) := by
  cases userData with
  | none => exact .pure d _
  | some q =>
      refine .bind (.plain d _) (fun sess => ?_)
      exact .bind (vBreakApiCallsByFd_balanced hd s sess.fd true) (fun t => .pure d _)

theorem vWsTransferComplete_balanced (hd : 0 ≤ d) {i : Nat} {err took : Bool} {x : Locked Server}
    (h : vWsTransferComplete s i err took = some x) : Balanced d x := by
  unfold vWsTransferComplete at h
  split at h
  · cases h
  next t _ =>
    cases h
    refine .bind (.ite (vBreakApiCallsByFd_balanced hd _ t.fd took) (.pure d _)) (fun u => ?_)
    exact .bind (.plain d _) (fun net => .pure d _)

theorem run_balanced (hd : 0 ≤ d) (s : Server) (op : Operation) : Balanced d (op.run P s) := by
  cases op with
  | register h fid ctx took alloc =>
      exact .bind (bApiCallRegister_balanced hd s h fid ctx took alloc) (fun r => .pure d r.1)
  | unregister fid took =>
      exact .bind (bApiCallUnregister_balanced hd s fid took) (fun r => .pure d r.1)
  | registerQueue fid queue took alloc =>
      exact .bind (wsServerRegisterFidQueue_balanced hd s fid queue took alloc)
        (fun r => .pure d r.1)
  | complete p => exact vApiCallComplete_balanced hd s p
  | getId px out => exact .bind (bApiCallGetId_balanced hd s px out) (fun _ => .pure d s)
  | sendJson src p json env =>
      exact .bind (apiCallSendJson_balanced hd s src (some p) 0 _ env) (fun r => .pure d r.1)
  | sendStatus src p sta env =>
      exact .bind (apiCallSendJson_balanced hd s src (some p) 0 _ env) (fun r => .pure d r.1)
  | sendGroup src fid json env =>
      exact .bind (apiCallSendJson_balanced hd s src none fid _ env) (fun r => .pure d r.1)
  | text conn userData data env => exact wsServerOnText_balanced hd s conn userData data env
  | disconnect conn userData => exact wsServerOnDisconnect_balanced hd s conn userData
  | transferComplete i err took =>
      change Balanced d ((vWsTransferComplete s i err took).getD (pure s))
      cases h : vWsTransferComplete s i err took with
      | none => exact .pure d s
      | some x => exact vWsTransferComplete_balanced hd h

theorem handlerCall_balanced (hd : 0 ≤ d) (s : Server) (p : CallPtr) (call : HandlerCall) :
    Balanced d (call.run P p s) := by
  cases call with
  | api op => exact run_balanced hd s op
  | setContext ctx => exact .plain d _

theorem unlinkFree_balanced (hd : 1 ≤ d) (s : Server) (p : CallPtr) :
    Balanced d (unlinkFree s p) := .bind (.access hd _) (fun _ => .plain d _)

theorem vServeApiCall_balanced (hd : 1 ≤ d) (s : Server) (p : CallPtr) (env : WorkerEnv) :
    Balanced d (vServeApiCall s p env) := by
  refine .bind (.plain d _) (fun call => ?_)
  split
  · refine .bind (.plain d _) (fun sess => .ite (.ite ?_ ?_) (.pure d s))
    · exact vApiCallComplete_balanced (by omega) _ p
    · exact .bind (.plain d _) (fun c => .bind (.plain d _) (fun k => .pure d _))
  · exact unlinkFree_balanced hd s p

theorem refuseCall_balanced (hd : 1 ≤ d) (s : Server) (p : CallPtr) (env : WorkerEnv) :
    Balanced d (refuseCall s p env) :=
  .bind (apiCallSendJson_balanced (by omega) _ .worker (some p) 0 _ env.busy) (fun _ => .plain d _)

theorem vForwardCallToPeripheral_balanced (hd : 1 ≤ d) (s : Server) (p : CallPtr) (q : QueueId)
    (env : WorkerEnv) : Balanced d (vForwardCallToPeripheral s p q env) := by
  have hrefuse := refuseCall_balanced hd s p env
  refine .bind (.plain d _) (fun call => .ite (.pure d _) (.ite (.ite (.ite (.pure d _) ?_) ?_) ?_))
  · dsimp only
    split
    · exact .pure d _
    · exact hrefuse
  · split
    · exact .pure d _
    · exact hrefuse
  · split
    · exact .plain d _
    · exact hrefuse

theorem deleteMatching_balanced (hd : 1 ≤ d) (fd : Int) (fid id : UInt32)
    (items : Server → List CallPtr) (n : Nat) (s : Server) :
    Balanced d (deleteMatching fd fid id items n s) := by
  induction n generalizing s with
  | zero => exact .access hd _
  | succ n ih =>
      refine .bind (.access hd _) (fun found => ?_)
      cases found with
      | none => exact .pure d s
      | some q => exact .bind (unlinkFree_balanced hd s q) ih

theorem deleteCall_balanced (hd : 1 ≤ d) (s : Server) (p : CallPtr) (next : Option CallPtr)
    (env : WorkerEnv) : Balanced d (deleteCall s p next env) := by
  have hfree : ∀ (s : Server) (next : Option CallPtr),
      Balanced d (unlinkFree s p >>= fun s => pure (s, next)) :=
    fun s next => .bind (unlinkFree_balanced hd s p) (fun t => .pure d _)
  refine .bind (apiCallSendJson_balanced (by omega) s .worker (some p) 0 _ env.status) (fun r => ?_)
  refine .bind (.plain d _) (fun call => .ite (.bind (.plain d _) (fun sess => ?_)) (hfree r.1 next))
  refine .bind (.plain d _) (fun t => .bind (deleteMatching_balanced hd _ _ _ _ _ t) (fun t => ?_))
  refine .bind (deleteMatching_balanced hd _ _ _ _ _ t) (fun t => ?_)
  exact .bind (.access hd _) (fun next => hfree t next)

theorem forwardItem_balanced (hd : 1 ≤ d) (s : Server) (p : CallPtr) (env : WorkerEnv) :
    Balanced d (forwardItem s p env) := by
  have hsend : ∀ (s : Server) (sta : UInt32),
      Balanced d (bApiCallSendStatus s .worker p sta env.status) :=
    fun s sta => apiCallSendJson_balanced (by omega) s .worker (some p) 0 _ env.status
  refine .bind (.access hd _) (fun next => .bind (.plain d _) (fun call => ?_))
  refine .ite (deleteCall_balanced hd s p next env) (.ite (.pure d _) (.bind (.access hd _) ?_))
  intro queue
  cases queue with
  | none =>
      refine .bind (hsend s _) (fun r => ?_)
      exact .bind (unlinkFree_balanced hd r.1 p) (fun t => .pure d _)
  | some q =>
      refine .bind (vForwardCallToPeripheral_balanced hd s p q env) (fun t => ?_)
      refine .bind (.access hd _) (fun t => .bind (.plain d _) (fun call => .ite ?_ (.pure d _)))
      refine .bind (hsend t _) (fun r => .bind (.ite (.plain d _) (.pure d _)) (fun t => ?_))
      exact .pure d _

theorem respond_balanced (hd : 1 ≤ d) (s : Server) (p : CallPtr) (r : Reply) (env : WorkerEnv)
    (calls : CallPtr → List HandlerCall) : Balanced d (respond P s p r env calls) := by
  have hinvoke : Balanced d (invokeHandler P s p calls) := by
    refine .bind (.plain d _) (fun call => .ite ?_ (.pure d s))
    exact .foldlM (fun t a => handlerCall_balanced (by omega) t p a) (calls p) s
  refine .bind hinvoke (fun t => .bind (.ite ?_ (.pure d t)) (fun t => .bind (.plain d _) ?_))
  · exact .bind (apiCallSendJson_balanced (by omega) t .worker (some p) 0 _ env.reply)
      (fun r => .pure d r.1)
  · exact fun call => .ite (unlinkFree_balanced hd _ p)
      (.bind (.plain d _) (fun t => .access hd _))

/-- How many more times the worker's task holds the mutex at a point of
vWsApiCallWorkerStep than when it started. -/
def heldAt (pc : WorkerPc) : Int := if pc.locked then 1 else 0

theorem workerStep_guarded (hd : 0 ≤ d) (s : Server) (pc : WorkerPc) (env : WorkerEnv)
    (calls : CallPtr → List HandlerCall) : Guarded d (d + heldAt pc) (workerStep P s pc env calls)
      (fun r => d + heldAt r.2) := by
  have hin : 1 ≤ d + 1 := by omega
  have hle : d ≤ d + 1 := by omega
  have hinner : ∀ {α : Type} {x : Locked α}, Balanced (d + 1) x →
      Guarded d (d + 1) x (fun _ => d + 1) := fun hx => Guarded.lower hx hle
  have hstay : ∀ (s : Server) (pc : WorkerPc), heldAt pc = 1 →
      Guarded d (d + 1) (pure (s, pc) : Locked _) (fun r => d + heldAt r.2) :=
    fun s pc hpc => .pure hle (by rw [hpc])
  have hout : ∀ (s : Server) (pc : WorkerPc), heldAt pc = 0 →
      Guarded d d (pure (s, pc) : Locked _) (fun r => d + heldAt r.2) :=
    fun s pc hpc => .pure (Int.le_refl d) (by rw [hpc, Int.add_zero])
  have hgive : ∀ (s : Server) (pc : WorkerPc), heldAt pc = 0 →
      Guarded d (d + 1) (give >>= fun _ => pure (s, pc) : Locked _) (fun r => d + heldAt r.2) :=
    fun s pc hpc => .bind (.give (Int.le_refl d)) (fun _ _ => hout s pc hpc)
  cases hpc : pc.locked with
  | false =>
      have hd : d + heldAt pc = d := by simp [heldAt, hpc]
      rw [hd]
      cases pc with
      | idle | served =>
          refine .bind (.take (Int.le_refl d)) (fun _ _ => ?_)
          exact .bind (hinner (.access hin _)) (fun item _ => hstay s _ rfl)
      | receive =>
          simp only [workerStep]
          split
          · exact hout s _ rfl
          · exact hout _ _ rfl
      | taken r =>
          refine .bind (.take (Int.le_refl d)) (fun _ _ => .ite ?_ ?_)
          · exact .bind (hinner (.access hin _)) (fun it _ => hstay s _ rfl)
          · refine .bind (hinner (.access hin _)) (fun it _ => ?_)
            cases it with
            | none => exact hgive _ _ rfl
            | some p =>
                exact .bind (hinner (respond_balanced hin s p r env calls)) (fun t _ => hgive _ _ rfl)
      | serveCalls | serveWaiting | forward | broadcast => cases hpc
  | true =>
      have hd : d + heldAt pc = d + 1 := by simp [heldAt, hpc]
      rw [hd]
      cases pc with
      | serveCalls item =>
          cases item with
          | none => exact .bind (hinner (.access hin _)) (fun item _ => hstay s _ rfl)
          | some p =>
              refine .bind (hinner (.access hin _)) (fun next _ => ?_)
              exact .bind (hinner (vServeApiCall_balanced hin s p env)) (fun t _ => hstay t _ rfl)
      | serveWaiting item =>
          cases item with
          | none => exact hgive s _ rfl
          | some p =>
              refine .bind (hinner (.access hin _)) (fun next _ => ?_)
              exact .bind (hinner (vServeApiCall_balanced hin s p env)) (fun t _ => hstay t _ rfl)
      | forward item =>
          cases item with
          | none => exact hgive s _ rfl
          | some p =>
              exact .bind (hinner (forwardItem_balanced hin s p env)) (fun r _ => hstay r.1 _ rfl)
      | broadcast r it =>
          cases it with
          | none => exact hgive _ _ rfl
          | some p =>
              refine .bind (hinner (.access hin _)) (fun next _ => ?_)
              exact .bind (hinner (respond_balanced hin s p r env calls)) (fun t _ => hstay t _ rfl)
      | idle | served | receive | taken => cases hpc

theorem workerRun_guarded (hd : 0 ≤ d) (pc : WorkerPc) (turns : List Turn) :
    Guarded d (d + heldAt pc) (workerRun P pc turns) (fun pc => d + heldAt pc) := by
  induction turns generalizing pc with
  | nil =>
      refine .pure ?_ rfl
      unfold heldAt
      split <;> omega
  | cons t ts ih => exact .bind (workerStep_guarded hd t.srv pc t.env t.calls) (fun r _ => ih r.2)

@[simp] theorem heldAt_idle : heldAt .idle = 0 := rfl

theorem workerStep_run_guarded (P : Platform) (d : Nat) (turns : List Turn) :
    Guarded d d (workerRun P .idle turns) (fun pc => d + heldAt pc) := by
  have h := workerRun_guarded (P := P) (Int.natCast_nonneg d) .idle turns
  rwa [heldAt_idle, Int.add_zero] at h

/-- Every public operation is balanced, whatever the server and its inputs are,
and so is a step of the worker. -/
theorem locking_balanced (P : Platform) (d : Nat) :
    (∀ (s : Server) (op : Operation), Balanced d (op.run P s)) ∧
      ∀ turns, Guarded d d (workerRun P .idle turns) (fun pc => d + heldAt pc) :=
  ⟨run_balanced (Int.natCast_nonneg d), workerStep_run_guarded P d⟩

end Balance

section Results

theorem bind_ok {α : Type} (x : Fallible α) : (x >>= fun a => Except.ok a) = x := bind_pure x

theorem vBreakApiCallsByFd_result (s : Server) (fd : Int) (took : Bool) :
    (vBreakApiCallsByFd s fd took).result =
      if took then WsServer.vBreakApiCallsByFd s fd else pure s := by
  cases took <;> simp [vBreakApiCallsByFd, WsServer.vBreakApiCallsByFd, Server.forEach, bind_ok]

theorem vBreakApiCallsByFid_result (s : Server) (fid : UInt32) (took : Bool) :
    (vBreakApiCallsByFid s fid took).result =
      if took then WsServer.vBreakApiCallsByFid s fid else pure s := by
  cases took <;> simp [vBreakApiCallsByFid, WsServer.vBreakApiCallsByFid, Server.forEach, bind_ok]

theorem bApiCallRegister_result (s : Server) (h : Option HandlerId) (fid : UInt32) (ctx : Nat)
    (took alloc : Bool) : (bApiCallRegister s h fid ctx took alloc).result =
      .ok (WsServer.bApiCallRegister s h fid ctx took alloc) := by
  cases h with
  | none => rfl
  | some h => cases took <;> simp [bApiCallRegister, WsServer.bApiCallRegister, apply_ite Except.ok]

theorem bApiCallUnregister_result (s : Server) (fid : UInt32) (took : Bool) :
    (bApiCallUnregister s fid took).result = WsServer.bApiCallUnregister s fid took := by
  cases took <;> simp [bApiCallUnregister, WsServer.bApiCallUnregister, vBreakApiCallsByFid_result]

theorem vApiCallComplete_result (s : Server) (p : CallPtr) :
    (vApiCallComplete s p).result = WsServer.vApiCallComplete s p := by
  have hcompleted : s.modifyCall p completed = s.modifyCall p (fun c =>
      let pending := if c.ulCallPending = 0 then 0 else c.ulCallPending - 1
      { c with ulCallPending := pending, session := if pending = 0 then none else c.session }) := rfl
  rw [WsServer.vApiCallComplete, ← hcompleted]
  simp [vApiCallComplete, bind_ok]

theorem bApiCallGetId_result (s : Server) (px : Option CallPtr) (out : Option UInt32) :
    (bApiCallGetId s px out).result = CallHandles.bApiCallGetId s px out := by
  unfold bApiCallGetId CallHandles.bApiCallGetId
  split <;> simp

theorem sendToGroup_result (src : Source) (fid : UInt32) (b : BufPtr) (sent : CallPtr → Bool)
    (ps : List CallPtr) (s : Server) (res : Bool) :
    (sendToGroup src fid b sent ps s res).result = WsServer.sendToGroup src fid b sent ps s res := by
  induction ps generalizing s res with
  | nil => rfl
  | cons p ps ih => simp [sendToGroup, WsServer.sendToGroup, ih]

theorem apiCallSendJson_result (s : Server) (src : Source) (px : Option CallPtr) (fid : UInt32)
    (arg : Payload) (env : SendEnv) :
    (apiCallSendJson s src px fid arg env).result = WsServer.apiCallSendJson s src px fid arg env := by
  cases px <;> simp [apiCallSendJson, WsServer.apiCallSendJson, sendToGroup_result, bind_ok]

theorem bApiCallSendStatus_result (s : Server) (src : Source) (p : CallPtr) (sta : UInt32)
    (env : SendEnv) :
    (bApiCallSendStatus s src p sta env).result = WsServer.bApiCallSendStatus s src p sta env :=
  apiCallSendJson_result ..

theorem wsServerRegisterFidQueue_result (s : Server) (fid : UInt32) (queue : Option QueueId)
    (took alloc : Bool) : (wsServerRegisterFidQueue s fid queue took alloc).result =
      .ok (WsServer.wsServerRegisterFidQueue s fid queue took alloc) := by
  cases took <;>
    simp [wsServerRegisterFidQueue, WsServer.wsServerRegisterFidQueue, apply_ite Except.ok]

theorem rejectCall_result (s : Server) (p : CallPtr) (sta : UInt32) (env : SendEnv) :
    (rejectCall s p sta env).result = Transport.rejectCall s p sta env := by
  simp [rejectCall, Transport.rejectCall, bApiCallSendStatus_result]

theorem wsServerOnText_result (s : Server) (conn : ConnPtr) (userData : Option SessPtr)
    (data : Option Bytes) (env : TextEnv) :
    (wsServerOnText P s conn userData data env).result =
      Transport.wsServerOnText P s conn userData data env := by
  rcases userData with _ | sess
  · rfl
  rcases data with _ | _ | ⟨b, bs⟩
  · rfl
  · rfl
  unfold wsServerOnText Transport.wsServerOnText
  dsimp only
  rw [ite_result]
  congr 1
  cases P.parse (b :: bs) with
  | none => rfl
  | some json =>
      dsimp only
      rw [ite_result]
      congr 1
      have hreject := fun s p sta => rejectCall_result s p sta env.status
      cases frameNumber json ['F', 'L', 'A', 'G', 'S'] with
      | none => exact hreject _ _ _
      | some flags =>
          cases frameNumber json ['S', 'I', 'D'] with
          | none => exact hreject _ _ _
          | some sid => simp [hreject, bind_ok]

theorem wsServerOnDisconnect_result (s : Server) (conn : ConnPtr) (userData : Option SessPtr) :
    (wsServerOnDisconnect s conn userData).result =
      Transport.wsServerOnDisconnect s conn userData := by
  cases userData <;>
    simp [wsServerOnDisconnect, Transport.wsServerOnDisconnect, vBreakApiCallsByFd_result]

theorem vWsTransferComplete_result (s : Server) (i : Nat) (err took : Bool) :
    (vWsTransferComplete s i err took).map Traced.result =
      WsServer.vWsTransferComplete s i err took := by
  unfold vWsTransferComplete WsServer.vWsTransferComplete
  cases s.net.inflight[i]? with
  | none => rfl
  | some t =>
      cases err <;> cases took <;> simp [vBreakApiCallsByFd_result]

theorem unlinkFree_result (s : Server) (p : CallPtr) :
    (unlinkFree s p).result = (s.unlink p).freeCall p := by
  simp [unlinkFree]

theorem vServeApiCall_result (s : Server) (p : CallPtr) (env : WorkerEnv) :
    (vServeApiCall s p env).result = Worker.vServeApiCall s p env := by
  simp only [vServeApiCall, Worker.vServeApiCall, bind_result, plain_result]
  refine bind_congr fun call => ?_
  cases call.session <;> simp [vApiCallComplete_result, unlinkFree_result]

theorem refuseCall_result (s : Server) (p : CallPtr) (env : WorkerEnv) :
    (refuseCall s p env).result = Worker.refuseCall s p env := by
  simp [refuseCall, Worker.refuseCall, bApiCallSendStatus_result]

theorem deleteMatching_result (fd : Int) (fid id : UInt32) (items : Server → List CallPtr) (n : Nat)
    (s : Server) : (deleteMatching fd fid id items n s).result =
      Worker.deleteMatching fd fid id items n s := by
  induction n generalizing s with
  | zero => rfl
  | succ n ih =>
      simp only [deleteMatching, Worker.deleteMatching, bind_result, access_result]
      refine bind_congr fun found => ?_
      cases found <;> simp [unlinkFree_result, ih]

theorem deleteCall_result (s : Server) (p : CallPtr) (next : Option CallPtr) (env : WorkerEnv) :
    (deleteCall s p next env).result = Worker.deleteCall s p next env := by
  simp [deleteCall, Worker.deleteCall, bApiCallSendStatus_result, deleteMatching_result,
    unlinkFree_result]

theorem vForwardCallToPeripheral_result (s : Server) (p : CallPtr) (q : QueueId) (env : WorkerEnv) :
    (vForwardCallToPeripheral s p q env).result = Worker.vForwardCallToPeripheral s p q env := by
  have hrefuse := refuseCall_result s p env
  simp only [vForwardCallToPeripheral, Worker.vForwardCallToPeripheral, bind_result, plain_result,
    ite_result, pure_result]
  refine bind_congr fun call => ite_congr rfl (fun _ => rfl) (fun _ => ?_)
  refine ite_congr rfl (fun _ => ite_congr rfl (fun _ => ?_) (fun _ => ?_)) (fun _ => ?_)
  · refine ite_congr rfl (fun _ => rfl) (fun _ => ?_)
    generalize queueSend s q _ = sent
    cases sent with
    | none => exact hrefuse
    | some t => rfl
  · generalize queueSend s q _ = sent
    cases sent with
    | none => exact hrefuse
    | some t => rfl
  · generalize queueSend s q _ = sent
    cases sent with
    | none => exact hrefuse
    | some t => rfl

theorem forwardItem_result (s : Server) (p : CallPtr) (env : WorkerEnv) :
    (forwardItem s p env).result = Worker.forwardItem s p env := by
  simp only [forwardItem, Worker.forwardItem, bind_result, access_result, plain_result, ite_result,
    pure_result, deleteCall_result]
  refine bind_congr fun next => bind_congr fun call => ite_congr rfl (fun _ => rfl) (fun _ => ?_)
  refine ite_congr rfl (fun _ => rfl) (fun _ => ?_)
  cases s.wsGetFidQueue call.ulFid with
  | none => simp [bApiCallSendStatus_result, unlinkFree_result]
  | some q =>
      simp only [bind_result, vForwardCallToPeripheral_result, access_result, plain_result, ite_result,
        bApiCallSendStatus_result, pure_result, pure_bind]
      refine bind_congr fun t => bind_congr fun call => ite_congr rfl (fun _ => ?_) (fun _ => rfl)
      refine bind_congr fun r => ?_
      cases r.2 <;> rfl

def asCall (p : CallPtr) : HandlerAction → HandlerCall
  | .sendJson json env => .api (.sendJson .handler p json env)
  | .sendStatus sta env => .api (.sendStatus .handler p sta env)
  | .sendGroup fid json env => .api (.sendGroup .handler fid json env)
  | .setContext ctx => .setContext ctx
  | .complete q => .api (.complete q)
  | .register h fid ctx alloc => .api (.register h fid ctx true alloc)
  | .unregister fid => .api (.unregister fid true)

def asCalls (acts : List HandlerAction) (p : CallPtr) : List HandlerCall := acts.map (asCall p)

theorem asCall_result (s : Server) (p : CallPtr) (act : HandlerAction) :
    ((asCall p act).run P p s).result = handlerAction p s act := by
  cases act with
  | sendJson json env | sendGroup fid json env =>
      simp [asCall, HandlerCall.run, Operation.run, handlerAction, apiCallSendJson_result,
        bApiCallSendJson, bApiCallSendJsonFidGroup]
  | sendStatus sta env =>
      simp [asCall, HandlerCall.run, Operation.run, handlerAction, bApiCallSendStatus_result]
  | setContext ctx => rfl
  | complete q => exact vApiCallComplete_result s q
  | register h fid ctx alloc =>
      simp [asCall, HandlerCall.run, Operation.run, handlerAction, bApiCallRegister_result]
  | unregister fid =>
      simp [asCall, HandlerCall.run, Operation.run, handlerAction, bApiCallUnregister_result]

theorem invokeHandler_result (s : Server) (p : CallPtr) (env : WorkerEnv) :
    (invokeHandler P s p (asCalls env.handler)).result = Worker.invokeHandler s p env := by
  have hfold := foldlM_result (fun t a => asCall_result (P := P) t p a) env.handler s
  simp [invokeHandler, Worker.invokeHandler, asCalls, List.foldlM_map, hfold]

theorem respond_result (s : Server) (p : CallPtr) (r : Reply) (env : WorkerEnv) :
    (respond P s p r env (asCalls env.handler)).result = Worker.respond s p r env := by
  simp only [respond, Worker.respond, bind_result, invokeHandler_result, ite_result]
  refine bind_congr fun t => ?_
  by_cases hlen : r.msg.len = 0 <;> simp [hlen, apiCallSendJson_result, unlinkFree_result]

/-- A micro-step does the same to the server as one that does not tell its
events. -/
theorem workerStep_result (s : Server) (pc : WorkerPc) (env : WorkerEnv) :
    (workerStep P s pc env (asCalls env.handler)).result = Worker.workerStep s pc env := by
  cases pc with
  | idle => rfl
  | served => rfl
  | receive =>
      simp only [workerStep, Worker.workerStep]
      cases s.xWsWorkerQueue <;> rfl
  | serveCalls item | serveWaiting item =>
      cases item with
      | none => rfl
      | some p => simp [workerStep, Worker.workerStep, vServeApiCall_result]
  | forward item =>
      cases item with
      | none => rfl
      | some p => simp [workerStep, Worker.workerStep, forwardItem_result]
  | taken r =>
      simp only [workerStep, Worker.workerStep, bind_result, take_result, ite_result]
      refine ite_congr rfl (fun _ => rfl) (fun _ => bind_congr fun it => ?_)
      cases it <;> simp [respond_result]
  | broadcast r it =>
      cases it with
      | none => rfl
      | some p => simp [workerStep, Worker.workerStep, respond_result]

end Results

section System

variable {x y : System} {as : List Label}

def operationOf (x : System) : Label → Option Operation
  | .disconnect conn => (x.srv.conns conn).map (fun c => .disconnect conn c.userData)
  | .text env => match x.httpd with
    | .text conn data => some (.text conn ((x.srv.conns conn).bind Conn.userData) data env)
    | .idle => none
  | .transferComplete i err took => some (.transferComplete i err took)
  | .complete p => some (.complete p)
  | .sendGroup fid json env => some (.sendGroup .client fid json env)
  | .register h fid ctx took alloc => some (.register h fid ctx took alloc)
  | .unregister fid took => some (.unregister fid took)
  | .registerQueue fid queue took alloc => some (.registerQueue fid queue took alloc)
  | .connect _ _ | .frame _ _ _ _ | .tick _ | .worker _ | .periphTake _ | .periphAnswer _ _
  | .periphPublish _ _ | .periphDrop _ => none

def turnOf (x : System) : Label → Option Turn
  | .worker env => some ⟨x.srv, env, asCalls env.handler⟩
  | _ => none

theorem lift_step {enabled : Bool} {op : Fallible Server} (h : x.lift enabled op = some (.ok y)) :
    op = .ok y.srv := by
  obtain ⟨-, t, ht, rfl⟩ := lift_ok h
  exact ht

/-- The operation of a step returns the server that the step leads to. -/
theorem operation_returns {a : Label} {op : Operation} (h : (machine P).Step x a y)
    (hop : operationOf x a = some op) : (op.run P x.srv).result = .ok y.srv := by
  change step P x a = some (.ok y) at h
  cases a with
  | disconnect conn =>
      cases hc : x.srv.conns conn with
      | none => simp [operationOf, hc] at hop
      | some c =>
          simp only [operationOf, hc, Option.map_some, Option.some.injEq] at hop
          simp only [step, hc] at h
          subst hop
          rw [Operation.run, wsServerOnDisconnect_result]
          exact lift_step h
  | text env =>
      cases hx : x.httpd with
      | idle => simp [operationOf, hx] at hop
      | text conn data =>
          simp only [operationOf, hx, Option.some.injEq] at hop
          simp only [step, hx] at h
          subst hop
          rw [Operation.run, wsServerOnText_result]
          exact lift_step h
  | transferComplete i err took =>
      cases hop
      have hres := vWsTransferComplete_result x.srv i err took
      simp only [step] at h
      cases hw : WsServer.vWsTransferComplete x.srv i err took with
      | none => simp [hw] at h
      | some o =>
          rw [hw] at h hres
          obtain ⟨z, hz, rfl⟩ := Option.map_eq_some_iff.1 hres
          rw [Operation.run, hz]
          exact lift_step h
  | complete p =>
      cases hop
      rw [Operation.run, vApiCallComplete_result]
      exact lift_step h
  | sendGroup fid json env =>
      cases hop
      obtain ⟨r, hr, hy⟩ := map_eq_ok (lift_step h)
      rw [bApiCallSendJsonFidGroup] at hr
      simp [Operation.run, apiCallSendJson_result, hr, hy]
  | register h' fid ctx took alloc =>
      cases hop
      simp [Operation.run, bApiCallRegister_result, Except.ok.inj (lift_step h)]
  | unregister fid took =>
      cases hop
      obtain ⟨r, hr, hy⟩ := map_eq_ok (lift_step h)
      simp [Operation.run, bApiCallUnregister_result, hr, hy]
  | registerQueue fid queue took alloc =>
      cases hop
      simp [Operation.run, wsServerRegisterFidQueue_result, Except.ok.inj (lift_step h)]
  | connect | frame | tick | worker | periphTake | periphAnswer | periphPublish | periphDrop =>
      cases hop

theorem workerRun_append (pc : WorkerPc) (ts us : List Turn) : (workerRun P pc (ts ++ us)).result =
    (workerRun P pc ts).result >>= fun pc => (workerRun P pc us).result := by
  induction ts generalizing pc with
  | nil => rfl
  | cons t ts ih => simp [workerRun, ih]

theorem workerRun_returns (hr : Reachable (machine P) x) (h : Run (machine P) x as y) :
    (workerRun P x.worker ((machine P).trail turnOf x as)).result = .ok y.worker := by
  induction h with
  | start => rfl
  | @step as t a u run hstep _ ih =>
      rw [run.trail_snoc, workerRun_append, ih, ok_bind]
      rcases worker_or_other a with ⟨env, rfl⟩ | ha
      · obtain ⟨r, hw, rfl⟩ := map_eq_ok (Option.some.inj hstep)
        simp [turnOf, workerRun, workerStep_result, hw]
      · have hturn : turnOf t a = none := by
          cases a with
          | worker env => exact absurd rfl (ha env)
          | _ => rfl
        obtain ⟨hpc, -⟩ := (step_beside (reachable_inv (run.reachable hr)) ha
          (allows_anything P t a) hstep).eq_ok rfl
        rw [hturn, hpc]
        rfl

/-- After any run the worker's task holds the mutex as often as its place in
the step says, on top of how often it did when the step began. -/
theorem worker_depth (hr : Reachable (machine P) x) (h : Run (machine P) x as y)
    (hx : x.worker = .idle) (d : Nat) :
    depth d (workerRun P .idle ((machine P).trail turnOf x as)).log = d + heldAt y.worker := by
  have hret := workerRun_returns hr h
  rw [hx] at hret
  exact (workerStep_run_guarded P d _).returns _ hret

end System

end WirelessGateway.Locking
