import WirelessGateway.WsServer

namespace WirelessGateway.Transport

open CJson WirelessGateway.Types Memory WsServer

def wsServerOnConnect (s : Server) (fd : Int) (alloc : Bool) : Server :=
  let conn := s.nextConn
  if alloc then
    let sess := s.nextSess
    { s with
      conns := Function.update s.conns conn (some ⟨fd, some sess⟩)
      sessions := Function.update s.sessions sess (some ⟨conn, fd, s.tick, s.tick⟩)
      nextConn := conn + 1
      nextSess := sess + 1 }.log (.connect conn (some sess))
  else
    { s with
      conns := Function.update s.conns conn (some ⟨fd, none⟩)
      nextConn := conn + 1 }.log (.connect conn none)

def wsServerOnDisconnect (s : Server) (conn : ConnPtr) (userData : Option SessPtr) :
    Fallible Server :=
  match userData with
  | none => pure (s.closeConn conn)
  | some q => do
    let sess ← s.session (some q)
    let s ← vBreakApiCallsByFd s sess.fd
    pure ({ s with sessions := Function.update s.sessions q none }.closeConn conn)

def touchSession (s : Server) (userData : Option SessPtr) : Fallible Server :=
  match userData with
  | none => pure s
  | some q => do
    let sess ← s.session (some q)
    pure (s.setSession q { sess with ulAliveTs := s.tick })

def wsServerOnControl (s : Server) (conn : ConnPtr) (type : FrameType) (sent : Bool) : Server :=
  match type with
  | .ping => s.log (.control conn .pong sent)
  | .close => s.log (.control conn .close sent)
  | _ => s

structure TextEnv where
  callAlloc : Bool
  printAlloc : Bool
  status : SendEnv

/-- FID as a number or as a hex string, else the 0 of the cleared call. -/
def frameFid (json : Json) : UInt32 := (json.parseInt ['F', 'I', 'D']).getD 0

def frameArg (P : Platform) (printAlloc : Bool) (json : Json) : Option Bytes :=
  (json.getObjectItem ['A', 'R', 'G']).bind (fun arg =>
    if printAlloc then some (P.print arg) else none)

def framePollInterval (P : Platform) (json : Json) : UInt32 :=
  match (json.getObjectItem ['A', 'R', 'G']).bind (fun arg => arg.getObjectItem ['R', 'D', 'L']) with
  | some (.number i _) => if i > 0 then P.msToTicks i.toUInt32 else 0
  | _ => 0

def frameNumber (json : Json) (name : List Char) : Option UInt32 :=
  match json.getObjectItem name with
  | some (.number i _) => some i.toUInt32
  | _ => none

/-- The call as ws_server_on_text has filled it in before it looks at SID. -/
def textCall (P : Platform) (printAlloc : Bool) (json : Json) (sess : SessPtr) : ApiCall where
  session := some sess
  pucReqData := frameArg P printAlloc json
  ulReqDataLen := ((frameArg P printAlloc json).map List.length).getD 0
  ulId := 0
  pxHandlerContext := 0
  fHandler := none
  ulFid := frameFid json
  ulCallPending := 1
  flags := callFlagNew ||| (frameNumber json ['F', 'L', 'A', 'G', 'S']).getD 0
  ulPollIntervalTicks := framePollInterval P json
  ulNextPollTick := 0

def textAccepts (P : Platform) (s : Server) (userData : Option SessPtr) (data : Option Bytes)
    (env : TextEnv) : Option Json :=
  match userData, data with
  | some _, some (b :: bs) => (P.parse (b :: bs)).filter (fun json =>
      env.callAlloc && frameFid json != apiHandlerIdGeneral &&
        (frameNumber json ['F', 'L', 'A', 'G', 'S']).isSome &&
        (frameNumber json ['S', 'I', 'D']).isSome &&
        ((s.findHandler (frameFid json)).isSome || (s.wsGetFidQueue (frameFid json)).isSome))
  | _, _ => none

def rejectCall (s : Server) (p : CallPtr) (sta : UInt32) (env : SendEnv) : Fallible Server := do
  let (s, _) ← bApiCallSendStatus s .httpd p sta env
  s.freeCall p

def wsServerOnText (P : Platform) (s : Server) (conn : ConnPtr) (userData : Option SessPtr)
    (data : Option Bytes) (env : TextEnv) : Fallible Server :=
  match userData, data with
  | some sess, some (b :: bs) =>
    if !env.callAlloc then pure s
    else match P.parse (b :: bs) with
    | none => pure s
    | some json =>
      if frameFid json = apiHandlerIdGeneral then pure s
      else
        let wscd := textCall P env.printAlloc json sess
        let p := s.nextCall
        match frameNumber json ['F', 'L', 'A', 'G', 'S'], frameNumber json ['S', 'I', 'D'] with
        | some _, some sid =>
          let wscd := { wscd with ulId := sid &&& 0xffff }
          let hlr := s.findHandler wscd.ulFid
          if hlr.isNone && (s.wsGetFidQueue wscd.ulFid).isNone then
            rejectCall (s.allocCall wscd) p apiCallErrorStatusNoHandler env.status
          else
            let wscd := { wscd with
              fHandler := hlr.map ApiHandlerItem.fHandler
              pxHandlerContext := (hlr.map ApiHandlerItem.xHandlerContext).getD 0 }
            pure (((s.allocCall wscd).toCalls p).log (.accept p conn json wscd))
        | _, _ =>
          rejectCall (s.allocCall wscd) p apiCallErrorStatusBadReq env.status
  | _, _ => pure s

end WirelessGateway.Transport
