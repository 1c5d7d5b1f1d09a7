import Mathlib.Logic.Function.Basic
import WirelessGateway.Lib.Linked
import WirelessGateway.Types

namespace WirelessGateway.Memory

open CJson WirelessGateway.Types Lib.Linked

/-- The transport's side of the sends: the shared reply buffers and the
accepted sends whose completion is outstanding. -/
structure Net where
  bufs : BufPtr → Option ApiData
  inflight : List Transfer
  nextBuf : BufPtr

/-- The globals of ws_server.c with the heap objects they point to, the
transport, the queues, and the history. Addresses are never reused. The
message that the worker is handling is ghost state. -/
structure Server where
  tick : UInt32
  conns : ConnPtr → Option Conn
  sessions : SessPtr → Option ApiSession
  calls : CallPtr → Option ApiCall
  pxWsApiHandlers : List ApiHandlerItem
  pxWsFidQueues : List FidQueueItem
  pxWsApiCall : List CallPtr
  pxWsApiWaitingForResponse : List CallPtr
  xWsWorkerQueue : List Reply
  handling : Option Reply
  periph : QueueId → Periph
  net : Net
  nextConn : ConnPtr
  nextSess : SessPtr
  nextCall : CallPtr
  nextReply : Nat
  trace : List Event

inductive Fault
  | freedCall (p : CallPtr)
  | nullSession
  | freedSession (q : SessPtr)
  | freedBuffer (b : BufPtr)
  | unlinkedItem (p : CallPtr)

abbrev Fallible := Except Fault

def workerQueueDepth : Nat := 10

def Server.call (s : Server) (p : CallPtr) : Fallible ApiCall :=
  match s.calls p with
  | some c => .ok c
  | none => .error (.freedCall p)

def Server.session (s : Server) : Option SessPtr → Fallible ApiSession
  | none => .error .nullSession
  | some q => match s.sessions q with
    | some x => .ok x
    | none => .error (.freedSession q)

def Net.buf (n : Net) (b : BufPtr) : Fallible ApiData :=
  match n.bufs b with
  | some d => .ok d
  | none => .error (.freedBuffer b)

def Server.log (s : Server) (e : Event) : Server := { s with trace := s.trace ++ [e] }

def Server.setCall (s : Server) (p : CallPtr) (c : ApiCall) : Server :=
  { s with calls := Function.update s.calls p (some c) }

def Server.modifyCall (s : Server) (p : CallPtr) (f : ApiCall → ApiCall) : Fallible Server := do
  let c ← s.call p
  pure (s.setCall p (f c))

def Server.withNet (s : Server) (n : Net) : Server := { s with net := n }

def Server.passTicks (s : Server) (d : UInt32) : Server := { s with tick := s.tick + d }

def Server.setSession (s : Server) (q : SessPtr) (x : ApiSession) : Server :=
  { s with sessions := Function.update s.sessions q (some x) }

def Server.setPeriph (s : Server) (q : QueueId) (d : Periph) : Server :=
  { s with periph := Function.update s.periph q d }

def Server.unlink (s : Server) (p : CallPtr) : Server :=
  { s with
    pxWsApiCall := s.pxWsApiCall.erase p
    pxWsApiWaitingForResponse := s.pxWsApiWaitingForResponse.erase p }

/-- vLinkedListInsertLast into pxWsApiCall: unlinks the item and appends it. -/
def Server.toCalls (s : Server) (p : CallPtr) : Server :=
  { s.unlink p with pxWsApiCall := s.pxWsApiCall.erase p ++ [p] }

def Server.toWaiting (s : Server) (p : CallPtr) : Server :=
  { s.unlink p with
    pxWsApiWaitingForResponse := s.pxWsApiWaitingForResponse.erase p ++ [p] }

def Server.receive (s : Server) (r : Reply) (rs : List Reply) : Server :=
  { s with xWsWorkerQueue := rs, handling := some r }

def Server.handled (s : Server) (r : Reply) : Server :=
  { s with handling := none }.log (.handled r)

def Server.freeCall (s : Server) (p : CallPtr) : Fallible Server := do
  let _ ← s.call p
  pure ({ s with calls := Function.update s.calls p none }.log (.free p))

def anyItem (s : Server) (p : CallPtr) : Fallible Bool := do
  let _ ← s.call p
  pure true

/-- pxLinkedListFindNextNoOverlap. The links are part of the call, and an item
in neither list has no successor to read. -/
def Server.findNext (s : Server) (item : CallPtr) (found : Server → CallPtr → Fallible Bool) :
    Fallible (Option CallPtr) := do
  let _ ← s.call item
  if item ∈ s.pxWsApiCall then findFirst (found s) (after item s.pxWsApiCall)
  else if item ∈ s.pxWsApiWaitingForResponse then
    findFirst (found s) (after item s.pxWsApiWaitingForResponse)
  else .error (.unlinkedItem item)

def Server.forEach (s : Server) (act : Server → CallPtr → Fallible Server) : Fallible Server := do
  let s ← s.pxWsApiCall.foldlM act s
  s.pxWsApiWaitingForResponse.foldlM act s

/-- The countdown that both _send_to_session and vWsTransferComplete_cb run. -/
def Net.release (n : Net) (b : BufPtr) : Fallible Net := do
  let d ← n.buf b
  if d.counter = 0 ∨ d.counter - 1 = 0 then
    pure { n with bufs := Function.update n.bufs b none }
  else
    pure { n with bufs := Function.update n.bufs b (some { d with counter := d.counter - 1 }) }

def Server.allocData (s : Server) (targets : Nat) (fid sid : UInt32) (arg : Payload) : Server :=
  { s with net :=
    { s.net with
      bufs := Function.update s.net.bufs s.net.nextBuf (some ⟨targets, fid, sid, arg⟩)
      nextBuf := s.net.nextBuf + 1 } }

def Server.allocCall (s : Server) (c : ApiCall) : Server :=
  { s with calls := Function.update s.calls s.nextCall (some c), nextCall := s.nextCall + 1 }

def Server.closeConn (s : Server) (conn : ConnPtr) : Server :=
  { s with conns := Function.update s.conns conn none }.log (.disconnect conn)

def Server.findHandler (s : Server) (fid : UInt32) : Option ApiHandlerItem :=
  s.pxWsApiHandlers.find? (fun h => h.ulFid == fid)

def Server.wsGetFidQueue (s : Server) (fid : UInt32) : Option QueueId :=
  (s.pxWsFidQueues.find? (fun f => f.ulFid == fid)).bind FidQueueItem.xQueue

end WirelessGateway.Memory
