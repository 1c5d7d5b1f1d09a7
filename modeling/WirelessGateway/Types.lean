import WirelessGateway.CJson

namespace WirelessGateway.Types

open CJson

abbrev CallPtr := Nat
abbrev SessPtr := Nat
abbrev ConnPtr := Nat
abbrev BufPtr := Nat
abbrev QueueId := Nat
abbrev HandlerId := Nat

def callFlagNew : UInt32 := 1
def callFlagLongTerm : UInt32 := 4
def callFlagToDelete : UInt32 := 8

def apiHandlerIdGeneral : UInt32 := 0

def apiCallStatusBusy : UInt32 := 0x00000003
def apiCallStatusInvalid : UInt32 := 0x00000004
def apiCallStatusDelivered : UInt32 := 0x00000005
def apiCallErrorStatusBadReq : UInt32 := 0x80000000
def apiCallErrorStatusNoHandler : UInt32 := 0x8000000E

def configWebSocketPingDelay : UInt32 := 1000

structure WebapiMsg where
  fid : UInt32
  id : UInt32
  data : Option Bytes
  len : Nat

/-- A message for a peripheral. The call it was forwarded for is ghost state:
the source keeps only the id. -/
structure Request where
  msg : WebapiMsg
  call : CallPtr

/-- A message for the worker. The call whose request the peripheral was busy
with, whether it was published for all subscribers rather than answered, and
the serial number are ghost state. -/
structure Reply where
  msg : WebapiMsg
  call : CallPtr
  published : Bool
  serial : Nat

/-- The ARG text of a frame: a status text, JSON of a handler or of an API
client, or the data of a peripheral's reply. -/
inductive Payload
  | status (sta : UInt32)
  | json (data : Bytes)
  | reply (r : Reply)

inductive FrameType
  | cont | text | binary | close | ping | pong
  deriving DecidableEq

structure ApiSession where
  conn : ConnPtr
  fd : Int
  ulAliveTs : UInt32
  ulPingTs : UInt32

structure ApiCall where
  session : Option SessPtr
  pucReqData : Option Bytes
  ulReqDataLen : Nat
  ulId : UInt32
  pxHandlerContext : Nat
  fHandler : Option HandlerId
  ulFid : UInt32
  ulCallPending : UInt32
  flags : UInt32
  ulPollIntervalTicks : UInt32
  ulNextPollTick : UInt32

def ApiCall.isNew (c : ApiCall) : Bool := c.flags &&& callFlagNew != 0
def ApiCall.longTerm (c : ApiCall) : Bool := c.flags &&& callFlagLongTerm != 0
def ApiCall.toDelete (c : ApiCall) : Bool := c.flags &&& callFlagToDelete != 0

def ApiCall.clearNew (c : ApiCall) : ApiCall := { c with flags := c.flags &&& ~~~callFlagNew }
def ApiCall.dropSession (c : ApiCall) : ApiCall := { c with session := none }
def ApiCall.dropReqData (c : ApiCall) : ApiCall := { c with pucReqData := none }
def ApiCall.setNextPoll (c : ApiCall) (t : UInt32) : ApiCall := { c with ulNextPollTick := t }

@[simp] theorem clearNew_isNew (c : ApiCall) : c.clearNew.isNew = false := by
  simp [ApiCall.isNew, ApiCall.clearNew, callFlagNew, UInt32.and_assoc]

@[simp] theorem clearNew_longTerm (c : ApiCall) : c.clearNew.longTerm = c.longTerm := by
  simp only [ApiCall.longTerm, ApiCall.clearNew, callFlagNew, callFlagLongTerm, UInt32.and_assoc]
  rfl

@[simp] theorem clearNew_toDelete (c : ApiCall) : c.clearNew.toDelete = c.toDelete := by
  simp only [ApiCall.toDelete, ApiCall.clearNew, callFlagNew, callFlagToDelete, UInt32.and_assoc]
  rfl

structure ApiHandlerItem where
  fHandler : HandlerId
  ulFid : UInt32
  xHandlerContext : Nat

structure FidQueueItem where
  ulFid : UInt32
  xQueue : Option QueueId

/-- ApiData_t: the countdown of the targets that still use the buffer, and the
frame, whose payload is the envelope of FID and SID around the ARG text. -/
structure ApiData where
  counter : Nat
  fid : UInt32
  sid : UInt32
  arg : Payload

structure Conn where
  fd : Int
  userData : Option SessPtr

structure Transfer where
  sess : SessPtr
  fd : Int
  buf : BufPtr

/-- A peripheral's queue with its depth, the request its task is busy with,
and, as ghost state, the requests it has dealt with but never answered. -/
structure Periph where
  depth : Nat
  queue : List Request
  busy : Option Request
  unanswered : List Request

inductive Source
  | httpd | worker | handler | client
  deriving DecidableEq

inductive Event
  | connect (conn : ConnPtr) (sess : Option SessPtr)
  | disconnect (conn : ConnPtr)
  | accept (call : CallPtr) (conn : ConnPtr) (json : Json) (c : ApiCall)
  | queue (src : Source) (call : CallPtr) (conn : ConnPtr) (fid sid : UInt32) (arg : Payload)
      (sent : Bool)
  | control (conn : ConnPtr) (type : FrameType) (sent : Bool)
  | forward (call : CallPtr) (q : QueueId) (msg : WebapiMsg)
  | refuse (call : CallPtr)
  | stall (call : CallPtr)
  | respond (call : CallPtr) (r : Reply)
  | handled (r : Reply)
  | free (call : CallPtr)

end WirelessGateway.Types
