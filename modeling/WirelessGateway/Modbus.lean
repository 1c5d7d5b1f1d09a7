import WirelessGateway.Lib.Text
import WirelessGateway.Types

namespace WirelessGateway.Modbus

open CJson WirelessGateway.Types Lib.Text

def mbPayloadSize : Nat := 255
def mbDefaultAwtMs : UInt32 := 500

/-- modbus_frame_t. A NULL pucData is none. -/
structure ModbusFrame where
  ucAddr : UInt8
  ucFunc : UInt8
  usRegAddr : UInt16
  usRegValueCount : UInt16
  ucLengthCode : UInt8
  ucBufferSize : UInt8
  pucData : Option Bytes

def ModbusFrame.zero : ModbusFrame := ⟨0, 0, 0, 0, 0, 0, none⟩

structure FrameData where
  regs : Option Bytes
  code : UInt8
  amount : UInt8
  size : UInt8

/-- The Modbus library as far as apih_modbus.c reads frames with it. -/
structure ModbusLib where
  mbFuncWriteCoils : UInt8
  modbusErrorFlag : UInt8
  isErrorFrame : ModbusFrame → Bool
  frameData : ModbusFrame → FrameData

structure MbCbCtx where
  frame : ModbusFrame
  data : Bytes
  done : Bool

def MbCbCtx.zero : MbCbCtx := ⟨.zero, List.replicate mbPayloadSize 0, false⟩

def mbOnComplete (cb : MbCbCtx) (frame : Option ModbusFrame) : MbCbCtx :=
  match frame with
  | some f => match f.pucData with
    | some bs =>
      if f.ucBufferSize > 0 then
        let sz := min f.ucBufferSize.toNat mbPayloadSize
        let data := bs.take sz ++ cb.data.drop sz
        ⟨{ f with pucData := some data }, data, true⟩
      else ⟨{ f with pucData := none }, cb.data, true⟩
    | none => ⟨{ f with pucData := none }, cb.data, true⟩
  | none => ⟨.zero, cb.data, true⟩

inductive MbCall
  | init (rxTimeout txTimeout : UInt16)
  | request (frame : ModbusFrame)
  | work
  | cancel (tid : UInt32)

/-- The port's rx_locked, the library calls with what rx_locked was during
them, and the messages given to queue_send with its results. -/
structure MbTask where
  rxLocked : Bool
  calls : List (MbCall × Bool)
  replies : List (WebapiMsg × Bool)

def MbTask.call (w : MbTask) (c : MbCall) : MbTask := { w with calls := w.calls ++ [(c, w.rxLocked)] }
def MbTask.gwUartLockRx (w : MbTask) : MbTask := { w with rxLocked := true }
def MbTask.gwUartUnlockRx (w : MbTask) : MbTask := { w with rxLocked := false }
def MbTask.queueSend (w : MbTask) (msg : WebapiMsg) (room : Bool) : MbTask :=
  { w with replies := w.replies ++ [(msg, room)] }

/-- A turn of the waiting loop: the tick at which its condition is tested and
the completion that modbus_work reports in it. -/
structure MbRound where
  tick : UInt32
  completion : Option (Option ModbusFrame)

/-- The environment of one run of handle_modbus_msg: the result of
modbus_request and a completion that it reports itself, the clock, the turns
of the loop, the allocations and the room in the worker's queue. -/
structure MbEnv where
  tid : UInt32
  early : Option (Option ModbusFrame)
  tick : UInt32
  rounds : List MbRound
  bufAlloc : Bool
  msgAlloc : Bool
  room : Bool

def mbMsg (id fid : UInt32) (text : List Char) (alloc : Bool) : WebapiMsg :=
  if text.length > 0 && alloc then ⟨fid, id, some (bytes text), text.length⟩ else ⟨fid, id, none, 0⟩

def MbTask.sendMbMsg (w : MbTask) (id fid : UInt32) (text : List Char) (env : MbEnv) : MbTask :=
  w.queueSend (mbMsg id fid text env.msgAlloc) env.room

def key (name : List Char) : List Char := '"' :: name ++ ['"', ':']

def errorText (code : Nat) : List Char :=
  '\x7b' :: key ['E', 'R', 'R'] ++ decimal code ++ ['\x7d']

def MbTask.sendMbError (w : MbTask) (id fid : UInt32) (code : Nat) (env : MbEnv) : MbTask :=
  w.sendMbMsg id fid (errorText code) env

structure MbBuf where
  size : Nat
  buf : List Char
  off : Nat

/-- off += snprintf(buf + off, size - off, ..), which drops what does not fit
and returns the length that the whole text has. -/
def MbBuf.print (b : MbBuf) (text : List Char) : MbBuf :=
  { b with buf := b.buf.take b.off ++ text.take (b.size - b.off - 1), off := b.off + text.length }

def MbBuf.put (b : MbBuf) (c : Char) : MbBuf :=
  { b with buf := b.buf.take b.off ++ [c], off := b.off + 1 }

def regValue (regs : Bytes) (size : UInt8) (i : Nat) : Nat :=
  if size = 2 then (regs.getD (i * 2) 0).toNat + 256 * (regs.getD (i * 2 + 1) 0).toNat
  else (regs.getD i 0).toNat

def putReg (regs : Bytes) (size : UInt8) (b : MbBuf) (i : Nat) : MbBuf :=
  let b := if i > 0 && b.off < b.size - 1 then b.put ',' else b
  b.print (decimal (regValue regs size i))

def responseHeader (adr fn code ra amount isErr : Nat) : List Char :=
  '\x7b' :: key ['A', 'D', 'R'] ++ decimal adr ++
    ',' :: key ['F', 'N'] ++ decimal fn ++
    ',' :: key ['C', 'V'] ++ decimal code ++
    ',' :: key ['R', 'A'] ++ decimal ra ++
    ',' :: key ['R', 'C'] ++ decimal amount ++
    ',' :: key ['E', 'R', 'R'] ++ decimal isErr ++
    ',' :: key ['R', 'D'] ++ ['[']

def formatMbResponse (lib : ModbusLib) (f : ModbusFrame) : MbBuf :=
  let d := lib.frameData f
  let isErr := (lib.isErrorFrame f).toNat
  let b : MbBuf := ⟨96 + 9 * d.amount.toNat, [], 0⟩
  let b := b.print (responseHeader f.ucAddr.toNat (f.ucFunc &&& ~~~lib.modbusErrorFlag).toNat
    d.code.toNat f.usRegAddr.toNat d.amount.toNat isErr)
  let b := match d.regs with
    | some regs =>
      if isErr = 0 then (List.range d.amount.toNat).foldl (putReg regs d.size) b else b
    | none => b
  if b.off < b.size - 2 then (b.put ']').put '\x7d' else b

def MbTask.formatAndSendMbResponse (w : MbTask) (lib : ModbusLib) (id fid : UInt32) (cb : MbCbCtx)
    (env : MbEnv) : MbTask :=
  if !env.bufAlloc then w.sendMbError id fid 1 env
  else
    let b := formatMbResponse lib cb.frame
    w.sendMbMsg id fid (b.buf.take b.off) env

def wrItem (stride : Nat) (elem : Json) : Bytes :=
  let v := elem.valueint.toUInt32
  if stride = 2 then [(v >>> 8).toUInt8, v.toUInt8] else [v.toUInt8]

/-- The frame and AWT that a request asks for, none where parse_ok stays 0. -/
def parseMbRequest (lib : ModbusLib) (json : Json) : Option (ModbusFrame × UInt32) := do
  let adr ← (json.parseInt ['A', 'D', 'R']).filter (fun val => !(val > 255))
  let fn ← (json.parseInt ['F', 'N']).filter (fun val => !(val > 127))
  let frame : ModbusFrame := { ModbusFrame.zero with
    ucAddr := adr.toUInt8
    ucFunc := fn.toUInt8
    usRegAddr := ((json.parseInt ['R', 'A']).map UInt32.toUInt16).getD 0
    usRegValueCount := ((json.parseInt ['R', 'V', 'C']).map UInt32.toUInt16).getD 0 }
  let awtMs := ((json.parseInt ['A', 'W', 'T']).filter (fun val => val > 0)).getD mbDefaultAwtMs
  match json.getObjectItem ['R', 'D'] with
  | some (.array rd) =>
    let n := rd.length
    if n > 0 then
      let stride := if frame.ucFunc = lib.mbFuncWriteCoils then 1 else 2
      if n * stride > mbPayloadSize then none
      else
        let wrBuf := rd.flatMap (wrItem stride) ++ List.replicate (mbPayloadSize - n * stride) 0
        some ({ frame with
          ucBufferSize := (n * stride).toUInt8
          ucLengthCode := (n * stride).toUInt8
          pucData := some wrBuf }, awtMs)
    else some (frame, awtMs)
  | _ => some (frame, awtMs)

def beforeDeadline (deadline tick : UInt32) : Bool := (tick - deadline).toInt32 < 0

/-- The loop that works until the request is done or its time is over. It is
still going on when there are no more turns. -/
def awaitDone (deadline : UInt32) : List MbRound → MbTask → MbCbCtx → Option (MbTask × MbCbCtx)
  | [], w, cb => if cb.done then some (w, cb) else none
  | r :: rs, w, cb =>
    if !cb.done && beforeDeadline deadline r.tick then
      awaitDone deadline rs (w.call .work) (r.completion.elim cb (mbOnComplete cb))
    else some (w, cb)

def transact (lib : ModbusLib) (P : Platform) (w : MbTask) (msg : WebapiMsg) (frame : ModbusFrame)
    (awtMs : UInt32) (env : MbEnv) : Option MbTask :=
  let w := w.gwUartLockRx
  let w := w.call (.init awtMs.toUInt16 awtMs.toUInt16)
  let w := w.call (.request frame)
  let cb := env.early.elim .zero (mbOnComplete .zero)
  if env.tid = 0 then some (w.gwUartUnlockRx.sendMbError msg.id msg.fid 3 env)
  else
    let deadline := env.tick + P.msToTicks (awtMs + 500)
    match awaitDone deadline env.rounds w cb with
    | none => none
    | some (w, cb) =>
      if !cb.done then
        some ((w.call (.cancel env.tid)).gwUartUnlockRx.sendMbError msg.id msg.fid 4 env)
      else some (w.gwUartUnlockRx.formatAndSendMbResponse lib msg.id msg.fid cb env)

def mbJson (P : Platform) (msg : WebapiMsg) : Option Json :=
  match msg.data with
  | none => none
  | some data => if msg.len = 0 then none else P.parse (data.take msg.len)

/-- handle_modbus_msg, none while it still waits. -/
def handleModbusMsg (lib : ModbusLib) (P : Platform) (w : MbTask) (msg : WebapiMsg) (env : MbEnv) :
    Option MbTask :=
  match mbJson P msg with
  | none => some (w.sendMbError msg.id msg.fid 2 env)
  | some json => match parseMbRequest lib json with
    | none => some (w.sendMbError msg.id msg.fid 2 env)
    | some (frame, awtMs) => transact lib P w msg frame awtMs env

def wsModbusTask (lib : ModbusLib) (P : Platform) :
    List (WebapiMsg × MbEnv) → Bool → Option (List MbTask)
  | [], _ => some []
  | (msg, env) :: jobs, rxLocked => do
    let w ← handleModbusMsg lib P ⟨rxLocked, [], []⟩ msg env
    let ws ← wsModbusTask lib P jobs w.rxLocked
    some (w :: ws)

end WirelessGateway.Modbus
