import WirelessGateway.WebFiles

namespace WirelessGateway.Tftp

open CJson
open WebFiles (Disk)

def tftpMaxPayloadSize : Nat := 512
def tftpHeaderLength : Nat := 4
def tftpMaxFilenameLen : Nat := 20
def tftpMaxModeLen : Nat := 10
def tftpMaxRetries : Nat := 5

def tftpTimeout : Nat := 10000 / 1000

def tftpRrq : UInt16 := 1
def tftpWrq : UInt16 := 2
def tftpData : UInt16 := 3
def tftpAck : UInt16 := 4
def tftpErrorOp : UInt16 := 5

inductive TftpError
  | fileNotFound
  | accessViolation
  | diskFull
  | illegalOperation
  | unknownTrfrId
  | fileExists
  | noSuchUser
  deriving DecidableEq

def TftpError.code : TftpError → UInt16
  | .fileNotFound => 1
  | .accessViolation => 2
  | .diskFull => 3
  | .illegalOperation => 4
  | .unknownTrfrId => 5
  | .fileExists => 6
  | .noSuchUser => 7

abbrev IpAddr := Nat

structure Host where
  addr : IpAddr
  port : UInt16
  deriving DecidableEq

/-- A received datagram, and the memory behind it. -/
structure Datagram where
  data : Bytes
  behind : Bytes

structure FileHandle where
  path : Bytes
  pos : Nat
  deriving DecidableEq

/-- struct tftp_state, the timeouts that are armed for tftp_tmr, and the files. -/
structure TftpState where
  handle : Option FileHandle
  lastData : Option Bytes
  addr : IpAddr
  port : UInt16
  timer : Nat
  lastPkt : Nat
  blknum : UInt16
  retries : Nat
  modeWrite : Bool
  timeouts : Nat
  disk : Disk

def TftpState.peer (s : TftpState) : Host := ⟨s.addr, s.port⟩

/-- What the calls of one activation give: fopen, the allocation of a data
packet, the sending of a packet, and how many bytes fread and fwrite manage. -/
structure Env where
  opens : Bool
  allocs : Bool
  sends : Bool
  reads : Nat
  writes : Nat

inductive Fault
  | filename
  | mode
  | lastData
  | handle
  deriving DecidableEq

abbrev Outcome := Except Fault (TftpState × Option Bytes)

def htons (w : UInt16) : Bytes := [UInt8.ofNat (w.toNat / 256), UInt8.ofNat w.toNat]

def word (mem : Bytes) (i : Nat) : UInt16 :=
  UInt16.ofNat ((mem.getD (2 * i) 0).toNat * 256 + (mem.getD (2 * i + 1) 0).toNat)

def Datagram.word (d : Datagram) (i : Nat) : UInt16 := Tftp.word (d.data ++ d.behind) i

def initPacket (opcode extra : UInt16) : Bytes := htons opcode ++ htons extra

def Env.send (env : Env) (p : Bytes) : Option Bytes := if env.sends then some p else none

def errorPacket (code : TftpError) (str : String) : Bytes :=
  initPacket tftpErrorOp code.code ++ bytes str.toList ++ [0]

def sendError (env : Env) (code : TftpError) (str : String) : Option Bytes :=
  env.send (errorPacket code str)

def sendAck (env : Env) (blknum : UInt16) : Option Bytes := env.send (initPacket tftpAck blknum)

def openRead (disk : Disk) (path : Bytes) : Disk := { disk with handles := path :: disk.handles }

/-- tftp_open. A directory is not opened, and only a file that exists is read. -/
def tftpOpen (disk : Disk) (path : Bytes) (isWrite : Bool) (env : Env) :
    Option (FileHandle × Disk) :=
  if !env.opens then none
  else match disk.node path with
    | some (.dir _) => none
    | some (.file _) => some (⟨path, 0⟩, if isWrite then disk.create path else openRead disk path)
    | none => if isWrite then some (⟨path, 0⟩, disk.create path) else none

def fread (disk : Disk) (h : FileHandle) (size : Nat) (env : Env) : Bytes :=
  (((disk.read h.path).getD []).drop h.pos).take (min size env.reads)

def closeHandle (s : TftpState) : TftpState :=
  { s with
    port := 0
    addr := 0
    lastData := none
    timeouts := s.timeouts - 1
    handle := none
    disk := match s.handle with
      | some h => s.disk.fclose h.path
      | none => s.disk }

def resendData (s : TftpState) (env : Env) : Outcome :=
  match s.lastData with
  | none => .error .lastData
  | some p => .ok (s, env.send p)

/-- The rest of send_data, which fills the allocated packet. tftp_read makes an
error of the end of the file. -/
def sendChunk (s : TftpState) (h : FileHandle) (env : Env) : Outcome :=
  let chunk := fread s.disk h tftpMaxPayloadSize env
  if chunk = [] then
    .ok (closeHandle s, sendError env .accessViolation "Error occurred while reading the file.")
  else
    resendData { s with
      lastData := some (initPacket tftpData s.blknum ++ chunk)
      handle := some { h with pos := h.pos + chunk.length } } env

def sendData (s : TftpState) (env : Env) : Outcome :=
  if !env.allocs then .ok ({ s with lastData := none }, none)
  else match s.handle with
    | none => .error .handle
    | some h => sendChunk s h env

def memfind (data : Bytes) (start : Nat) : Nat :=
  match (data.drop start).findIdx? (· == 0) with
  | some i => start + i
  | none => 0xFFFF

def copyPartial (size : Nat) (data : Bytes) (len offset : Nat) : Option Bytes :=
  if size < len then none
  else some (((data.drop offset).take len).takeWhile (· != 0))

def onlyOne : String := "Only one connection at a time is supported"

def recvRequest (s : TftpState) (host : Host) (isWrite : Bool) (d : Datagram) (env : Env) :
    Outcome :=
  if s.handle.isSome then .ok (s, sendError env .accessViolation onlyOne)
  else
    let s := { s with timeouts := s.timeouts + 1 }
    let filenameEnd := memfind d.data 2
    if filenameEnd - 1 > tftpMaxFilenameLen + 1 then
      .ok (s, sendError env .accessViolation "Filename too long/not NULL terminated")
    else match copyPartial (tftpMaxFilenameLen + 1) d.data (filenameEnd - 1) 2 with
    | none => .error .filename
    | some filename =>
      let modeEnd := memfind d.data (filenameEnd + 1)
      if modeEnd - filenameEnd > tftpMaxModeLen + 1 then
        .ok (s, sendError env .accessViolation "Mode too long/not NULL terminated")
      else match copyPartial (tftpMaxModeLen + 1) d.data (modeEnd - filenameEnd) (filenameEnd + 1) with
      | none => .error .mode
      | some _ => match tftpOpen s.disk filename isWrite env with
        | none =>
          .ok ({ s with blknum := 1 }, sendError env .fileNotFound "Unable to open requested file.")
        | some (h, disk) =>
          let s := { s with
            handle := some h
            disk := disk
            blknum := 1
            addr := host.addr
            port := host.port
            modeWrite := isWrite }
          if isWrite then .ok (s, sendAck env 0) else sendData s env

def removeHeader (data : Bytes) : Bytes :=
  if data.length < tftpHeaderLength then data else data.drop tftpHeaderLength

/-- What TFTP_DATA does with the block that is awaited. tftp_write fails if not
all of the packet has been written. -/
def storeBlock (s : TftpState) (h : FileHandle) (d : Datagram) (env : Env) : Outcome :=
  let payload := removeHeader d.data
  let s := { s with disk := s.disk.append h.path (payload.take env.writes) }
  let failed := decide (env.writes < payload.length)
  let reply :=
    if failed then sendError env .accessViolation "error writing file" else sendAck env (d.word 1)
  let s := if failed then closeHandle s else s
  if payload.length < tftpMaxPayloadSize then .ok (closeHandle s, reply)
  else .ok ({ s with blknum := s.blknum + 1 }, reply)

def recvData (s : TftpState) (d : Datagram) (env : Env) : Outcome :=
  match s.handle with
  | none => .ok (s, sendError env .accessViolation "No connection")
  | some h =>
    if !s.modeWrite then .ok (s, sendError env .accessViolation "Not a write connection")
    else
      let blknum := d.word 1
      if blknum = s.blknum then storeBlock s h d env
      else if blknum + 1 = s.blknum then .ok (s, sendAck env blknum)
      else .ok (s, sendError env .unknownTrfrId "Wrong block number")

def lastpkt (s : TftpState) : Bool :=
  match s.lastData with
  | some p => decide (p.length ≠ tftpMaxPayloadSize + tftpHeaderLength)
  | none => false

def recvAck (s : TftpState) (d : Datagram) (env : Env) : Outcome :=
  if s.handle.isNone then .ok (s, sendError env .accessViolation "No connection")
  else if s.modeWrite then .ok (s, sendError env .accessViolation "Not a read connection")
  else if d.word 1 ≠ s.blknum then .ok (s, sendError env .unknownTrfrId "Wrong block number")
  else if lastpkt s then .ok (closeHandle s, none)
  else sendData { s with blknum := s.blknum + 1 } env

def accepts (s : TftpState) (host : Host) : Bool :=
  !((s.port != 0 && host.port != s.port) || (s.addr != 0 && s.addr != host.addr))

def tftpRecv (s : TftpState) (host : Host) (d : Datagram) (env : Env) : Outcome :=
  if !accepts s host then .ok (s, sendError env .accessViolation onlyOne)
  else
    let s := { s with lastPkt := s.timer, retries := 0 }
    let opcode := d.word 0
    if opcode = tftpRrq then recvRequest s host false d env
    else if opcode = tftpWrq then recvRequest s host true d env
    else if opcode = tftpData then recvData s d env
    else if opcode = tftpAck then recvAck s d env
    else if opcode = tftpErrorOp then
      .ok (if s.handle.isSome then closeHandle s else s, none)
    else .ok (s, sendError env .illegalOperation "Unknown operation")

def tftpTmr (s : TftpState) (env : Env) : Outcome :=
  let s := { s with timer := s.timer + 1, timeouts := s.timeouts - 1 }
  if s.handle.isNone then .ok (s, none)
  else
    let s := { s with timeouts := s.timeouts + 1 }
    if s.timer - s.lastPkt > tftpTimeout then
      if s.lastData.isSome && decide (s.retries < tftpMaxRetries) then
        (resendData s env).map (fun r => ({ r.1 with retries := r.1.retries + 1 }, r.2))
      else .ok (closeHandle s, none)
    else .ok (s, none)

end WirelessGateway.Tftp
