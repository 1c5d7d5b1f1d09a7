import WirelessGateway.Lib.Traces
import WirelessGateway.Tftp
import WirelessGateway.WebUpload

namespace WirelessGateway.TftpSession

open CJson Tftp Lib.Runs Lib.Traces
open WebFiles (Disk)

@[simp] theorem closeHandle_handle (s : TftpState) : (closeHandle s).handle = none := rfl
@[simp] theorem closeHandle_addr (s : TftpState) : (closeHandle s).addr = 0 := rfl
@[simp] theorem closeHandle_port (s : TftpState) : (closeHandle s).port = 0 := rfl
@[simp] theorem closeHandle_lastData (s : TftpState) : (closeHandle s).lastData = none := rfl
@[simp] theorem closeHandle_timer (s : TftpState) : (closeHandle s).timer = s.timer := rfl
@[simp] theorem closeHandle_lastPkt (s : TftpState) : (closeHandle s).lastPkt = s.lastPkt := rfl

def noted (s : TftpState) : TftpState := { s with lastPkt := s.timer, retries := 0 }

def opened (s : TftpState) (host : Host) (h : FileHandle) (disk : Disk) (isWrite : Bool) :
    TftpState :=
  { s with
    timeouts := s.timeouts + 1
    handle := some h
    disk := disk
    blknum := 1
    addr := host.addr
    port := host.port
    modeWrite := isWrite }

def requestName (d : Datagram) : Option Bytes :=
  copyPartial (tftpMaxFilenameLen + 1) d.data (memfind d.data 2 - 1) 2

def stored (s : TftpState) (h : FileHandle) (d : Datagram) (env : Env) : TftpState :=
  { s with disk := s.disk.append h.path ((removeHeader d.data).take env.writes) }

def chunkPacket (s : TftpState) (chunk : Bytes) : Bytes := initPacket tftpData s.blknum ++ chunk

inductive Fetched (s : TftpState) (h : FileHandle) (env : Env) : TftpState → Option Bytes → Prop
  | starved (hno : env.allocs = false) : Fetched s h env { s with lastData := none } none
  | ended (hnil : fread s.disk h tftpMaxPayloadSize env = []) :
      Fetched s h env (closeHandle s)
        (sendError env .accessViolation "Error occurred while reading the file.")
  | sent {chunk : Bytes} (hchunk : chunk = fread s.disk h tftpMaxPayloadSize env)
      (hne : chunk ≠ []) :
      Fetched s h env { s with
        lastData := some (chunkPacket s chunk)
        handle := some { h with pos := h.pos + chunk.length } } (env.send (chunkPacket s chunk))

inductive Handled (s : TftpState) (host : Host) (d : Datagram) (env : Env) :
    TftpState → Option Bytes → Prop
  | errored {code : TftpError} {str : String} {n : Nat} {b : UInt16} (hn : n = 0 ∨ s.handle = none)
      (hb : b = s.blknum ∨ s.handle = none) :
      Handled s host d env { s with timeouts := s.timeouts + n, blknum := b } (sendError env code str)
  | ignored (hnone : s.handle = none) : Handled s host d env s none
  | reacked {h : FileHandle} (hh : s.handle = some h) (hw : s.modeWrite = true)
      (hnum : d.word 1 + 1 = s.blknum) : Handled s host d env s (sendAck env (d.word 1))
  | writing {path : Bytes} {h : FileHandle} {disk : Disk} (hnone : s.handle = none)
      (hop : d.word 0 = tftpWrq) (hname : requestName d = some path)
      (hopen : tftpOpen s.disk path true env = some (h, disk)) :
      Handled s host d env (opened s host h disk true) (sendAck env 0)
  | reading {path : Bytes} {h : FileHandle} {disk : Disk} {t : TftpState} {out : Option Bytes}
      (hnone : s.handle = none) (hop : d.word 0 = tftpRrq) (hname : requestName d = some path)
      (hopen : tftpOpen s.disk path false env = some (h, disk))
      (hsent : Fetched (opened s host h disk false) h env t out) : Handled s host d env t out
  | more {h : FileHandle} (hh : s.handle = some h) (hw : s.modeWrite = true)
      (hop : d.word 0 = tftpData) (hnum : d.word 1 = s.blknum)
      (hfull : tftpMaxPayloadSize ≤ (removeHeader d.data).length)
      (hok : (removeHeader d.data).length ≤ env.writes) :
      Handled s host d env { stored s h d env with blknum := s.blknum + 1 } (sendAck env s.blknum)
  | last {h : FileHandle} (hh : s.handle = some h) (hw : s.modeWrite = true)
      (hop : d.word 0 = tftpData) (hnum : d.word 1 = s.blknum)
      (hshort : (removeHeader d.data).length < tftpMaxPayloadSize)
      (hok : (removeHeader d.data).length ≤ env.writes) :
      Handled s host d env (closeHandle (stored s h d env)) (sendAck env s.blknum)
  | failed {h : FileHandle} {n : Nat} {b : UInt16} (hh : s.handle = some h) (hw : s.modeWrite = true)
      (hop : d.word 0 = tftpData) :
      Handled s host d env { closeHandle (stored s h d env) with timeouts := n, blknum := b }
        (sendError env .accessViolation "error writing file")
  | next {h : FileHandle} {t : TftpState} {out : Option Bytes} (hh : s.handle = some h)
      (hw : s.modeWrite = false) (hop : d.word 0 = tftpAck) (hnum : d.word 1 = s.blknum)
      (hfull : ∀ p, s.lastData = some p → p.length = tftpMaxPayloadSize + tftpHeaderLength)
      (hsent : Fetched { s with blknum := s.blknum + 1 } h env t out) : Handled s host d env t out
  | finished {h : FileHandle} {p : Bytes} (hh : s.handle = some h) (hw : s.modeWrite = false)
      (hop : d.word 0 = tftpAck) (hnum : d.word 1 = s.blknum) (hp : s.lastData = some p)
      (hshort : p.length ≠ tftpMaxPayloadSize + tftpHeaderLength) :
      Handled s host d env (closeHandle s) none
  | aborted {h : FileHandle} (hh : s.handle = some h) (hop : d.word 0 = tftpErrorOp) :
      Handled s host d env (closeHandle s) none

inductive Received (s : TftpState) (host : Host) (d : Datagram) (env : Env) :
    TftpState → Option Bytes → Prop
  | refused (hacc : accepts s host = false) :
      Received s host d env s (sendError env .accessViolation onlyOne)
  | handled {t : TftpState} {out : Option Bytes} (hacc : accepts s host = true)
      (hh : Handled (noted s) host d env t out) : Received s host d env t out

inductive Ticked (s : TftpState) (env : Env) : TftpState → Option Bytes → Prop
  | lapsed (hnone : s.handle = none) :
      Ticked s env { s with timer := s.timer + 1, timeouts := s.timeouts - 1 } none
  | waiting {h : FileHandle} (hh : s.handle = some h) (hle : s.timer + 1 ≤ s.lastPkt + tftpTimeout) :
      Ticked s env { s with timer := s.timer + 1, timeouts := s.timeouts - 1 + 1 } none
  | resent {h : FileHandle} {p : Bytes} (hh : s.handle = some h)
      (hlt : s.lastPkt + tftpTimeout < s.timer + 1) (hp : s.lastData = some p)
      (hr : s.retries < tftpMaxRetries) :
      Ticked s env { s with
        timer := s.timer + 1
        timeouts := s.timeouts - 1 + 1
        retries := s.retries + 1 } (env.send p)
  | expired {h : FileHandle} (hh : s.handle = some h)
      (hlt : s.lastPkt + tftpTimeout < s.timer + 1)
      (hr : s.lastData = none ∨ tftpMaxRetries ≤ s.retries) :
      Ticked s env (closeHandle { s with timer := s.timer + 1, timeouts := s.timeouts - 1 + 1 }) none

section Spec

variable (s : TftpState) (host : Host) (d : Datagram) (env : Env)

theorem sendData_spec {h : FileHandle} (hh : s.handle = some h) :
    ∃ t out, sendData s env = .ok (t, out) ∧ Fetched s h env t out := by
  rw [sendData]
  split
  · next hno => exact ⟨_, _, rfl, .starved (by simpa using hno)⟩
  · rw [hh]
    by_cases hnil : fread s.disk h tftpMaxPayloadSize env = []
    · exact ⟨_, _, if_pos hnil, .ended hnil⟩
    · exact ⟨_, _, if_neg hnil, .sent rfl hnil⟩

theorem copyPartial_isSome {size len : Nat} (data : Bytes) (offset : Nat) (h : ¬ size < len) :
    ∃ text, copyPartial size data len offset = some text := ⟨_, if_neg h⟩

theorem recvRequest_spec (isWrite : Bool) (hop : d.word 0 = if isWrite then tftpWrq else tftpRrq) :
    ∃ t out, recvRequest s host isWrite d env = .ok (t, out) ∧ Handled s host d env t out := by
  rw [recvRequest]
  split
  · exact ⟨_, _, rfl, .errored (.inl rfl) (.inl rfl)⟩
  · next hnone =>
    have hnone : s.handle = none := by simpa using hnone
    dsimp only
    split
    · exact ⟨_, _, rfl, .errored (.inr hnone) (.inl rfl)⟩
    · next hfile =>
      obtain ⟨path, hpath⟩ := copyPartial_isSome d.data 2 hfile
      rw [hpath]
      dsimp only
      split
      · exact ⟨_, _, rfl, .errored (.inr hnone) (.inl rfl)⟩
      · next hmode =>
        obtain ⟨mode, hm⟩ := copyPartial_isSome d.data (memfind d.data 2 + 1) hmode
        rw [hm]
        dsimp only
        cases hopen : tftpOpen s.disk path isWrite env with
        | none => exact ⟨_, _, rfl, .errored (.inr hnone) (.inr hnone)⟩
        | some r =>
          obtain ⟨h, disk⟩ := r
          cases isWrite with
          | true => exact ⟨_, _, rfl, .writing hnone hop hpath hopen⟩
          | false =>
            obtain ⟨t, out, ht, hsent⟩ := sendData_spec (opened s host h disk false) env rfl
            exact ⟨t, out, ht, .reading hnone hop hpath hopen hsent⟩

theorem storeBlock_spec {h : FileHandle} (hh : s.handle = some h) (hw : s.modeWrite = true)
    (hop : d.word 0 = tftpData) (hnum : d.word 1 = s.blknum) :
    ∃ t out, storeBlock s h d env = .ok (t, out) ∧ Handled s host d env t out := by
  rw [storeBlock, hnum]
  by_cases hok : env.writes < (removeHeader d.data).length
  · simp only [hok, decide_true, if_true]
    split
    · exact ⟨_, _, rfl, .failed hh hw hop⟩
    · exact ⟨_, _, rfl, .failed hh hw hop⟩
  · simp only [hok, decide_false, Bool.false_eq_true, if_false]
    split
    · next hshort => exact ⟨_, _, rfl, .last hh hw hop hnum hshort (Nat.le_of_not_lt hok)⟩
    · next hfull =>
      exact ⟨_, _, rfl, .more hh hw hop hnum (Nat.le_of_not_lt hfull) (Nat.le_of_not_lt hok)⟩

theorem recvData_spec (hop : d.word 0 = tftpData) :
    ∃ t out, recvData s d env = .ok (t, out) ∧ Handled s host d env t out := by
  rw [recvData]
  split
  · exact ⟨_, _, rfl, .errored (n := 0) (.inl rfl) (.inl rfl)⟩
  · next h hh =>
    split
    · exact ⟨_, _, rfl, .errored (n := 0) (.inl rfl) (.inl rfl)⟩
    · next hw =>
      have hw : s.modeWrite = true := by simpa using hw
      dsimp only
      split
      · next hnum => exact storeBlock_spec s host d env hh hw hop hnum
      · split
        · next hnum => exact ⟨_, _, rfl, .reacked hh hw hnum⟩
        · exact ⟨_, _, rfl, .errored (n := 0) (.inl rfl) (.inl rfl)⟩

theorem lastpkt_true {s : TftpState} (h : lastpkt s = true) : ∃ p, s.lastData = some p ∧
    p.length ≠ tftpMaxPayloadSize + tftpHeaderLength := by
  rw [lastpkt] at h
  split at h
  · next p hp => exact ⟨p, hp, by simpa using h⟩
  · cases h

theorem lastpkt_false {s : TftpState} (h : lastpkt s = false) (p : Bytes) (hp : s.lastData = some p) :
    p.length = tftpMaxPayloadSize + tftpHeaderLength := by
  rw [lastpkt, hp] at h
  simpa using h

theorem recvAck_spec (hop : d.word 0 = tftpAck) :
    ∃ t out, recvAck s d env = .ok (t, out) ∧ Handled s host d env t out := by
  rw [recvAck]
  split
  · exact ⟨_, _, rfl, .errored (n := 0) (.inl rfl) (.inl rfl)⟩
  · next hsome =>
    obtain ⟨h, hh⟩ := Option.ne_none_iff_exists'.1 (by simpa using hsome)
    split
    · exact ⟨_, _, rfl, .errored (n := 0) (.inl rfl) (.inl rfl)⟩
    · next hw =>
      have hw : s.modeWrite = false := by simpa using hw
      split
      · exact ⟨_, _, rfl, .errored (n := 0) (.inl rfl) (.inl rfl)⟩
      · next hnum =>
        have hnum : d.word 1 = s.blknum := by simpa using hnum
        split
        · next hlast =>
          obtain ⟨p, hp, hshort⟩ := lastpkt_true hlast
          exact ⟨_, _, rfl, .finished hh hw hop hnum hp hshort⟩
        · next hlast =>
          obtain ⟨t, out, ht, hsent⟩ := sendData_spec { s with blknum := s.blknum + 1 } env hh
          exact ⟨t, out, ht, .next hh hw hop hnum (lastpkt_false (by simpa using hlast)) hsent⟩

/-- The server has no step that goes wrong: it never copies a name over the end
of its array and never uses a closed file. -/
theorem tftpRecv_spec :
    ∃ t out, tftpRecv s host d env = .ok (t, out) ∧ Received s host d env t out := by
  rw [tftpRecv]
  split
  · next hacc => exact ⟨_, _, rfl, .refused (by simpa using hacc)⟩
  · next hacc =>
    have hacc : accepts s host = true := by simpa using hacc
    have handled : ∀ {r : Outcome}, (∃ t out, r = .ok (t, out) ∧ Handled (noted s) host d env t out) →
        ∃ t out, r = .ok (t, out) ∧ Received s host d env t out := by
      rintro r ⟨t, out, hr, ht⟩
      exact ⟨t, out, hr, .handled hacc ht⟩
    dsimp only
    split
    · next hop => exact handled (recvRequest_spec (noted s) host d env false (by simpa using hop))
    split
    · next hop => exact handled (recvRequest_spec (noted s) host d env true (by simpa using hop))
    split
    · next hop => exact handled (recvData_spec (noted s) host d env hop)
    split
    · next hop => exact handled (recvAck_spec (noted s) host d env hop)
    split
    · next hop =>
      split
      · next hsome =>
        obtain ⟨h, hh⟩ := Option.isSome_iff_exists.1 hsome
        exact handled ⟨_, _, rfl, .aborted hh hop⟩
      · next hnone =>
        have hnone : s.handle = none := by simpa using hnone
        exact handled ⟨_, _, rfl, .ignored hnone⟩
    · exact handled ⟨_, _, rfl, .errored (n := 0) (.inl rfl) (.inl rfl)⟩

theorem tftpTmr_spec : ∃ t out, tftpTmr s env = .ok (t, out) ∧ Ticked s env t out := by
  rw [tftpTmr]
  dsimp only
  split
  · next hnone => exact ⟨_, _, rfl, .lapsed (by simpa using hnone)⟩
  · next hsome =>
    obtain ⟨h, hh⟩ := Option.ne_none_iff_exists'.1 (by simpa using hsome)
    split
    · next hlt =>
      have hlt : s.lastPkt + tftpTimeout < s.timer + 1 := by omega
      split
      · next hr =>
        simp only [Bool.and_eq_true, decide_eq_true_eq, Option.isSome_iff_exists] at hr
        obtain ⟨⟨p, hp⟩, hr⟩ := hr
        refine ⟨_, _, ?_, .resent hh hlt hp hr⟩
        rw [resendData]
        dsimp only
        rw [hp]
        rfl
      · next hr =>
        refine ⟨_, _, rfl, .expired hh hlt ?_⟩
        simpa [or_iff_not_imp_left, Option.ne_none_iff_isSome] using hr
    · next hle => exact ⟨_, _, rfl, .waiting hh (by omega)⟩

end Spec

/-- The datagrams come from anywhere, in any order, and a timeout runs out when
one is armed. -/
inductive Label
  | recv (host : Host) (d : Datagram) (env : Env)
  | tick (env : Env)

def Label.isTick : Label → Bool
  | .recv .. => false
  | .tick _ => true

structure Endpoint where
  srv : TftpState
  sent : List (Host × Bytes)

def Endpoint.run (x : Endpoint) (host : Host) (r : Outcome) : Except Fault Endpoint :=
  r.map (fun r => ⟨r.1, x.sent ++ r.2.toList.map (fun p => (host, p))⟩)

def step (x : Endpoint) : Label → Option (Except Fault Endpoint)
  | .recv host d env => some (x.run host (tftpRecv x.srv host d env))
  | .tick env =>
    if x.srv.timeouts = 0 then none else some (x.run x.srv.peer (tftpTmr x.srv env))

def tftpInit (disk : Disk) : TftpState where
  handle := none
  lastData := none
  addr := 0
  port := 0
  timer := 0
  lastPkt := 0
  blknum := 0
  retries := 0
  modeWrite := false
  timeouts := 0
  disk := disk

def machine (disk : Disk) : Machine Endpoint Label Fault where
  init x := x = ⟨tftpInit disk, []⟩
  step := step

variable {disk : Disk} {x y : Endpoint} {a : Label}

inductive Move (x y : Endpoint) : Label → Prop
  | recv {host : Host} {d : Datagram} {env : Env} {out : Option Bytes}
      (h : Received x.srv host d env y.srv out)
      (hsent : y.sent = x.sent ++ out.toList.map (fun p => (host, p))) : Move x y (.recv host d env)
  | tick {env : Env} {out : Option Bytes} (harmed : x.srv.timeouts ≠ 0)
      (h : Ticked x.srv env y.srv out)
      (hsent : y.sent = x.sent ++ out.toList.map (fun p => (x.srv.peer, p))) : Move x y (.tick env)

theorem run_ok {host : Host} {t : TftpState} {out : Option Bytes} :
    x.run host (.ok (t, out)) = .ok ⟨t, x.sent ++ out.toList.map (fun p => (host, p))⟩ := rfl

theorem step_move (h : (machine disk).Step x a y) : Move x y a := by
  have hs : step x a = some (.ok y) := h
  cases a with
  | recv host d env =>
    obtain ⟨t, out, ht, hr⟩ := tftpRecv_spec x.srv host d env
    rw [step, ht, run_ok] at hs
    cases hs
    exact .recv hr rfl
  | tick env =>
    obtain ⟨t, out, ht, hr⟩ := tftpTmr_spec x.srv env
    rw [step, ht, run_ok] at hs
    split at hs
    · cases hs
    · next harmed =>
      cases hs
      exact .tick harmed hr rfl

theorem not_faults : ¬ (machine disk).Faults x a := by
  rintro ⟨f, hf⟩
  have hs : step x a = some (.error f) := hf
  cases a with
  | recv host d env =>
    obtain ⟨t, out, ht, -⟩ := tftpRecv_spec x.srv host d env
    rw [step, ht, run_ok] at hs
    cases hs
  | tick env =>
    obtain ⟨t, out, ht, -⟩ := tftpTmr_spec x.srv env
    rw [step, ht, run_ok] at hs
    split at hs
    · cases hs
    · cases hs

/-- A session is open while a file is. It has a timeout armed, and it is closed
when its client has been silent for long enough. -/
structure Sound (files : List Bytes) (s : TftpState) : Prop where
  closed : s.handle = none → s.port = 0 ∧ s.addr = 0 ∧ s.lastData = none
  writing : s.modeWrite = true → s.lastData = none
  armed : s.handle ≠ none → 0 < s.timeouts
  past : s.lastPkt ≤ s.timer
  alive : s.handle ≠ none → s.timer ≤ s.lastPkt + tftpTimeout + s.retries
  retried : s.retries ≤ tftpMaxRetries
  written : s.modeWrite = true → s.retries = 0
  handles : s.disk.handles = (s.handle.map FileHandle.path).toList ++ files

theorem tftpOpen_some {d : Disk} {path : Bytes} {isWrite : Bool} {env : Env} {h : FileHandle}
    {d' : Disk} (hopen : tftpOpen d path isWrite env = some (h, d')) :
    h = ⟨path, 0⟩ ∧ d' = if isWrite then d.create path else openRead d path := by
  rw [tftpOpen] at hopen
  split at hopen
  · cases hopen
  · split at hopen
    · cases hopen
    · cases hopen
      exact ⟨rfl, rfl⟩
    · split at hopen
      · next hw =>
        cases hopen
        exact ⟨rfl, (if_pos hw).symm⟩
      · cases hopen

theorem tftpOpen_handles {d : Disk} {path : Bytes} {isWrite : Bool} {env : Env} {h : FileHandle}
    {d' : Disk} (hopen : tftpOpen d path isWrite env = some (h, d')) :
    d'.handles = h.path :: d.handles := by
  obtain ⟨rfl, rfl⟩ := tftpOpen_some hopen
  cases isWrite with
  | true => rfl
  | false => rfl

section Sound

variable {files : List Bytes} {s t : TftpState} {host : Host} {d : Datagram} {env : Env}
  {out : Option Bytes} {h : FileHandle}

theorem Sound.noted (hs : Sound files s) : Sound files (noted s) where
  closed := hs.closed
  writing := hs.writing
  armed := hs.armed
  past := Nat.le_refl _
  alive _ := by
    show s.timer ≤ s.timer + tftpTimeout + 0
    omega
  retried := Nat.zero_le _
  written _ := rfl
  handles := hs.handles

theorem closeHandle_sound (hpast : s.lastPkt ≤ s.timer) (hr : s.retries ≤ tftpMaxRetries)
    (hw : s.modeWrite = true → s.retries = 0)
    (hfiles : s.disk.handles = (s.handle.map FileHandle.path).toList ++ files) :
    Sound files (closeHandle s) where
  closed _ := ⟨rfl, rfl, rfl⟩
  writing _ := rfl
  armed hne := absurd rfl hne
  past := hpast
  alive hne := absurd rfl hne
  retried := hr
  written := hw
  handles := by
    rw [closeHandle]
    dsimp only
    split
    · next h hh =>
      rw [hh] at hfiles
      show s.disk.handles.erase h.path = files
      rw [hfiles]
      exact List.erase_cons_head h.path files
    · next hh =>
      rw [hh] at hfiles
      exact hfiles

theorem Sound.close (hs : Sound files s) : Sound files (closeHandle s) :=
  closeHandle_sound hs.past hs.retried hs.written hs.handles

theorem Sound.numbered (hs : Sound files s) (n : Nat) (b : UInt16) :
    Sound files { s with timeouts := s.timeouts + n, blknum := b } where
  closed := hs.closed
  writing := hs.writing
  armed hne := Nat.lt_add_right n (hs.armed hne)
  past := hs.past
  alive := hs.alive
  retried := hs.retried
  written := hs.written
  handles := hs.handles

theorem Sound.stored (hs : Sound files s) (h : FileHandle) (d : Datagram) (env : Env) :
    Sound files (stored s h d env) where
  closed := hs.closed
  writing := hs.writing
  armed := hs.armed
  past := hs.past
  alive := hs.alive
  retried := hs.retried
  written := hs.written
  handles := (WebUpload.append_handles _ _ _).trans hs.handles

theorem Sound.opened {path : Bytes} {disk : Disk} {isWrite : Bool} (hs : Sound files s)
    (hnone : s.handle = none) (hpast : s.timer ≤ s.lastPkt + tftpTimeout) (hr : s.retries = 0)
    (hopen : tftpOpen s.disk path isWrite env = some (h, disk)) :
    Sound files (opened s host h disk isWrite) where
  closed hn := by cases hn
  writing _ := (hs.closed hnone).2.2
  armed _ := Nat.succ_pos _
  past := hs.past
  alive _ := Nat.le_add_right_of_le hpast
  retried := hs.retried
  written _ := hr
  handles := by
    have hh := hs.handles
    rw [hnone] at hh
    show disk.handles = h.path :: files
    rw [tftpOpen_handles hopen, hh]
    rfl

theorem Sound.fetched (hs : Sound files s) (hh : s.handle = some h) (hw : s.modeWrite = false)
    (hf : Fetched s h env t out) : Sound files t := by
  cases hf with
  | starved =>
    refine ⟨fun hn => ?_, fun _ => rfl, hs.armed, hs.past, hs.alive, hs.retried, hs.written,
      hs.handles⟩
    rw [hh] at hn
    cases hn
  | ended => exact hs.close
  | sent =>
    have hne : s.handle ≠ none := by simp [hh]
    have hfiles := hs.handles
    rw [hh] at hfiles
    refine ⟨fun hn => ?_, fun hw' => ?_, fun _ => hs.armed hne, hs.past, fun _ => hs.alive hne,
      hs.retried, hs.written, hfiles⟩
    · cases hn
    · rw [hw] at hw'
      cases hw'

theorem Sound.handled (hs : Sound files s) (hpast : s.timer ≤ s.lastPkt + tftpTimeout)
    (hr : s.retries = 0) (hh : Handled s host d env t out) : Sound files t := by
  cases hh with
  | errored => exact hs.numbered _ _
  | ignored | reacked => exact hs
  | writing hnone _ _ hopen => exact hs.opened hnone hpast hr hopen
  | reading hnone _ _ hopen hsent => exact (hs.opened hnone hpast hr hopen).fetched rfl rfl hsent
  | more => exact (hs.stored _ d env).numbered 0 _
  | last => exact (hs.stored _ d env).close
  | @failed h =>
    have hc := (hs.stored h d env).close
    exact ⟨hc.closed, hc.writing, fun hne => absurd rfl hne, hc.past, hc.alive, hc.retried,
      hc.written, hc.handles⟩
  | next hopen hw _ _ _ hsent => exact (hs.numbered 0 (s.blknum + 1)).fetched hopen hw hsent
  | finished | aborted => exact hs.close

theorem Sound.received (hs : Sound files s) (hr : Received s host d env t out) : Sound files t := by
  cases hr with
  | refused => exact hs
  | handled _ hh => exact hs.noted.handled (Nat.le_add_right _ _) rfl hh

theorem Sound.ticked (hs : Sound files s) (ht : Ticked s env t out) : Sound files t := by
  cases ht with
  | lapsed hnone =>
    exact ⟨hs.closed, hs.writing, fun hne => absurd hnone hne, Nat.le_succ_of_le hs.past,
      fun hne => absurd hnone hne, hs.retried, hs.written, hs.handles⟩
  | waiting _ hle =>
    exact ⟨hs.closed, hs.writing, fun _ => Nat.succ_pos _, Nat.le_succ_of_le hs.past,
      fun _ => Nat.le_add_right_of_le hle, hs.retried, hs.written, hs.handles⟩
  | resent hh hlt hp hr =>
    have hal := hs.alive (by simp [hh])
    refine ⟨hs.closed, hs.writing, fun _ => Nat.succ_pos _, Nat.le_succ_of_le hs.past,
      fun _ => Nat.succ_le_succ hal, hr, fun hw => ?_, hs.handles⟩
    rw [hs.writing hw] at hp
    cases hp
  | expired => exact closeHandle_sound (Nat.le_succ_of_le hs.past) hs.retried hs.written hs.handles

end Sound

theorem Sound.init (disk : Disk) : Sound disk.handles (tftpInit disk) where
  closed _ := ⟨rfl, rfl, rfl⟩
  writing _ := rfl
  armed hne := absurd rfl hne
  past := Nat.le_refl _
  alive hne := absurd rfl hne
  retried := Nat.zero_le _
  written _ := rfl
  handles := rfl

theorem Sound.step {files : List Bytes} (hs : Sound files x.srv) (hstep : (machine disk).Step x a y) :
    Sound files y.srv := by
  cases step_move hstep with
  | recv hr _ => exact hs.received hr
  | tick _ ht _ => exact hs.ticked ht

theorem reachable_sound (hx : Reachable (machine disk) x) : Sound disk.handles x.srv := by
  apply hx.invariant (I := fun x => Sound disk.handles x.srv)
  · rintro x rfl
    exact .init disk
  · intro x a y _ hs hstep
    exact hs.step hstep

/-- At every moment the server has the files open that other tasks have opened,
and the file of its session if there is one. Nothing makes it copy past the end of
a local array or use a NULL pointer. -/
theorem session_sound (hx : Reachable (machine disk) x) :
    Sound disk.handles x.srv ∧ ∀ a, ¬ (machine disk).Faults x a :=
  ⟨reachable_sound hx, fun _ => not_faults⟩

def emptyDisk : Disk := ⟨fun _ => none, []⟩

def writer : Host := ⟨1, 2⟩

def writeRequest : Label := .recv writer ⟨[0, 2, 97, 0, 98, 0], []⟩ ⟨true, true, true, 512, 512⟩

theorem writer_opens : ∃ y, Run (machine emptyDisk) ⟨tftpInit emptyDisk, []⟩ [writeRequest] y ∧
    (decide (y.srv.peer = writer) && y.srv.handle.isSome) = true :=
  exists_of_reaches (by decide +kernel)

theorem session_sound_writer : ∃ y, y.srv.handle.isSome = true ∧ Sound [] y.srv ∧
    ∀ a, ¬ (machine emptyDisk).Faults y a := by
  obtain ⟨y, hrun, hy⟩ := writer_opens
  rw [Bool.and_eq_true] at hy
  exact ⟨y, hy.2, session_sound ⟨_, _, rfl, hrun⟩⟩

/-- A step in which the server accepts nothing and keeps its session. -/
def Silent (x : Endpoint) (a : Label) (y : Endpoint) : Prop :=
  y.srv.handle ≠ none ∧ ∀ host d env, a = .recv host d env → accepts x.srv host = false

theorem silent_step (hstep : (machine disk).Step x a y) (hq : Silent x a y) :
    y.srv.timer = x.srv.timer + [a].countP Label.isTick ∧ y.srv.lastPkt = x.srv.lastPkt ∧
      y.srv.modeWrite = x.srv.modeWrite := by
  obtain ⟨hopen, hacc⟩ := hq
  obtain ⟨t, sent⟩ := y
  cases step_move hstep with
  | @recv host d env _ hr _ =>
    cases hr with
    | refused => exact ⟨rfl, rfl, rfl⟩
    | handled haccepts _ =>
      rw [hacc host d env rfl] at haccepts
      cases haccepts
  | tick _ ht _ =>
    cases ht with
    | lapsed | waiting | resent => exact ⟨rfl, rfl, rfl⟩
    | expired => exact absurd rfl hopen

theorem silent_run {as : List Label} (hrun : Along (machine disk) Silent x as y) :
    y.srv.timer = x.srv.timer + as.countP Label.isTick ∧ y.srv.lastPkt = x.srv.lastPkt ∧
      y.srv.modeWrite = x.srv.modeWrite := by
  induction hrun with
  | start => exact ⟨rfl, rfl, rfl⟩
  | step _ hstep hq ih =>
    obtain ⟨ht, hl, hw⟩ := silent_step hstep hq
    rw [ih.1] at ht
    rw [List.countP_append, ← Nat.add_assoc]
    exact ⟨ht, hl.trans ih.2.1, hw.trans ih.2.2⟩

/-- A session whose client has fallen silent is closed by the sixteenth timeout,
and an upload by the eleventh. -/
theorem silent_session_expires {as : List Label} (hx : Reachable (machine disk) x)
    (hrun : Along (machine disk) Silent x as y) :
    as.countP Label.isTick ≤ if x.srv.modeWrite then 10 else 15 := by
  cases hrun with
  | start => exact Nat.zero_le _
  | step run hstep hq =>
    have hrun := Along.step run hstep hq
    obtain ⟨ht, hl, hw⟩ := silent_run hrun
    have hs := reachable_sound (hrun.reachable hx)
    have hal := hs.alive hq.1
    have hr := hs.retried
    have hx := (reachable_sound hx).past
    rw [tftpTimeout, ht, hl] at hal
    rw [tftpMaxRetries] at hr
    split
    · next hwrite =>
      have := hs.written (hw.trans hwrite)
      omega
    · omega

def isSilent (x : Endpoint) (a : Label) : Bool :=
  (match step x a with
    | some (.ok y) => y.srv.handle.isSome
    | _ => false) &&
  match a with
    | .recv host _ _ => !accepts x.srv host
    | .tick _ => true

theorem silent_of_isSilent (hstep : (machine disk).Step x a y) (h : isSilent x a = true) :
    Silent x a y := by
  have hs : step x a = some (.ok y) := hstep
  rw [isSilent.eq_def, hs, Bool.and_eq_true] at h
  refine ⟨by simpa [Option.isSome_iff_ne_none] using h.1, ?_⟩
  rintro host d env rfl
  simpa using h.2

def quiet : List Label := List.replicate 10 (.tick ⟨true, true, true, 512, 512⟩)

theorem silent_session_expires_writer : ∃ x y, Along (machine emptyDisk) Silent x quiet y ∧
    quiet.countP Label.isTick ≤ if x.srv.modeWrite then 10 else 15 := by
  have hcheck : (machine emptyDisk).reaches ⟨tftpInit emptyDisk, []⟩ [writeRequest]
      (fun x => (machine emptyDisk).check isSilent (fun _ => true) x quiet) = true := by
    decide +kernel
  obtain ⟨x, hx, hc⟩ := exists_of_reaches hcheck
  obtain ⟨y, hrun, -⟩ := exists_of_check hc
  have hr : Reachable (machine emptyDisk) x := ⟨_, _, rfl, hx⟩
  have hsilent : Along (machine emptyDisk) Silent x quiet y :=
    hrun.imp_of_reachable hr (fun t a u _ hstep hsil => silent_of_isSilent hstep hsil)
  exact ⟨x, y, hsilent, silent_session_expires hr hsilent⟩

def isFrom (c : Host) : Label → Bool
  | .recv host _ _ => host = c
  | .tick _ => true

def Endpoint.sentTo (x : Endpoint) (c : Host) : List Bytes :=
  x.sent.filterMap (fun p => if p.1 = c then some p.2 else none)

theorem sentTo_append {c host : Host} {out : Option Bytes} {sent : List (Host × Bytes)}
    (hsent : y.sent = sent ++ out.toList.map (fun p => (host, p))) (hx : x.sent = sent) :
    y.sentTo c = x.sentTo c ++ if host = c then out.toList else [] := by
  rw [Endpoint.sentTo, Endpoint.sentTo, hsent, hx, List.filterMap_append, List.filterMap_map]
  congr 1
  split
  · next heq => simp [heq]
  · next hne => simp [hne]

theorem not_accepts {s : TftpState} {host c : Host} (haddr : c.addr ≠ 0) (hport : c.port ≠ 0)
    (hs : s.peer = c) (hne : host ≠ c) : accepts s host = false := by
  subst hs
  have haddr : s.addr ≠ 0 := haddr
  have hport : s.port ≠ 0 := hport
  rw [accepts, Bool.not_eq_false', Bool.or_eq_true]
  by_cases hp : host.port = s.port
  · right
    have ha : s.addr ≠ host.addr := by
      intro ha
      apply hne
      cases host
      cases hp
      cases ha
      rfl
    simpa [ha] using haddr
  · left
    simpa [hp] using hport

theorem step_of_srv {z : Endpoint} (hsrv : z.srv = x.srv) (hstep : (machine disk).Step x a y) :
    ∃ (host : Host) (out : Option Bytes), y.sent = x.sent ++ out.toList.map (fun p => (host, p)) ∧
      (machine disk).Step z a ⟨y.srv, z.sent ++ out.toList.map (fun p => (host, p))⟩ := by
  obtain ⟨srv, sent⟩ := x
  obtain ⟨srv', sent'⟩ := z
  cases hsrv
  have hs : step ⟨srv, sent⟩ a = some (.ok y) := hstep
  cases a with
  | recv host d env =>
    obtain ⟨t, out, ht, -⟩ := tftpRecv_spec srv host d env
    rw [step, ht, run_ok] at hs
    cases hs
    refine ⟨host, out, rfl, ?_⟩
    show step ⟨srv, sent'⟩ (.recv host d env) = _
    rw [step, ht, run_ok]
  | tick env =>
    obtain ⟨t, out, ht, -⟩ := tftpTmr_spec srv env
    rw [step, ht, run_ok] at hs
    split at hs
    · cases hs
    · next harmed =>
      cases hs
      refine ⟨srv.peer, out, rfl, ?_⟩
      show step ⟨srv, sent'⟩ (.tick env) = _
      rw [step, ht, run_ok, if_neg harmed]

/-- As long as a client has a session, what other hosts send makes no difference
to the server, to its files and to what the client is sent. -/
theorem session_isolated {c : Host} (haddr : c.addr ≠ 0) (hport : c.port ≠ 0) {as : List Label}
    (hx : x.srv.peer = c) (hrun : Along (machine disk) (fun _ _ u => u.srv.peer = c) x as y) :
    ∃ z, Run (machine disk) x (as.filter (isFrom c)) z ∧ z.srv = y.srv ∧ z.sentTo c = y.sentTo c := by
  have h := erased_run (n := machine disk) (f := isFrom c)
    (R := fun t z => t.srv.peer = c ∧ z.srv = t.srv ∧ z.sentTo c = t.sentTo c) ?_ ?_ hrun
    ⟨hx, rfl, rfl⟩
  · obtain ⟨z, hz, -, hsrv, hsent⟩ := h
    exact ⟨z, hz, hsrv, hsent⟩
  · rintro t a u z ⟨ht, hsrv, hsent⟩ hstep hu hk
    obtain ⟨usrv, usent⟩ := u
    cases step_move hstep with
    | tick => cases hk
    | @recv host d env out hr hs =>
      have hne : host ≠ c := by simpa [isFrom] using hk
      cases hr with
      | handled hacc _ =>
        rw [not_accepts haddr hport ht hne] at hacc
        cases hacc
      | refused =>
        refine ⟨hu, hsrv, hsent.trans ?_⟩
        rw [sentTo_append hs rfl, if_neg hne, List.append_nil]
  · rintro t a u z ⟨ht, hsrv, hsent⟩ hstep hu _
    obtain ⟨host, out, hs, hz⟩ := step_of_srv hsrv hstep
    refine ⟨_, hz, hu, rfl, ?_⟩
    rw [sentTo_append hs rfl, sentTo_append (y := ⟨u.srv, _⟩) rfl rfl, hsent]

def intruder : Label := .recv ⟨3, 4⟩ ⟨[0, 1, 97, 0, 98, 0], []⟩ ⟨true, true, true, 512, 512⟩

def staysWith (c : Host) (x : Endpoint) (a : Label) : Bool :=
  match step x a with
  | some (.ok y) => decide (y.srv.peer = c)
  | _ => false

theorem of_staysWith {c : Host} (hstep : (machine disk).Step x a y) (h : staysWith c x a = true) :
    y.srv.peer = c := by
  have hs : step x a = some (.ok y) := hstep
  rw [staysWith, hs] at h
  simpa using h

theorem session_isolated_writer : ∃ x y z, Run (machine emptyDisk) x [intruder] y ∧
    Run (machine emptyDisk) x ([intruder].filter (isFrom writer)) z ∧ z.srv = y.srv ∧
    z.sentTo writer = y.sentTo writer := by
  have hcheck : (machine emptyDisk).reaches ⟨tftpInit emptyDisk, []⟩ [writeRequest]
      (fun x => decide (x.srv.peer = writer) && (machine emptyDisk).check
        (staysWith writer) (fun _ => true) x [intruder]) = true := by
    decide +kernel
  obtain ⟨x, hx, hc⟩ := exists_of_reaches hcheck
  rw [Bool.and_eq_true] at hc
  obtain ⟨y, hrun, -⟩ := exists_of_check hc.2
  have hr : Reachable (machine emptyDisk) x := ⟨_, _, rfl, hx⟩
  have hkeep : Along (machine emptyDisk) (fun _ _ u => u.srv.peer = writer) x [intruder] y := by
    apply hrun.imp_of_reachable hr
    intro t a u _ hstep h
    exact of_staysWith hstep h
  obtain ⟨z, hz⟩ := session_isolated (by decide) (by decide) (by simpa using hc.1) hkeep
  exact ⟨x, y, z, hrun.run, hz⟩

end WirelessGateway.TftpSession
