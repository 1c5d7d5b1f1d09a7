import WirelessGateway.TftpNet

namespace WirelessGateway.TftpDownload

open CJson Tftp TftpNet Lib.Runs Lib.Blocks
open WebFiles (Disk)
open TftpSession (Received Handled Ticked Fetched tftpInit)

/-- A client that keeps to RFC 1350 and fetches a file: what it has received, in
how many blocks, and how the transfer has ended. -/
structure Getter where
  received : Bytes
  blocks : Nat
  ended : Option Bool

def dataBlock (data : Bytes) (k : Nat) : Bytes := block tftpMaxPayloadSize data k

def last (data : Bytes) : Nat := lastBlock tftpMaxPayloadSize data

def upPacket (path : Bytes) (k : Nat) : Bytes :=
  if k = 0 then requestPacket tftpRrq path else ackPacket k

def Getter.take (c : Getter) (p : Bytes) : Getter :=
  if c.ended.isSome then c
  else if word p 0 = tftpErrorOp then { c with ended := some false }
  else if word p 0 = tftpData ∧ word p 1 = UInt16.ofNat (c.blocks + 1) then
    let chunk := p.drop tftpHeaderLength
    { received := c.received ++ chunk
      blocks := c.blocks + 1
      ended := if chunk.length < tftpMaxPayloadSize then some true else none }
  else c

def getter (path : Bytes) : Client Getter where
  packet c := if c.ended = some false then none else some (c.blocks, upPacket path c.blocks)
  take := Getter.take

def Getter.awaited (c : Getter) : Nat := c.blocks + 1

/-- The server has memory for its packets and can read the file, which stays as it is. -/
structure Served (me : Host) (path : Bytes) (x : Net Getter) (a : Label) (y : Net Getter) : Prop where
  fair : Fair Getter.awaited me path x a y
  whole : ∀ env, a.env = some env → env.allocs = true ∧ tftpMaxPayloadSize ≤ env.reads
  kept : y.srv.disk.read path = x.srv.disk.read path

structure AtBlock (path data : Bytes) (s : TftpState) (h : FileHandle) (count : Nat) : Prop where
  path : h.path = path
  read : s.modeWrite = false
  pos : 1 ≤ count
  blknum : s.blknum = UInt16.ofNat count
  lastData : s.lastData = some (dataPacket count (dataBlock data count))
  ne : dataBlock data count ≠ []
  place : h.pos = tftpMaxPayloadSize * (count - 1) + (dataBlock data count).length

/-- A data packet has its block of the file, and no block is sent empty. -/
def IsBlock (data : Bytes) (p : Nat × Bytes) : Prop :=
  word p.2 0 = tftpData → p.2 = dataPacket p.1 (dataBlock data p.1) ∧ 1 ≤ p.1 ∧ dataBlock data p.1 ≠ []

structure Downloading (me : Host) (path data : Bytes) (files : List Bytes) (x : Net Getter) :
    Prop where
  link : Linked me (AtBlock path data) (IsBlock data) files x
  file : x.srv.disk.read path = some data
  up : ∀ p ∈ x.up, p.2 = upPacket path p.1
  received : x.client.received = data.take (tftpMaxPayloadSize * x.client.blocks)
  ended : x.client.ended = some true →
    last data ≤ x.client.blocks ∧ dataBlock data x.client.blocks ≠ [] ∧ 1 ≤ x.client.blocks

section Server

variable {me : Host} {path data : Bytes} {s t : TftpState} {h : FileHandle} {count : Nat} {env : Env}
  {out : Option Bytes}

theorem upPacket_opcode {k : Nat} {behind : Bytes} :
    Datagram.word ⟨upPacket path k, behind⟩ 0 = if k = 0 then tftpRrq else tftpAck := by
  rw [upPacket]
  split
  · simp only [Datagram.word, requestPacket, List.append_assoc, word_htons]
  · exact (word_append (List.append_nil _).symm).1

theorem upPacket_ack {k : Nat} {behind : Bytes}
    (hop : Datagram.word ⟨upPacket path k, behind⟩ 0 = tftpAck) :
    Datagram.word ⟨upPacket path k, behind⟩ 1 = UInt16.ofNat k := by
  rw [upPacket_opcode] at hop
  split at hop
  · exact absurd hop (by decide)
  · next hk =>
    rw [upPacket, if_neg hk]
    exact (word_append (List.append_nil _).symm).2

theorem answers_error {code : TftpError} {str : String} (h : Mine me (AtBlock path data) t count) :
    Answers me (AtBlock path data) (fun _ => IsBlock data) t count (sendError env code str) := by
  refine ⟨h, fun p hp hop => ?_⟩
  rw [send_some hp] at hop
  exact absurd ((word_errorPacket code str).symm.trans hop) (by decide)

theorem word_dataPacket (k : Nat) (chunk : Bytes) :
    word (dataPacket k chunk) 0 = tftpData ∧ word (dataPacket k chunk) 1 = UInt16.ofNat k :=
  ⟨word_initPacket_zero _ _ _, word_initPacket_one _ _ _⟩

theorem dataPacket_tag {k : Nat} {chunk : Bytes} (hb : t.blknum = UInt16.ofNat k) :
    blockTag t k (dataPacket k chunk) = k := by
  rw [blockTag, (word_dataPacket k chunk).2, if_pos hb.symm]

theorem answers_fetched (hf : Fetched s h env t out)
    (hwhole : env.allocs = true ∧ tftpMaxPayloadSize ≤ env.reads) (hpath : h.path = path) (hfile : s.disk.read path = some data) (hread : s.modeWrite = false)
    (hpos : 1 ≤ count) (hblk : s.blknum = UInt16.ofNat count)
    (hplace : h.pos = tftpMaxPayloadSize * (count - 1)) :
    Answers me (AtBlock path data) (fun _ => IsBlock data) t count out := by
  subst hpath
  have hchunk : fread s.disk h tftpMaxPayloadSize env = dataBlock data count := by
    rw [fread, hfile, hplace, Nat.min_eq_left hwhole.2]
    rfl
  cases hf with
  | starved hno =>
    rw [hwhole.1] at hno
    cases hno
  | ended => exact answers_error (mine_closed rfl)
  | sent hc hne =>
    rw [hchunk] at hc
    subst hc
    have hpacket : TftpSession.chunkPacket s (dataBlock data count) =
        dataPacket count (dataBlock data count) := by
      rw [TftpSession.chunkPacket, hblk]
      rfl
    rw [hpacket]
    refine ⟨fun h' ho _ => ?_, fun p hp _ => ?_⟩
    · cases ho
      exact ⟨rfl, hread, hpos, hblk, rfl, hne, congrArg (· + _) hplace⟩
    · rw [send_some hp, dataPacket_tag (by exact hblk)]
      exact ⟨rfl, hpos, hne⟩

theorem handled_own {k : Nat} {behind : Bytes} (hpath : 0 ∉ path)
    (hlen : path.length ≤ tftpMaxFilenameLen)
    (hwhole : env.allocs = true ∧ tftpMaxPayloadSize ≤ env.reads)
    (hopen : s.handle ≠ none → s.peer = me) (hnear : s.handle ≠ none → Near 65536 k count)
    (hfile : s.disk.read path = some data) (hat : Mine me (AtBlock path data) s count)
    (hh : Handled s me ⟨upPacket path k, behind⟩ env t out) :
    Answers me (AtBlock path data) (fun _ => IsBlock data) t (nextCount s t count) out := by
  have hne : ∀ {h}, s.handle = some h → s.handle ≠ none := fun hh => by simp [hh]
  -- the client's sessions are no uploads
  have hwrite : ∀ {h}, s.handle = some h → s.modeWrite ≠ true := fun ho hw => by
    rw [(hat _ ho (hopen (hne ho))).read] at hw
    cases hw
  cases hh with
  | errored _ hb =>
    refine answers_error fun h ho => ?_
    have hb := hb.resolve_right (hne ho)
    rw [nextCount_keep (hne ho) hb]
    intro hp
    have hold := hat h ho hp
    exact ⟨hold.path, hold.read, hold.pos, hb.trans hold.blknum, hold.lastData, hold.ne, hold.place⟩
  | ignored hnone => exact answers_none (mine_closed hnone)
  | reacked ho hw => exact absurd hw (hwrite ho)
  | more ho hw => exact absurd hw (hwrite ho)
  | last ho hw => exact absurd hw (hwrite ho)
  | failed ho hw => exact absurd hw (hwrite ho)
  | writing _ hop =>
    rw [upPacket_opcode] at hop
    split at hop
    · exact absurd hop (by decide)
    · exact absurd hop (by decide)
  | @reading path' h disk' _ _ hnone hop hname hopen hsent =>
    rw [upPacket_opcode] at hop
    split at hop
    · next hk =>
      rw [upPacket, if_pos hk, requestName_packet hpath hlen] at hname
      cases hname
      obtain ⟨rfl, rfl⟩ := TftpSession.tftpOpen_some hopen
      rw [nextCount_start hnone]
      exact answers_fetched hsent hwhole rfl hfile rfl (Nat.le_refl 1) rfl rfl
    · exact absurd hop (by decide)
  | @next h _ _ ho hw hop hnum hfull hsent =>
    have hold := hat h ho (hopen (hne ho))
    have hword := upPacket_ack hop
    obtain rfl : k = count := eq_of_number (hnear (hne ho)) (by rw [← hword, hnum, hold.blknum])
    have hlen : (dataBlock data k).length = tftpMaxPayloadSize := by
      have := hfull _ hold.lastData
      simpa [dataPacket, initPacket, htons, tftpHeaderLength] using this
    have hblk : ({ s with blknum := s.blknum + 1 } : TftpState).blknum = UInt16.ofNat (k + 1) := by
      rw [number_succ, ← hold.blknum]
    have hcount : nextCount s t k = k + 1 := by
      apply nextCount_succ (hne ho)
      cases hsent with
      | starved | ended | sent => rfl
    rw [hcount]
    refine answers_fetched hsent hwhole hold.path hfile hw (Nat.succ_pos _) hblk ?_
    obtain ⟨j, rfl⟩ : ∃ j, k = j + 1 := ⟨k - 1, by have := hold.pos; omega⟩
    rw [hold.place, hlen]
    rfl
  | finished | aborted => exact answers_none (mine_closed rfl)

end Server

section Steps

variable {me : Host} {path data : Bytes} {files : List Bytes} {x y : Net Getter} {a : Label}
  {disk : Disk} {c : Getter} {env : Env} {t : TftpState} {out : Option Bytes}

theorem AtBlock.aside {s : TftpState} {h : FileHandle} {count timer lastPkt timeouts retries : Nat}
    (ha : AtBlock path data s h count) : AtBlock path data { s with
      timer := timer, lastPkt := lastPkt, timeouts := timeouts, retries := retries } h count :=
  ⟨ha.path, ha.read, ha.pos, ha.blknum, ha.lastData, ha.ne, ha.place⟩

theorem received_own {p : Nat × Bytes} {behind : Bytes} (hpath : 0 ∉ path)
    (hlen : path.length ≤ tftpMaxFilenameLen)
    (hwhole : env.allocs = true ∧ tftpMaxPayloadSize ≤ env.reads)
    (hx : Downloading me path data files x) (hp : p ∈ x.up)
    (hnear : x.srv.peer = me → Near 65536 p.1 x.count)
    (hr : Received x.srv me ⟨p.2, behind⟩ env t out) :
    Answers me (AtBlock path data) (fun _ => IsBlock data) t (nextCount x.srv t x.count) out := by
  cases hr with
  | refused =>
    refine answers_error fun h ho hp => ?_
    rw [nextCount_keep (by simp [ho]) rfl]
    exact hx.link.session h ho hp
  | handled hacc hh =>
    have hopen := hx.link.accepted hacc
    rw [hx.up p hp] at hh
    exact handled_own (s := TftpSession.noted x.srv) hpath hlen hwhole hopen
      (fun hne => hnear (hopen hne)) hx.file (fun h ho hp => (hx.link.session h ho hp).aside) hh

theorem ticked_own (hx : Downloading me path data files x) (ht : Ticked x.srv env t out) :
    Mine me (AtBlock path data) t (nextCount x.srv t x.count) ∧ (x.srv.peer = me → ∀ p,
      out = some p → IsBlock data (blockTag t (nextCount x.srv t x.count) p, p)) := by
  cases ht with
  | lapsed hnone => exact ⟨mine_closed hnone, fun _ => nofun⟩
  | waiting hh =>
    rw [nextCount_keep (by simp [hh]) (by rfl)]
    exact ⟨fun h ho hp => (hx.link.session h ho hp).aside, fun _ => nofun⟩
  | @resent h q hh _ hp =>
    rw [nextCount_keep (by simp [hh]) (by rfl)]
    refine ⟨fun h ho hp => (hx.link.session h ho hp).aside, fun hmine p hsent _ => ?_⟩
    have hat := hx.link.session h hh hmine
    obtain rfl : q = dataPacket x.count (dataBlock data x.count) :=
      Option.some.inj (hp.symm.trans hat.lastData)
    rw [send_some hsent, dataPacket_tag (by exact hat.blknum)]
    exact ⟨rfl, hat.pos, hat.ne⟩
  | expired => exact ⟨mine_closed rfl, fun _ => nofun⟩

theorem take_received {p : Nat × Bytes} (hx : Downloading me path data files x) (hp : p ∈ x.down)
    (hnear : Near 65536 p.1 x.client.awaited) :
    (Getter.take x.client p.2).received =
      data.take (tftpMaxPayloadSize * (Getter.take x.client p.2).blocks) ∧
    ((Getter.take x.client p.2).ended = some true →
      last data ≤ (Getter.take x.client p.2).blocks ∧
      dataBlock data (Getter.take x.client p.2).blocks ≠ [] ∧
      1 ≤ (Getter.take x.client p.2).blocks) := by
  rw [Getter.take]
  split
  · exact ⟨hx.received, hx.ended⟩
  split
  · exact ⟨hx.received, nofun⟩
  split
  · next hdata =>
    obtain ⟨hbytes, -, hne⟩ := hx.link.down p hp hdata.1
    have hnum : UInt16.ofNat p.1 = UInt16.ofNat (x.client.blocks + 1) := by
      rw [← hdata.2, hbytes, (word_dataPacket _ _).2]
    have hj : p.1 = x.client.blocks + 1 := eq_of_number hnear hnum
    have hchunk : p.2.drop tftpHeaderLength = dataBlock data (x.client.blocks + 1) := by
      rw [hbytes, hj]
      rfl
    rw [hj] at hne
    dsimp only
    rw [hchunk, hx.received]
    refine ⟨take_append_block _ _ _, fun hend => ⟨?_, hne, Nat.succ_pos _⟩⟩
    split at hend
    · next hshort => exact (block_length_lt_iff (by decide) (Nat.succ_pos _)).1 hshort
    · cases hend
  · exact ⟨hx.received, hx.ended⟩

theorem downloading_step (hme : me.addr ≠ 0 ∧ me.port ≠ 0) (hpath : 0 ∉ path)
    (hlen : path.length ≤ tftpMaxFilenameLen) (hx : Downloading me path data files x)
    (hstep : (machine (getter path) me disk c).Step x a y) (hserved : Served me path x a y) :
    Downloading me path data files y := by
  have hmove := step_move hstep
  have hfair := hserved.fair
  obtain ⟨hlink, -⟩ := hx.link.step hme (E := fun _ => IsBlock data) (fun _ _ h => h) hmove
    (fun i p behind env t out ha hup hr => received_own hpath hlen
      (hserved.whole env (congrArg Label.env ha)) hx (List.mem_of_getElem? hup)
      (hfair.up i behind env p ha hup) hr)
    (fun env t out _ ht => ticked_own hx ht)
    (fun node h _ hs => ⟨hs.path, hs.read, hs.pos, hs.blknum, hs.lastData, hs.ne, hs.place⟩)
  have hfile : y.srv.disk.read path = some data := hserved.kept.trans hx.file
  cases hmove with
  | @transmit p hp hy =>
    subst hy
    refine ⟨hlink, hfile, fun q hq => ?_, hx.received, hx.ended⟩
    rcases List.mem_append.1 hq with hq | hq
    · exact hx.up q hq
    · rw [List.mem_singleton.1 hq]
      change (if x.client.ended = some false then none else _) = some p at hp
      split at hp
      · cases hp
      · cases hp
        rfl
  | @toClient i p hdown hy =>
    subst hy
    obtain ⟨hreceived, hended⟩ :=
      take_received hx (List.mem_of_getElem? hdown) (hfair.down i p rfl hdown)
    exact ⟨hlink, hfile, hx.up, hreceived, hended⟩
  | files hy | toServer _ _ hy | other _ _ _ _ hy | tick _ hy =>
    subst hy
    exact ⟨hlink, hfile, hx.up, hx.received, hx.ended⟩

theorem downloading_run {as : List Label} (hme : me.addr ≠ 0 ∧ me.port ≠ 0) (hpath : 0 ∉ path)
    (hlen : path.length ≤ tftpMaxFilenameLen) (hfile : disk.read path = some data)
    (hinit : (machine (getter path) me disk ⟨[], 0, none⟩).init x)
    (hrun : Along (machine (getter path) me disk ⟨[], 0, none⟩) (Served me path) x as y) :
    Downloading me path data disk.handles y := by
  apply hrun.invariant (.init hinit)
  · rw [hinit]
    exact ⟨⟨.init disk, fun hne => absurd rfl hne, mine_closed rfl, nofun⟩, hfile, nofun, rfl, nofun⟩
  · intro t a u _ ht hstep hserved
    exact downloading_step hme hpath hlen ht hstep hserved

end Steps

section Progress

variable {me : Host} {path data : Bytes} {disk : Disk} {c : Getter} {x : Net Getter} {k : Nat}

structure At (me : Host) (path data : Bytes) (x : Net Getter) (k : Nat) : Prop where
  client : x.client = ⟨data.take (tftpMaxPayloadSize * k), k, none⟩
  peer : x.srv.peer = me
  session : ∃ h, x.srv.handle = some h ∧ AtBlock path data x.srv h k
  count : x.count = k
  file : x.srv.disk.read path = some data

theorem take_block (data : Bytes) (k : Nat) :
    Getter.take ⟨data.take (tftpMaxPayloadSize * k), k, none⟩
        (dataPacket (k + 1) (dataBlock data (k + 1))) =
      ⟨data.take (tftpMaxPayloadSize * (k + 1)), k + 1,
        if last data ≤ k + 1 then some true else none⟩ := by
  have hchunk : (dataPacket (k + 1) (dataBlock data (k + 1))).drop tftpHeaderLength =
      dataBlock data (k + 1) := rfl
  obtain ⟨hop, hnum⟩ := word_dataPacket (k + 1) (dataBlock data (k + 1))
  have hshort : (dataBlock data (k + 1)).length < tftpMaxPayloadSize ↔ last data ≤ k + 1 :=
    block_length_lt_iff (by decide) (Nat.succ_pos k)
  rw [Getter.take, hop, hnum, if_neg (by simp), if_neg (by decide), if_pos ⟨rfl, rfl⟩]
  simp only [hchunk, hshort]
  rw [dataBlock, take_append_block]

theorem fetched_block {s : TftpState} {h : FileHandle} (ho : s.handle = some h) (hpath : h.path = path)
    (hfile : s.disk.read path = some data) (hplace : h.pos = tftpMaxPayloadSize * k)
    (hblk : s.blknum = UInt16.ofNat (k + 1)) (hne : dataBlock data (k + 1) ≠ []) :
    sendData s good = .ok ({ s with
      lastData := some (dataPacket (k + 1) (dataBlock data (k + 1)))
      handle := some ⟨path, h.pos + (dataBlock data (k + 1)).length⟩ },
      some (dataPacket (k + 1) (dataBlock data (k + 1)))) := by
  subst hpath
  have hchunk : fread s.disk h tftpMaxPayloadSize good = dataBlock data (k + 1) := by
    rw [fread, hfile, hplace]
    rfl
  rw [sendData, if_neg (by decide)]
  split
  · next hnone =>
    rw [ho] at hnone
    cases hnone
  · next h' ho' =>
    obtain rfl : h' = h := Option.some.inj (ho'.symm.trans ho)
    rw [sendChunk, hchunk, if_neg hne, hblk]
    rfl

theorem session_block {s : TftpState} {h : FileHandle}
    (hw : s.modeWrite = false) (hplace : h.pos = tftpMaxPayloadSize * k)
    (hblk : s.blknum = UInt16.ofNat (k + 1)) (hne : dataBlock data (k + 1) ≠ []) :
    AtBlock path data { s with
      lastData := some (dataPacket (k + 1) (dataBlock data (k + 1)))
      handle := some ⟨path, h.pos + (dataBlock data (k + 1)).length⟩ }
      ⟨path, h.pos + (dataBlock data (k + 1)).length⟩ (k + 1) :=
  ⟨rfl, hw, Nat.succ_pos k, hblk, rfl, hne, congrArg (· + _) hplace⟩

theorem served_of_quick {s t : TftpState} {as : List Label} {y : Net Getter}
    (hkept : t.disk.read path = s.disk.read path)
    (hrun : Along (machine (getter path) me disk c) (Quick Getter.awaited me path good s t) x as y) :
    Along (machine (getter path) me disk c) (Served me path) x as y := by
  apply hrun.imp
  rintro u a v ⟨hfair, henv, hsrv⟩
  refine ⟨hfair, fun e he => ?_, ?_⟩
  · rw [henv e he]
    exact ⟨rfl, Nat.le_refl _⟩
  · rcases hsrv with hv | ⟨hu, hv⟩
    · rw [hv]
    · rw [hu, hv, hkept]

theorem block_taken {t : TftpState} {h : FileHandle}
    (hpacket : (getter path).packet x.client = some (k, upPacket path k))
    (hclient : x.client = ⟨data.take (tftpMaxPayloadSize * k), k, none⟩)
    (hnear : x.srv.peer = me → Near 65536 k x.count)
    (ht : tftpRecv x.srv me ⟨upPacket path k, []⟩ good =
      .ok (t, some (dataPacket (k + 1) (dataBlock data (k + 1)))))
    (hcount : nextCount x.srv t x.count = k + 1) (hpeer : t.peer = me) (ho : t.handle = some h)
    (hat : AtBlock path data t h (k + 1)) (hfile : x.srv.disk.read path = some data)
    (hkept : t.disk.read path = x.srv.disk.read path) : ∃ as y,
    Along (machine (getter path) me disk c) (Served me path) x as y ∧
      (k + 1 < last data → At me path data y (k + 1)) ∧
      (k + 1 = last data → y.client.ended = some true) := by
  obtain ⟨y, hrun, hsrv, hy, htake⟩ := exchange Getter.awaited path disk c hpacket ht hnear
    (by rw [hcount, dataPacket_tag hat.blknum, hclient]; exact near_self (k + 1))
  have htaken : y.client = ⟨data.take (tftpMaxPayloadSize * (k + 1)), k + 1,
      if last data ≤ k + 1 then some true else none⟩ := by
    rw [htake, hclient]
    dsimp only [getter]
    rw [take_block]
  refine ⟨_, y, served_of_quick hkept hrun, fun hlt => ?_, fun heq => ?_⟩
  · rw [if_neg (Nat.not_le_of_lt hlt)] at htaken
    subst hsrv
    exact ⟨htaken, hpeer, ⟨h, ho, hat⟩, hy.trans hcount, hkept.trans hfile⟩
  · rw [htaken, if_pos (Nat.le_of_eq heq.symm)]

theorem ack_exchanged (hx : At me path data x k) (hk : k < last data)
    (hne : dataBlock data (k + 1) ≠ []) : ∃ as y,
    Along (machine (getter path) me disk c) (Served me path) x as y ∧
      (k + 1 < last data → At me path data y (k + 1)) ∧
      (k + 1 = last data → y.client.ended = some true) := by
  obtain ⟨h, ho, hat⟩ := hx.session
  have hpos := hat.pos
  have hop : Datagram.word ⟨upPacket path k, []⟩ 0 = tftpAck := by
    rw [upPacket_opcode, if_neg (by omega)]
  have hfull : (dataBlock data k).length = tftpMaxPayloadSize := by
    apply Nat.le_antisymm (block_length_le _ _ _)
    by_contra hlt
    have := (block_length_lt_iff (by decide) hpos).1 (Nat.lt_of_not_le hlt)
    exact absurd hk (Nat.not_lt_of_le this)
  have hplace : h.pos = tftpMaxPayloadSize * k := by
    rw [hat.place, hfull, ← Nat.mul_succ]
    congr 1
    omega
  have hblk : x.srv.blknum + 1 = UInt16.ofNat (k + 1) := by rw [hat.blknum, number_succ]
  have hpacket : (dataPacket k (dataBlock data k)).length = tftpMaxPayloadSize + tftpHeaderLength := by
    rw [← hfull]
    rfl
  let s : TftpState := { TftpSession.noted x.srv with blknum := x.srv.blknum + 1 }
  have hsend := fetched_block (s := s) ho hat.path hx.file hplace hblk hne
  have hlast : lastpkt (TftpSession.noted x.srv) = false := by
    rw [lastpkt, show (TftpSession.noted x.srv).lastData = _ from hat.lastData]
    simpa using hpacket
  have hrecv : tftpRecv x.srv me ⟨upPacket path k, []⟩ good = sendData s good := by
    have hopen : (TftpSession.noted x.srv).handle = some h := ho
    have hnum : Datagram.word ⟨upPacket path k, []⟩ 1 = (TftpSession.noted x.srv).blknum :=
      (upPacket_ack hop).trans hat.blknum.symm
    have hread : (TftpSession.noted x.srv).modeWrite = false := hat.read
    rw [tftpRecv_ack (accepts_peer hx.peer) hop, recvAck, if_neg (by simp [hopen]),
      if_neg (by simp [hread]), if_neg (not_not_intro hnum), hlast]
    rfl
  refine block_taken (by rw [hx.client]; rfl) hx.client
    (fun _ => by rw [hx.count]; exact near_self k) (hrecv.trans hsend) ?_ hx.peer rfl
    (session_block hat.read hplace hblk hne) hx.file rfl
  rw [nextCount_succ (by simp [ho]) (by rfl), hx.count]

theorem request_exchanged (hpath : 0 ∉ path) (hlen : path.length ≤ tftpMaxFilenameLen)
    (hfile : disk.read path = some data) (hne : dataBlock data 1 ≠ [])
    (hinit : (machine (getter path) me disk ⟨[], 0, none⟩).init x) : ∃ as y,
    Along (machine (getter path) me disk ⟨[], 0, none⟩) (Served me path) x as y ∧
      (1 < last data → At me path data y 1) ∧ (1 = last data → y.client.ended = some true) := by
  subst hinit
  have hnode : disk.node path = some (.file data) := by
    rw [Disk.read] at hfile
    split at hfile
    · next hnode =>
      cases hfile
      exact hnode
    · cases hfile
  have hopen : tftpOpen disk path false good = some (⟨path, 0⟩, openRead disk path) := by
    rw [tftpOpen, hnode]
    rfl
  let s := TftpSession.opened (TftpSession.noted (tftpInit disk)) me ⟨path, 0⟩ (openRead disk path) false
  have hsend := fetched_block (s := s) (k := 0) rfl rfl hfile rfl rfl hne
  have hrecv : tftpRecv (tftpInit disk) me ⟨upPacket path 0, []⟩ good = sendData s good := by
    rw [tftpRecv_request false rfl upPacket_opcode]
    exact recvRequest_packet rfl hpath hlen hopen
  exact block_taken (k := 0) rfl rfl (fun _ => near_of_le (Nat.zero_le 1) (Nat.succ_lt_succ (Nat.succ_pos _)))
    (hrecv.trans hsend) rfl rfl rfl (session_block rfl rfl rfl hne) hfile rfl

theorem block_ne_nil (hdvd : ¬ tftpMaxPayloadSize ∣ data.length) (hk : k < last data) :
    dataBlock data (k + 1) ≠ [] := by
  intro hnil
  have hle : data.length ≤ tftpMaxPayloadSize * k := (block_eq_nil_iff (by decide)).1 hnil
  rcases Nat.eq_zero_or_pos k with rfl | hpos
  · apply hdvd
    rw [Nat.le_zero.1 hle]
    exact Nat.dvd_zero _
  · have hge := (lt_lastBlock_iff (by decide)).1 hk
    apply hdvd
    rw [Nat.le_antisymm hle hge]
    exact Nat.dvd_mul_right _ _

theorem blocks_exchanged (hdvd : ¬ tftpMaxPayloadSize ∣ data.length) (n : Nat)
    (hn : k + n + 1 = last data) (hx : At me path data x k) : ∃ as y,
    Along (machine (getter path) me disk c) (Served me path) x as y ∧ y.client.ended = some true := by
  induction n generalizing k x with
  | zero =>
    obtain ⟨as, y, hrun, -, hend⟩ := ack_exchanged hx (by omega) (block_ne_nil hdvd (by omega))
    exact ⟨as, y, hrun, hend hn⟩
  | succ n ih =>
    obtain ⟨as, y, hrun, hat, -⟩ := ack_exchanged hx (by omega) (block_ne_nil hdvd (by omega))
    obtain ⟨bs, z, hrest, hend⟩ := ih (by omega) (hat (by omega))
    exact ⟨as ++ bs, z, hrun.append hrest, hend⟩

theorem download_possible (hpath : 0 ∉ path) (hlen : path.length ≤ tftpMaxFilenameLen)
    (hfile : disk.read path = some data) (hdvd : ¬ tftpMaxPayloadSize ∣ data.length)
    (hinit : (machine (getter path) me disk ⟨[], 0, none⟩).init x) : ∃ as y,
    Along (machine (getter path) me disk ⟨[], 0, none⟩) (Served me path) x as y ∧
      y.client.ended = some true := by
  have hpos : 1 ≤ last data := Nat.succ_pos _
  obtain ⟨as, y, hrun, hat, hend⟩ :=
    request_exchanged hpath hlen hfile (block_ne_nil hdvd hpos) hinit
  rcases Nat.eq_or_lt_of_le hpos with heq | hlt
  · exact ⟨as, y, hrun, hend heq⟩
  · obtain ⟨bs, z, hrest, hz⟩ := blocks_exchanged hdvd (last data - 2) (by omega) (hat hlt)
    exact ⟨as ++ bs, z, hrun.append hrest, hz⟩

end Progress

section Outcome

variable {me : Host} {path data : Bytes} {disk : Disk} {x : Net Getter}

/-- Whatever becomes of the datagrams, a client has only received a beginning of
the file, and all of it when it has finished. It can finish unless the size of
the file is a multiple of the block's: the server has no empty block to end such
a transfer with. -/
theorem download_reliable (hme : me.addr ≠ 0 ∧ me.port ≠ 0) (hpath : 0 ∉ path)
    (hlen : path.length ≤ tftpMaxFilenameLen) (hfile : disk.read path = some data)
    (hinit : (machine (getter path) me disk ⟨[], 0, none⟩).init x) :
    (∀ as y, Along (machine (getter path) me disk ⟨[], 0, none⟩) (Served me path) x as y →
      y.client.received <+: data ∧ (y.client.ended = some true → y.client.received = data)) ∧
    ((∃ as y, Along (machine (getter path) me disk ⟨[], 0, none⟩) (Served me path) x as y ∧
      y.client.ended = some true) ↔ ¬ tftpMaxPayloadSize ∣ data.length) := by
  refine ⟨fun as y hrun => ?_, ?_, fun hdvd => download_possible hpath hlen hfile hdvd hinit⟩
  · have hy := downloading_run hme hpath hlen hfile hinit hrun
    rw [hy.received]
    exact ⟨List.take_prefix _ _, fun hend => take_of_lastBlock_le (by decide) (hy.ended hend).1⟩
  · rintro ⟨as, y, hrun, hend⟩ ⟨k, hk⟩
    obtain ⟨hlast, hne, hpos⟩ := (downloading_run hme hpath hlen hfile hinit hrun).ended hend
    apply hne
    apply (block_eq_nil_iff (by decide)).2
    have hcount : last data = k + 1 := by
      rw [last, lastBlock, hk, Nat.mul_div_cancel_left k (by decide)]
    rw [hk]
    apply Nat.mul_le_mul_left
    omega

end Outcome

def stored : Disk := ⟨fun p => if p = [97] then some (.file [1, 2, 3]) else none, []⟩

theorem download_reliable_stored : ∃ as y,
    Along (machine (getter [97]) TftpSession.writer stored ⟨[], 0, none⟩)
      (Served TftpSession.writer [97]) ⟨tftpInit stored, 1, ⟨[], 0, none⟩, [], []⟩ as y ∧
      y.client.received = [1, 2, 3] := by
  obtain ⟨hsafe, hfinish⟩ := @download_reliable TftpSession.writer [97] [1, 2, 3] stored _
    (by decide) (by decide) (by decide) rfl rfl
  obtain ⟨as, y, hrun, hend⟩ := hfinish.2 (by decide)
  exact ⟨as, y, hrun, (hsafe as y hrun).2 hend⟩

end WirelessGateway.TftpDownload
