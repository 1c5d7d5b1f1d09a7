import WirelessGateway.TftpNet

namespace WirelessGateway.TftpUpload

open CJson Tftp TftpNet Lib.Runs Lib.Blocks Lib.Traces
open WebFiles (Disk)
open TftpSession (Received Handled Ticked Fetched Sound tftpInit)

/-- A client that keeps to RFC 1350 and sends a file: the block that it has on
the wire, where 0 is its request, and how the transfer has ended. -/
structure Putter where
  cur : Nat
  ended : Option Bool

def last (data : Bytes) : Nat := lastBlock tftpMaxPayloadSize data

def upPacket (path data : Bytes) (k : Nat) : Bytes :=
  if k = 0 then requestPacket tftpWrq path else dataPacket k (block tftpMaxPayloadSize data k)

def Putter.take (data : Bytes) (c : Putter) (p : Bytes) : Putter :=
  if c.ended.isSome then c
  else if word p 0 = tftpErrorOp then { c with ended := some false }
  else if word p 0 = tftpAck ∧ word p 1 = UInt16.ofNat c.cur then
    if c.cur = last data then { c with ended := some true } else { c with cur := c.cur + 1 }
  else c

def putter (path data : Bytes) : Client Putter where
  packet c := if c.ended.isSome then none else some (c.cur, upPacket path data c.cur)
  take := Putter.take data

def AtBlock (path data : Bytes) (s : TftpState) (h : FileHandle) (count : Nat) : Prop :=
  h.path = path ∧ s.modeWrite = true ∧ 1 ≤ count ∧ count ≤ last data ∧
    s.blknum = UInt16.ofNat count ∧
    s.disk.read path = some (data.take (tftpMaxPayloadSize * (count - 1)))

def Complete (path data : Bytes) (s : TftpState) : Prop :=
  s.handle = none ∧ s.disk.read path = some data

def IsAck (p : Nat × Bytes) : Prop := word p.2 0 = tftpAck → word p.2 1 = UInt16.ofNat p.1

/-- An acknowledgement has the number of its block, and that of the last block
is sent when the file is complete. -/
def AckOk (path data : Bytes) (t : TftpState) (p : Nat × Bytes) : Prop :=
  IsAck p ∧ (p.1 = last data → word p.2 0 = tftpAck → Complete path data t)

def Acked (data : Bytes) (x : Net Putter) : Prop :=
  ∃ p ∈ x.down, p.1 = last data ∧ word p.2 0 = tftpAck

structure Uploading (me : Host) (path data : Bytes) (files : List Bytes) (x : Net Putter) : Prop where
  link : Linked me (AtBlock path data) IsAck files x
  cur : x.client.cur ≤ last data
  up : ∀ p ∈ x.up, p.1 ≤ last data ∧ p.2 = upPacket path data p.1
  ended : x.client.ended = some true → Acked data x

theorem last_pos (data : Bytes) : 1 ≤ last data := Nat.succ_pos _

section Server

variable {me : Host} {path data : Bytes} {s t : TftpState} {count : Nat} {env : Env}
  {out : Option Bytes}

theorem answers_error {code : TftpError} {str : String} (h : Mine me (AtBlock path data) t count) :
    Answers me (AtBlock path data) (AckOk path data) t count (sendError env code str) := by
  refine ⟨h, fun p hp => ?_⟩
  have hop : word p 0 = tftpErrorOp := by rw [send_some hp, word_errorPacket]
  have hne : word p 0 ≠ tftpAck := by
    rw [hop]
    decide
  exact ⟨fun hack => absurd hack hne, fun _ hack => absurd hack hne⟩

theorem answers_ack {w : UInt16} {k : Nat} (h : Mine me (AtBlock path data) t count)
    (htag : blockTag t count (initPacket tftpAck w) = k) (hnum : w = UInt16.ofNat k)
    (hlast : k = last data → Complete path data t) :
    Answers me (AtBlock path data) (AckOk path data) t count (sendAck env w) := by
  refine ⟨h, fun p hp => ?_⟩
  rw [send_some hp, htag]
  refine ⟨fun _ => ?_, fun hk _ => hlast hk⟩
  dsimp only
  rw [← List.append_nil (initPacket _ _), word_initPacket_one, hnum]

theorem blockTag_ack (w : UInt16) (t : TftpState) (count : Nat) :
    blockTag t count (initPacket tftpAck w) = if w = t.blknum then count else count - 1 := by
  rw [blockTag, ← List.append_nil (initPacket _ _), word_initPacket_one]

theorem upPacket_data {k : Nat} {behind : Bytes}
    (hop : Datagram.word ⟨upPacket path data k, behind⟩ 0 = tftpData) :
    upPacket path data k = dataPacket k (block tftpMaxPayloadSize data k) ∧
      Datagram.word ⟨upPacket path data k, behind⟩ 1 = UInt16.ofNat k := by
  rw [upPacket] at hop ⊢
  split at hop
  · next hzero =>
    rw [Datagram.word, requestPacket] at hop
    simp only [List.append_assoc, word_htons] at hop
    exact absurd hop (by decide)
  · next hpos =>
    rw [if_neg hpos]
    exact ⟨rfl, (word_append rfl).2⟩

theorem upPacket_opcode {k : Nat} {behind : Bytes} :
    Datagram.word ⟨upPacket path data k, behind⟩ 0 = if k = 0 then tftpWrq else tftpData := by
  rw [upPacket]
  split
  · simp only [Datagram.word, requestPacket, List.append_assoc, word_htons]
  · exact (word_append rfl).1

theorem stored_read {h : FileHandle} {d : Datagram} (hh : h.path = path)
    (hpayload : removeHeader d.data = block tftpMaxPayloadSize data count) (hpos : 1 ≤ count)
    (hok : (removeHeader d.data).length ≤ env.writes)
    (hread : s.disk.read path = some (data.take (tftpMaxPayloadSize * (count - 1)))) :
    (TftpSession.stored s h d env).disk.read path = some (data.take (tftpMaxPayloadSize * count)) := by
  have hblock := take_append_block tftpMaxPayloadSize data (count - 1)
  rw [Nat.sub_add_cancel hpos] at hblock
  subst hh
  rw [← hblock, ← hpayload]
  conv_rhs => rw [← List.take_of_length_le hok]
  exact read_append _ hread

theorem handled_own {k : Nat} {behind : Bytes} (hpath : 0 ∉ path)
    (hlen : path.length ≤ tftpMaxFilenameLen) (hopen : s.handle ≠ none → s.peer = me)
    (hnear : s.handle ≠ none → Near 65536 k count) (hat : Mine me (AtBlock path data) s count)
    (hh : Handled s me ⟨upPacket path data k, behind⟩ env t out) :
    Answers me (AtBlock path data) (AckOk path data) t (nextCount s t count) out := by
  have hne : ∀ {h}, s.handle = some h → s.handle ≠ none := fun hh => by simp [hh]
  cases hh with
  | errored _ hb =>
    refine answers_error fun h ho => ?_
    have hb := hb.resolve_right (hne ho)
    rw [nextCount_keep (hne ho) hb]
    exact fun hp => hb ▸ hat h ho hp
  | ignored hnone => exact answers_none (mine_closed hnone)
  | @reacked h ho hw hnum =>
    obtain ⟨-, -, hpos, hle, hblk, -⟩ := hat h ho (hopen (hne ho))
    rw [nextCount_keep (hne ho) rfl]
    refine answers_ack (k := count - 1) hat ?_ ?_ ?_
    · rw [blockTag_ack, if_neg (fun heq => ne_succ _ (heq.trans hnum.symm))]
    · rw [hblk, ← Nat.sub_add_cancel hpos, number_succ] at hnum
      exact (UInt16.add_left_inj _).1 hnum
    · intro hlast
      omega
  | @writing path' h disk' hnone hop hname hopen =>
    rw [upPacket_opcode] at hop
    split at hop
    · next hk =>
      rw [upPacket, if_pos hk, requestName_packet hpath hlen] at hname
      cases hname
      obtain ⟨rfl, rfl⟩ := TftpSession.tftpOpen_some hopen
      rw [nextCount_start hnone]
      refine answers_ack (k := 0) (fun h ho _ => ?_) ?_ rfl ?_
      · cases ho
        exact ⟨rfl, rfl, Nat.le_refl _, last_pos data, rfl, read_create _ _⟩
      · rw [blockTag_ack]
        rfl
      · intro hlast
        have := last_pos data
        omega
    · exact absurd hop (by decide)
  | reading _ hop =>
    rw [upPacket_opcode] at hop
    split at hop
    · exact absurd hop (by decide)
    · exact absurd hop (by decide)
  | @more h ho hw hop hnum hfull hok =>
    obtain ⟨hp, -, hpos, hle, hblk, hread⟩ := hat h ho (hopen (hne ho))
    obtain ⟨hbytes, hword⟩ := upPacket_data hop
    obtain rfl : k = count := eq_of_number (hnear (hne ho)) (by rw [← hword, hnum, hblk])
    have hpayload : removeHeader (upPacket path data k) = block tftpMaxPayloadSize data k := by
      rw [hbytes, removeHeader_dataPacket]
    have hlt : k < last data := by
      by_contra hge
      have := (block_length_lt_iff (by decide) hpos).2 (Nat.le_of_not_lt hge)
      rw [← hpayload] at this
      exact absurd hfull (Nat.not_le_of_lt this)
    rw [nextCount_succ (hne ho) rfl]
    refine answers_ack (k := k) (fun h' ho' _ => ?_) ?_ hblk ?_
    · obtain rfl : h' = h := Option.some.inj (ho'.symm.trans ho)
      refine ⟨hp, hw, Nat.succ_pos _, hlt, ?_, ?_⟩
      · rw [number_succ, ← hblk]
      · exact stored_read hp hpayload hpos hok hread
    · rw [blockTag_ack, if_neg (ne_succ _)]
      rfl
    · intro hlast
      omega
  | @last h ho hw hop hnum hshort hok =>
    obtain ⟨hp, -, hpos, hle, hblk, hread⟩ := hat h ho (hopen (hne ho))
    obtain ⟨hbytes, hword⟩ := upPacket_data hop
    obtain rfl : k = count := eq_of_number (hnear (hne ho)) (by rw [← hword, hnum, hblk])
    have hpayload : removeHeader (upPacket path data k) = block tftpMaxPayloadSize data k := by
      rw [hbytes, removeHeader_dataPacket]
    have hlast : last data ≤ k := by
      apply (block_length_lt_iff (by decide) hpos).1
      rw [← hpayload]
      exact hshort
    rw [nextCount_keep (hne ho) (by rfl)]
    refine answers_ack (k := k) (mine_closed rfl) ?_ hblk fun _ => ⟨rfl, ?_⟩
    · rw [blockTag_ack]
      exact if_pos rfl
    · rw [closeHandle_read, stored_read hp hpayload hpos hok hread,
        take_of_lastBlock_le (by decide) hlast]
  | failed => exact answers_error (mine_closed rfl)
  | @next h _ _ ho hw =>
    obtain ⟨-, hwrite, -⟩ := hat h ho (hopen (hne ho))
    rw [hw] at hwrite
    cases hwrite
  | finished | aborted => exact answers_none (mine_closed rfl)

end Server

section Steps

variable {me : Host} {path data : Bytes} {files : List Bytes} {x y : Net Putter} {a : Label}
  {disk : Disk} {c : Putter}

theorem received_own {p : Nat × Bytes} {behind : Bytes} {env : Env} {t : TftpState}
    {out : Option Bytes} (hpath : 0 ∉ path) (hlen : path.length ≤ tftpMaxFilenameLen)
    (hx : Uploading me path data files x) (hp : p ∈ x.up)
    (hnear : x.srv.peer = me → Near 65536 p.1 x.count)
    (hr : Received x.srv me ⟨p.2, behind⟩ env t out) :
    Answers me (AtBlock path data) (AckOk path data) t (nextCount x.srv t x.count) out := by
  cases hr with
  | refused =>
    refine answers_error fun h ho hp => ?_
    rw [nextCount_keep (by simp [ho]) rfl]
    exact hx.link.session h ho hp
  | handled hacc hh =>
    have hopen := hx.link.accepted hacc
    rw [(hx.up p hp).2] at hh
    exact handled_own (s := TftpSession.noted x.srv) hpath hlen hopen
      (fun hne => hnear (hopen hne)) hx.link.session hh

theorem ticked_own {env : Env} {t : TftpState} {out : Option Bytes}
    (hx : Uploading me path data files x) (ht : Ticked x.srv env t out) :
    Mine me (AtBlock path data) t (nextCount x.srv t x.count) ∧ (x.srv.peer = me → ∀ p,
      out = some p → AckOk path data t (blockTag t (nextCount x.srv t x.count) p, p)) := by
  cases ht with
  | lapsed hnone => exact ⟨mine_closed hnone, fun _ => nofun⟩
  | waiting hh =>
    rw [nextCount_keep (by simp [hh]) (by rfl)]
    exact ⟨hx.link.session, fun _ => nofun⟩
  | resent hh _ hp =>
    rw [nextCount_keep (by simp [hh]) (by rfl)]
    refine ⟨hx.link.session, fun hmine => ?_⟩
    -- an upload has no packet that could be sent again
    rw [hx.link.sound.writing (hx.link.session _ hh hmine).2.1] at hp
    cases hp
  | expired => exact ⟨mine_closed rfl, fun _ => nofun⟩

theorem acked_served {host : Host} {r : TftpState × Option Bytes} (h : Acked data x) :
    Acked data (x.served me host r) := by
  obtain ⟨p, hp, hlast⟩ := h
  exact ⟨p, List.mem_append_left _ hp, hlast⟩

theorem take_cur {p : Nat × Bytes} (hx : Uploading me path data files x) (hp : p ∈ x.down)
    (hnear : Near 65536 p.1 x.client.cur) : (Putter.take data x.client p.2).cur ≤ last data ∧
      ((Putter.take data x.client p.2).ended = some true → Acked data x) := by
  rw [Putter.take]
  split
  · exact ⟨hx.cur, hx.ended⟩
  split
  · exact ⟨hx.cur, nofun⟩
  split
  · next hack =>
    have hcur : p.1 = x.client.cur :=
      eq_of_number hnear ((hx.link.down p hp hack.1).symm.trans hack.2)
    split
    · next hlast => exact ⟨hx.cur, fun _ => ⟨p, hp, hcur.trans hlast, hack.1⟩⟩
    · next hlast => exact ⟨Nat.lt_of_le_of_ne hx.cur hlast, hx.ended⟩
  · exact ⟨hx.cur, hx.ended⟩

theorem uploading_step (hme : me.addr ≠ 0 ∧ me.port ≠ 0) (hpath : 0 ∉ path)
    (hlen : path.length ≤ tftpMaxFilenameLen) (hx : Uploading me path data files x)
    (hstep : (machine (putter path data) me disk c).Step x a y)
    (hfair : Fair Putter.cur me path x a y) :
    Uploading me path data files y ∧ (Acked data y → Acked data x ∨ Complete path data y.srv) := by
  have hmove := step_move hstep
  obtain ⟨hlink, hsends⟩ := hx.link.step hme (E := AckOk path data) (fun _ _ h => h.1) hmove
    (fun i p behind env t out ha hup hr => received_own hpath hlen hx (List.mem_of_getElem? hup)
      (hfair.up i behind env p ha hup) hr)
    (fun env t out _ ht => ticked_own hx ht)
    (fun node h ha hs => ⟨hs.1, hs.2.1, hs.2.2.1, hs.2.2.2.1, hs.2.2.2.2.1,
      (read_congr (hfair.files node ha)).trans hs.2.2.2.2.2⟩)
  have hacked : Acked data y → Acked data x ∨ Complete path data y.srv := by
    rintro ⟨p, hp, hlast, hop⟩
    rcases hsends p hp with hp | hp
    · exact .inl ⟨p, hp, hlast, hop⟩
    · exact .inr (hp.2 hlast hop)
  refine ⟨?_, hacked⟩
  cases hmove with
  | @transmit p hp hy =>
    subst hy
    refine ⟨hlink, hx.cur, fun q hq => ?_, hx.ended⟩
    rcases List.mem_append.1 hq with hq | hq
    · exact hx.up q hq
    · rw [List.mem_singleton.1 hq]
      change (if x.client.ended.isSome then none else _) = some p at hp
      split at hp
      · cases hp
      · cases hp
        exact ⟨hx.cur, rfl⟩
  | @toClient i p hdown hy =>
    subst hy
    obtain ⟨hcur, hended⟩ := take_cur hx (List.mem_of_getElem? hdown) (hfair.down i p rfl hdown)
    exact ⟨hlink, hcur, hx.up, hended⟩
  | files hy =>
    subst hy
    exact ⟨hlink, hx.cur, hx.up, hx.ended⟩
  | toServer _ _ hy =>
    subst hy
    exact ⟨hlink, hx.cur, hx.up, fun hend => acked_served (hx.ended hend)⟩
  | other _ _ _ _ hy =>
    subst hy
    exact ⟨hlink, hx.cur, hx.up, fun hend => acked_served (hx.ended hend)⟩
  | tick _ hy =>
    subst hy
    exact ⟨hlink, hx.cur, hx.up, fun hend => acked_served (hx.ended hend)⟩

theorem uploading_init (me : Host) (path data : Bytes) (disk : Disk) :
    Uploading me path data disk.handles ⟨tftpInit disk, 1, ⟨0, none⟩, [], []⟩ where
  link := ⟨.init disk, fun hne => absurd rfl hne, mine_closed rfl, nofun⟩
  cur := Nat.zero_le _
  up := nofun
  ended := nofun

theorem uploading_run {as : List Label} (hme : me.addr ≠ 0 ∧ me.port ≠ 0) (hpath : 0 ∉ path)
    (hlen : path.length ≤ tftpMaxFilenameLen)
    (hinit : (machine (putter path data) me disk ⟨0, none⟩).init x)
    (hrun : Along (machine (putter path data) me disk ⟨0, none⟩) (Fair Putter.cur me path) x as y) :
    Uploading me path data disk.handles y := by
  apply hrun.invariant (.init hinit)
  · rw [hinit]
    exact uploading_init me path data disk
  · intro t a u _ ht hstep hfair
    exact (uploading_step hme hpath hlen ht hstep hfair).1

theorem upload_complete {as : List Label} (hme : me.addr ≠ 0 ∧ me.port ≠ 0) (hpath : 0 ∉ path)
    (hlen : path.length ≤ tftpMaxFilenameLen)
    (hinit : (machine (putter path data) me disk ⟨0, none⟩).init x)
    (hrun : Along (machine (putter path data) me disk ⟨0, none⟩) (Fair Putter.cur me path) x as y) :
    Mine me (AtBlock path data) y.srv y.count ∧ (y.client.ended = some true →
      ∃ bs cs z, as = bs ++ cs ∧
        Along (machine (putter path data) me disk ⟨0, none⟩) (Fair Putter.cur me path) x bs z ∧
        Complete path data z.srv) := by
  refine ⟨(uploading_run hme hpath hlen hinit hrun).link.session, fun hend => ?_⟩
  have hacked : Acked data y := (uploading_run hme hpath hlen hinit hrun).ended hend
  refine come_about hrun (X := Acked data) (D := fun z => Complete path data z.srv) ?_ hacked ?_
  · rw [hinit]
    rintro ⟨p, hp, -⟩
    cases hp
  · intro bs t a u hbs hstep hfair
    exact (uploading_step hme hpath hlen (uploading_run hme hpath hlen hinit hbs) hstep hfair).2

end Steps

section Progress

variable {me : Host} {path data : Bytes} {disk : Disk} {c : Putter} {x : Net Putter} {k : Nat}

structure At (me : Host) (x : Net Putter) (k : Nat) : Prop where
  client : x.client = ⟨k, none⟩
  handle : x.srv.handle ≠ none
  peer : x.srv.peer = me
  write : x.srv.modeWrite = true
  blknum : x.srv.blknum = UInt16.ofNat k
  count : x.count = k
  pos : 1 ≤ k

theorem take_ack (data : Bytes) (k : Nat) :
    Putter.take data ⟨k, none⟩ (initPacket tftpAck (UInt16.ofNat k)) =
      if k = last data then ⟨k, some true⟩ else ⟨k + 1, none⟩ := by
  have hzero : word (initPacket tftpAck (UInt16.ofNat k)) 0 = tftpAck := by
    rw [← List.append_nil (initPacket _ _), word_initPacket_zero]
  have hone : word (initPacket tftpAck (UInt16.ofNat k)) 1 = UInt16.ofNat k := by
    rw [← List.append_nil (initPacket _ _), word_initPacket_one]
  rw [Putter.take, hzero, hone, if_neg (by simp), if_neg (by decide), if_pos ⟨rfl, rfl⟩]

theorem recvData_block (path data : Bytes) (hx : At me x k) : ∃ t,
    tftpRecv x.srv me ⟨upPacket path data k, []⟩ good =
      .ok (t, some (initPacket tftpAck (UInt16.ofNat k))) ∧
    blockTag t (nextCount x.srv t x.count) (initPacket tftpAck (UInt16.ofNat k)) = k ∧
    (k < last data → t.handle ≠ none ∧ t.peer = me ∧ t.modeWrite = true ∧
      t.blknum = UInt16.ofNat (k + 1) ∧ nextCount x.srv t x.count = k + 1) := by
  have hk : ¬ k = 0 := by have := hx.pos; omega
  have hop : Datagram.word ⟨upPacket path data k, []⟩ 0 = tftpData := by
    rw [upPacket_opcode, if_neg hk]
  obtain ⟨hbytes, hword⟩ := upPacket_data hop
  obtain ⟨h, ho⟩ := Option.ne_none_iff_exists'.1 hx.handle
  have hrecv : recvData (TftpSession.noted x.srv) ⟨upPacket path data k, []⟩ good =
      storeBlock (TftpSession.noted x.srv) h ⟨upPacket path data k, []⟩ good := by
    have hwrite : (TftpSession.noted x.srv).modeWrite = true := hx.write
    have hblk : UInt16.ofNat k = (TftpSession.noted x.srv).blknum := hx.blknum.symm
    rw [recvData, show (TftpSession.noted x.srv).handle = some h from ho, hwrite, hword]
    exact if_pos hblk
  have hpayload : removeHeader (upPacket path data k) = block tftpMaxPayloadSize data k := by
    rw [hbytes, removeHeader_dataPacket]
  have hok : ¬ good.writes < (block tftpMaxPayloadSize data k).length :=
    Nat.not_lt_of_le (block_length_le _ _ _)
  rw [tftpRecv_data (accepts_peer hx.peer) hop, hrecv, storeBlock, hword, hpayload]
  simp only [hok, decide_false, Bool.false_eq_true, if_false]
  split
  · next hshort =>
    refine ⟨_, rfl, ?_, fun hlt => ?_⟩
    · rw [blockTag_ack, nextCount_keep hx.handle (by rfl), hx.count]
      exact if_pos hx.blknum.symm
    · have := (block_length_lt_iff (by decide) hx.pos).1 hshort
      exact absurd hlt (Nat.not_lt_of_le this)
  · refine ⟨_, rfl, ?_, fun _ => ⟨hx.handle, hx.peer, hx.write, ?_, ?_⟩⟩
    · rw [blockTag_ack, nextCount_succ hx.handle (by rfl), hx.count]
      exact if_neg (fun heq => ne_succ _ (hx.blknum.trans heq))
    · rw [number_succ, ← hx.blknum]
      rfl
    · rw [nextCount_succ hx.handle (by rfl), hx.count]

theorem block_exchanged (data : Bytes) (hx : At me x k) : ∃ as y,
    Along (machine (putter path data) me disk c) (Fair Putter.cur me path) x as y ∧
      (k < last data → At me y (k + 1)) ∧
      (k = last data → y.client.ended = some true) := by
  obtain ⟨t, ht, htag, hgo⟩ := recvData_block path data hx
  have hp : (putter path data).packet x.client = some (k, upPacket path data k) := by
    rw [hx.client]
    rfl
  obtain ⟨y, hrun, hsrv, hcount, hclient⟩ := exchange Putter.cur path disk c hp ht (fun _ => by rw [hx.count]; exact near_self k)
    (by rw [htag, hx.client]; exact near_self k)
  have htake : y.client = if k = last data then ⟨k, some true⟩ else ⟨k + 1, none⟩ := by
    rw [hclient, hx.client]
    dsimp only [putter]
    rw [take_ack]
  refine ⟨_, y, hrun.imp (fun _ _ _ h => h.fair), fun hlt => ?_, fun heq => ?_⟩
  · obtain ⟨hhandle, hpeer, hwrite, hblk, hnext⟩ := hgo hlt
    rw [if_neg (Nat.ne_of_lt hlt)] at htake
    subst hsrv
    exact ⟨htake, hhandle, hpeer, hwrite, hblk, hcount.trans hnext, Nat.succ_pos _⟩
  · rw [htake, if_pos heq]

theorem request_exchanged (hpath : 0 ∉ path) (hlen : path.length ≤ tftpMaxFilenameLen)
    (hdir : ∀ es, disk.node path ≠ some (.dir es))
    (hinit : (machine (putter path data) me disk ⟨0, none⟩).init x) : ∃ as y,
    Along (machine (putter path data) me disk ⟨0, none⟩) (Fair Putter.cur me path) x as y ∧
      At me y 1 := by
  subst hinit
  have hopen : tftpOpen disk path true good = some (⟨path, 0⟩, disk.create path) := by
    rw [tftpOpen]
    split
    · next h => cases h
    · split
      · next es hes => exact absurd hes (hdir es)
      · rfl
      · rfl
  have ht : tftpRecv (tftpInit disk) me ⟨upPacket path data 0, []⟩ good =
      .ok (TftpSession.opened (TftpSession.noted (tftpInit disk)) me ⟨path, 0⟩ (disk.create path) true,
        some (initPacket tftpAck 0)) := by
    rw [tftpRecv_request true rfl upPacket_opcode]
    exact recvRequest_packet rfl hpath hlen hopen
  obtain ⟨y, hrun, hsrv, hcount, hclient⟩ := exchange (C := putter path data) Putter.cur path disk ⟨0, none⟩
    (x := ⟨tftpInit disk, 1, ⟨0, none⟩, [], []⟩) rfl ht (fun _ => near_of_le (Nat.zero_le 1) (Nat.succ_lt_succ (Nat.succ_pos _)))
    (near_self 0)
  have htake : y.client = ⟨1, none⟩ := by
    rw [hclient]
    exact (take_ack data 0).trans (if_neg (Nat.ne_of_lt (last_pos data)))
  refine ⟨_, y, hrun.imp (fun _ _ _ h => h.fair), htake, ?_, ?_, ?_, ?_, hcount, Nat.le_refl 1⟩
  · rw [hsrv]
    exact Option.some_ne_none _
  · rw [hsrv]
    rfl
  · rw [hsrv]
    rfl
  · rw [hsrv]
    rfl

theorem blocks_exchanged (n : Nat) (hn : k + n = last data) (hx : At me x k) : ∃ as y,
    Along (machine (putter path data) me disk c) (Fair Putter.cur me path) x as y ∧
      y.client.ended = some true := by
  induction n generalizing k x with
  | zero =>
    obtain ⟨as, y, hrun, -, hend⟩ := block_exchanged data hx
    exact ⟨as, y, hrun, hend hn⟩
  | succ n ih =>
    obtain ⟨as, y, hrun, hat, -⟩ := block_exchanged data hx
    obtain ⟨bs, z, hrest, hend⟩ := ih (by omega) (hat (by omega))
    exact ⟨as ++ bs, z, hrun.append hrest, hend⟩

/-- A network that loses nothing lets every file be uploaded, of any size. -/
theorem upload_possible (hpath : 0 ∉ path) (hlen : path.length ≤ tftpMaxFilenameLen)
    (hdir : ∀ es, disk.node path ≠ some (.dir es))
    (hinit : (machine (putter path data) me disk ⟨0, none⟩).init x) : ∃ as y,
    Along (machine (putter path data) me disk ⟨0, none⟩) (Fair Putter.cur me path) x as y ∧
      y.client.ended = some true := by
  obtain ⟨as, y, hrun, hat⟩ := request_exchanged hpath hlen hdir hinit
  obtain ⟨bs, z, hrest, hend⟩ := blocks_exchanged (last data - 1)
    (Nat.add_sub_of_le (last_pos data)) hat
  exact ⟨as ++ bs, z, hrun.append hrest, hend⟩

/-- Whatever becomes of the datagrams and whatever other hosts send, a client whose
last block has been acknowledged has uploaded its file: there was a moment at
which the server had closed it with all of the data in it. While a session of the
client is open, the file holds the blocks before the one in hand. A network that
loses nothing lets every client finish, whatever the size of its data. -/
theorem upload_reliable (hme : me.addr ≠ 0 ∧ me.port ≠ 0) (hpath : 0 ∉ path)
    (hlen : path.length ≤ tftpMaxFilenameLen) (hdir : ∀ es, disk.node path ≠ some (.dir es))
    (hinit : (machine (putter path data) me disk ⟨0, none⟩).init x) :
    (∀ as y, Along (machine (putter path data) me disk ⟨0, none⟩) (Fair Putter.cur me path) x as y →
      Mine me (AtBlock path data) y.srv y.count ∧ (y.client.ended = some true →
        ∃ bs cs z, as = bs ++ cs ∧
          Along (machine (putter path data) me disk ⟨0, none⟩) (Fair Putter.cur me path) x bs z ∧
          Complete path data z.srv)) ∧
    ∃ as y, Along (machine (putter path data) me disk ⟨0, none⟩) (Fair Putter.cur me path) x as y ∧
      y.client.ended = some true :=
  ⟨fun _ _ hrun => upload_complete hme hpath hlen hinit hrun,
    upload_possible hpath hlen hdir hinit⟩

end Progress

def sample : Bytes := List.replicate 513 7

theorem upload_reliable_sample : ∃ as y,
    Along (machine (putter [97] sample) TftpSession.writer TftpSession.emptyDisk ⟨0, none⟩)
      (Fair Putter.cur TftpSession.writer [97]) ⟨tftpInit TftpSession.emptyDisk, 1, ⟨0, none⟩, [], []⟩
      as y ∧ y.client.ended = some true ∧ ∃ z : Net Putter, Complete [97] sample z.srv := by
  obtain ⟨hsafe, as, y, hrun, hend⟩ := @upload_reliable TftpSession.writer [97] sample TftpSession.emptyDisk _
    (by decide) (by decide) (by decide) nofun rfl
  obtain ⟨-, -, z, -, -, hz⟩ := (hsafe as y hrun).2 hend
  exact ⟨as, y, hrun, hend, z, hz⟩

end WirelessGateway.TftpUpload
