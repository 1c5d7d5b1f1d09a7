import WirelessGateway.Lib.Blocks
import WirelessGateway.TftpSession

namespace WirelessGateway.TftpNet

open CJson Tftp TftpSession Lib.Runs Lib.Blocks
open WebFiles (Disk Node)

theorem word_htons (w : UInt16) (rest : Bytes) : word (htons w ++ rest) 0 = w := by
  have h := w.toNat_lt
  apply UInt16.toNat.inj
  simp only [word, htons, List.cons_append, List.nil_append, Nat.mul_zero, Nat.zero_add,
    List.getD_cons_zero, List.getD_cons_succ, UInt8.toNat_ofNat', UInt16.toNat_ofNat']
  omega

theorem word_succ (w : UInt16) (mem : Bytes) (i : Nat) : word (htons w ++ mem) (i + 1) = word mem i :=
  rfl

theorem word_initPacket_zero (op x : UInt16) (rest : Bytes) : word (initPacket op x ++ rest) 0 = op := by
  rw [initPacket, List.append_assoc, word_htons]

theorem word_initPacket_one (op x : UInt16) (rest : Bytes) : word (initPacket op x ++ rest) 1 = x := by
  rw [initPacket, List.append_assoc, word_succ, word_htons]

theorem eq_of_number {j k : Nat} (h : Near 65536 j k) (hnum : UInt16.ofNat j = UInt16.ofNat k) :
    j = k := by
  apply h.eq_of_mod
  simpa using congrArg UInt16.toNat hnum

theorem number_succ (k : Nat) : UInt16.ofNat (k + 1) = UInt16.ofNat k + 1 := UInt16.ofNat_add k 1

theorem ne_succ (w : UInt16) : w ≠ w + 1 := by
  intro h
  have := congrArg UInt16.toNat h
  rw [UInt16.toNat_add] at this
  have := w.toNat_lt
  have : (1 : UInt16).toNat = 1 := rfl
  omega

def dataPacket (k : Nat) (chunk : Bytes) : Bytes := initPacket tftpData (UInt16.ofNat k) ++ chunk

def ackPacket (k : Nat) : Bytes := initPacket tftpAck (UInt16.ofNat k)

def octet : Bytes := bytes ['o', 'c', 't', 'e', 't']

def requestPacket (opcode : UInt16) (path : Bytes) : Bytes :=
  htons opcode ++ path ++ [0] ++ octet ++ [0]

/-- What a client may send now, with the number of the block that it is about,
and what it does with a packet of the server. -/
structure Client (γ : Type) where
  packet : γ → Option (Nat × Bytes)
  take : γ → Bytes → γ

/-- The server and one of its clients. A packet that has been sent stays on the
wire: it may arrive late, more than once, in any order or never. The number of
the block that the server has in hand is counted along, of which blknum keeps
the low 16 bits, and each packet has the number of the block that it is about. -/
structure Net (γ : Type) where
  srv : TftpState
  count : Nat
  client : γ
  up : List (Nat × Bytes)
  down : List (Nat × Bytes)

inductive Label
  | transmit
  | toServer (i : Nat) (behind : Bytes) (env : Env)
  | toClient (i : Nat)
  | other (host : Host) (d : Datagram) (env : Env)
  | tick (env : Env)
  | files (node : Bytes → Option Node)

def Label.env : Label → Option Env
  | .toServer _ _ env | .other _ _ env | .tick env => some env
  | _ => none

def nextCount (s t : TftpState) (count : Nat) : Nat :=
  if s.handle.isNone then 1 else if t.blknum = s.blknum then count else count + 1

def blockTag (t : TftpState) (count : Nat) (p : Bytes) : Nat :=
  if word p 1 = t.blknum then count else count - 1

section Machine

variable {γ : Type} (C : Client γ) (me : Host)

def Net.served (x : Net γ) (host : Host) (r : TftpState × Option Bytes) : Net γ :=
  let count := nextCount x.srv r.1 x.count
  { x with
    srv := r.1
    count := count
    down := x.down ++
      if host = me then r.2.toList.map (fun p => (blockTag r.1 count p, p)) else [] }

def Net.run (x : Net γ) (host : Host) (r : Outcome) : Except Fault (Net γ) :=
  r.map (x.served me host)

def step (x : Net γ) : Label → Option (Except Fault (Net γ))
  | .transmit => (C.packet x.client).map (fun p => .ok { x with up := x.up ++ [p] })
  | .toServer i behind env =>
    x.up[i]?.map (fun p => x.run me me (tftpRecv x.srv me ⟨p.2, behind⟩ env))
  | .toClient i => x.down[i]?.map (fun p => .ok { x with client := C.take x.client p.2 })
  | .other host d env =>
    if host ≠ me ∧ host.addr ≠ 0 ∧ host.port ≠ 0 then
      some (x.run me host (tftpRecv x.srv host d env))
    else none
  | .tick env =>
    if x.srv.timeouts = 0 then none else some (x.run me x.srv.peer (tftpTmr x.srv env))
  | .files node => some (.ok { x with srv := { x.srv with disk := { x.srv.disk with node := node } } })

def machine (disk : Disk) (c : γ) : Machine (Net γ) Label Fault where
  init x := x = ⟨tftpInit disk, 1, c, [], []⟩
  step := step C me

/-- A datagram is not delivered once the transfer is 65536 blocks further on, and
the other tasks leave the file of the transfer alone. The client awaits the block
of the given number. -/
structure Fair (num : γ → Nat) (me : Host) (path : Bytes) (x : Net γ) (a : Label) (_ : Net γ) :
    Prop where
  up : ∀ i behind env p, a = .toServer i behind env → x.up[i]? = some p → x.srv.peer = me →
    Near 65536 p.1 x.count
  down : ∀ i p, a = .toClient i → x.down[i]? = some p → Near 65536 p.1 (num x.client)
  files : ∀ node, a = .files node → node path = x.srv.disk.node path

inductive Move (x y : Net γ) : Label → Prop
  | transmit {p : Nat × Bytes} (hp : C.packet x.client = some p)
      (hy : y = { x with up := x.up ++ [p] }) : Move x y .transmit
  | toServer {i : Nat} {p : Nat × Bytes} {behind : Bytes} {env : Env} {t : TftpState}
      {out : Option Bytes} (hup : x.up[i]? = some p)
      (hr : Received x.srv me ⟨p.2, behind⟩ env t out) (hy : y = x.served me me (t, out)) :
      Move x y (.toServer i behind env)
  | toClient {i : Nat} {p : Nat × Bytes} (hdown : x.down[i]? = some p)
      (hy : y = { x with client := C.take x.client p.2 }) : Move x y (.toClient i)
  | other {host : Host} {d : Datagram} {env : Env} {t : TftpState} {out : Option Bytes}
      (hne : host ≠ me) (haddr : host.addr ≠ 0) (hport : host.port ≠ 0)
      (hr : Received x.srv host d env t out) (hy : y = x.served me host (t, out)) :
      Move x y (.other host d env)
  | tick {env : Env} {t : TftpState} {out : Option Bytes} (ht : Ticked x.srv env t out)
      (hy : y = x.served me x.srv.peer (t, out)) : Move x y (.tick env)
  | files {node : Bytes → Option Node}
      (hy : y = { x with srv := { x.srv with disk := { x.srv.disk with node := node } } }) :
      Move x y (.files node)

end Machine

variable {γ : Type} {C : Client γ} {me : Host} {disk : Disk} {c : γ} {x y : Net γ} {a : Label}

theorem handled_peer {s t : TftpState} {host : Host} {d : Datagram} {env : Env} {out : Option Bytes}
    (h : Handled s host d env t out) (hne : t.handle ≠ none) :
    t.peer = host ∨ t.peer = s.peer ∧ s.handle ≠ none := by
  cases h with
  | errored | ignored | reacked | more => exact .inr ⟨rfl, hne⟩
  | writing => exact .inl rfl
  | reading _ _ _ _ hsent =>
    cases hsent with
    | starved | sent => exact .inl rfl
    | ended => exact absurd rfl hne
  | last | failed | finished | aborted => exact absurd rfl hne
  | next hh _ _ _ _ hsent =>
    cases hsent with
    | starved | sent => exact .inr ⟨rfl, by simp [hh]⟩
    | ended => exact absurd rfl hne

theorem received_peer {s t : TftpState} {host : Host} {d : Datagram} {env : Env} {out : Option Bytes}
    (h : Received s host d env t out) (hne : t.handle ≠ none) :
    t.peer = host ∨ t.peer = s.peer ∧ s.handle ≠ none := by
  cases h with
  | refused => exact .inr ⟨rfl, hne⟩
  | handled _ hh =>
    have hpeer := handled_peer hh hne
    exact hpeer

theorem ticked_peer {s t : TftpState} {env : Env} {out : Option Bytes} (h : Ticked s env t out)
    (hne : t.handle ≠ none) : t.peer = s.peer ∧ s.handle ≠ none := by
  cases h with
  | lapsed | waiting | resent => exact ⟨rfl, hne⟩
  | expired => exact absurd rfl hne

/-- A host with an address and a port has no datagram accepted while another
one's session is open. -/
theorem peer_of_accepts {s : TftpState} {host : Host} (haddr : s.addr ≠ 0) (hport : s.port ≠ 0)
    (hacc : accepts s host = true) : s.peer = host := by
  by_contra hne
  rw [not_accepts (c := s.peer) haddr hport rfl (Ne.symm hne)] at hacc
  cases hacc

theorem nextCount_keep {s t : TftpState} {count : Nat} (hopen : s.handle ≠ none)
    (hb : t.blknum = s.blknum) : nextCount s t count = count := by
  rw [nextCount, if_neg (by simpa using hopen), if_pos hb]

theorem nextCount_succ {s t : TftpState} {count : Nat} (hopen : s.handle ≠ none)
    (hb : t.blknum = s.blknum + 1) : nextCount s t count = count + 1 := by
  rw [nextCount, if_neg (by simpa using hopen), hb, if_neg (Ne.symm (ne_succ _))]

theorem nextCount_start {s t : TftpState} {count : Nat} (hnone : s.handle = none) :
    nextCount s t count = 1 := by
  rw [nextCount, hnone]
  rfl

theorem transmit_step {p : Nat × Bytes} (hp : C.packet x.client = some p) :
    (machine C me disk c).Step x .transmit { x with up := x.up ++ [p] } := by
  show step C me x .transmit = _
  rw [step, hp]
  rfl

theorem toServer_step {p : Nat × Bytes} {env : Env} {t : TftpState} {out : Option Bytes}
    {up : List (Nat × Bytes)} (hx : x.up = up ++ [p])
    (ht : tftpRecv x.srv me ⟨p.2, []⟩ env = .ok (t, out)) :
    (machine C me disk c).Step x (.toServer up.length [] env) (x.served me me (t, out)) := by
  show step C me x (.toServer up.length [] env) = _
  rw [step, hx, List.getElem?_concat_length, Option.map_some, ht]
  rfl

theorem toClient_step {p : Nat × Bytes} {down : List (Nat × Bytes)} (hx : x.down = down ++ [p]) :
    (machine C me disk c).Step x (.toClient down.length)
      { x with client := C.take x.client p.2 } := by
  show step C me x (.toClient down.length) = _
  rw [step, hx, List.getElem?_concat_length]
  rfl

section Exchange

variable {num : γ → Nat} {path : Bytes}

theorem fair_transmit : Fair num me path x .transmit y :=
  ⟨nofun, nofun, nofun⟩

theorem fair_toServer {p : Nat × Bytes} {env : Env} {up : List (Nat × Bytes)} (hx : x.up = up ++ [p])
    (hnear : x.srv.peer = me → Near 65536 p.1 x.count) :
    Fair num me path x (.toServer up.length [] env) y := by
  refine ⟨fun i behind env' q h hq => ?_, nofun, nofun⟩
  cases h
  rw [hx, List.getElem?_concat_length] at hq
  cases hq
  exact hnear

theorem fair_toClient {p : Nat × Bytes} {down : List (Nat × Bytes)} (hx : x.down = down ++ [p])
    (hnear : Near 65536 p.1 (num x.client)) : Fair num me path x (.toClient down.length) y := by
  refine ⟨nofun, fun i q h hq => ?_, nofun⟩
  cases h
  rw [hx, List.getElem?_concat_length] at hq
  cases hq
  exact hnear

structure Quick (num : γ → Nat) (me : Host) (path : Bytes) (env : Env) (s t : TftpState)
    (x : Net γ) (a : Label) (y : Net γ) : Prop where
  fair : Fair num me path x a y
  env : ∀ e, a.env = some e → e = env
  srv : y.srv = x.srv ∨ x.srv = s ∧ y.srv = t

theorem exchange (num : γ → Nat) (path : Bytes) (disk : Disk) (c : γ) {p : Nat × Bytes} {env : Env} {t : TftpState} {q : Bytes}
    (hp : C.packet x.client = some p) (ht : tftpRecv x.srv me ⟨p.2, []⟩ env = .ok (t, some q))
    (hup : x.srv.peer = me → Near 65536 p.1 x.count)
    (hdown : Near 65536 (blockTag t (nextCount x.srv t x.count) q) (num x.client)) :
    ∃ y, Along (machine C me disk c) (Quick num me path env x.srv t) x
      [.transmit, .toServer x.up.length [] env, .toClient x.down.length] y ∧
      y.srv = t ∧ y.count = nextCount x.srv t x.count ∧ y.client = C.take x.client q := by
  have hx₁ : ({ x with up := x.up ++ [p] } : Net γ).up = x.up ++ [p] := rfl
  have hx₂ : (({ x with up := x.up ++ [p] } : Net γ).served me me (t, some q)).down =
      x.down ++ [(blockTag t (nextCount x.srv t x.count) q, q)] := by
    simp [Net.served]
  have hsent : Quick num me path env x.srv t x .transmit { x with up := x.up ++ [p] } :=
    ⟨fair_transmit, nofun, .inl rfl⟩
  have hserved : (machine C me disk c).Step _ _ _ := toServer_step hx₁ ht
  refine ⟨_, .cons (transmit_step hp) hsent (.cons hserved
    ⟨fair_toServer hx₁ hup, fun e he => (Option.some.inj he).symm, .inr ⟨rfl, rfl⟩⟩
    (.cons (toClient_step hx₂) ⟨fair_toClient hx₂ hdown, nofun, .inl rfl⟩ .start)), rfl, rfl, rfl⟩

end Exchange

theorem near_of_le {j k : Nat} (h : j ≤ k) (hk : k < j + 65536) : Near 65536 j k := ⟨by omega, hk⟩

theorem near_self (k : Nat) : Near 65536 k k := near_of_le (Nat.le_refl k) (by omega)

theorem accepts_peer {s : TftpState} (h : s.peer = me) : accepts s me = true := by
  subst h
  simp [accepts, TftpState.peer]

theorem step_move (h : (machine C me disk c).Step x a y) : Move C me x y a := by
  have hs : step C me x a = some (.ok y) := h
  cases a with
  | transmit =>
    obtain ⟨p, hp, hy⟩ := Option.map_eq_some_iff.1 hs
    cases hy
    exact .transmit hp rfl
  | toServer i behind env =>
    obtain ⟨p, hp, hy⟩ := Option.map_eq_some_iff.1 hs
    obtain ⟨t, out, ht, hr⟩ := tftpRecv_spec x.srv me ⟨p.2, behind⟩ env
    rw [ht] at hy
    cases hy
    exact .toServer hp hr rfl
  | toClient i =>
    obtain ⟨p, hp, hy⟩ := Option.map_eq_some_iff.1 hs
    cases hy
    exact .toClient hp rfl
  | other host d env =>
    obtain ⟨t, out, ht, hr⟩ := tftpRecv_spec x.srv host d env
    rw [step, ht] at hs
    split at hs
    · next hhost =>
      cases hs
      exact .other hhost.1 hhost.2.1 hhost.2.2 hr rfl
    · cases hs
  | tick env =>
    obtain ⟨t, out, ht, hr⟩ := tftpTmr_spec x.srv env
    rw [step, ht] at hs
    split at hs
    · cases hs
    · cases hs
      exact .tick hr rfl
  | files node =>
    cases hs
    exact .files rfl

@[simp] theorem read_create (disk : Disk) (path : Bytes) : (disk.create path).read path = some [] := by
  simp [Disk.create, Disk.put, Disk.read]

theorem read_append {disk : Disk} {path content : Bytes} (data : Bytes)
    (h : disk.read path = some content) : (disk.append path data).read path = some (content ++ data) := by
  rw [Disk.read] at h
  split at h
  · next hnode =>
    cases h
    simp [Disk.read, WebUpload.append_node data hnode]
  · cases h

theorem closeHandle_read (s : TftpState) (path : Bytes) :
    (closeHandle s).disk.read path = s.disk.read path := by
  rw [closeHandle]
  dsimp only
  split <;> rfl

theorem read_congr {disk disk' : Disk} {path : Bytes} (h : disk'.node path = disk.node path) :
    disk'.read path = disk.read path := by
  rw [Disk.read, Disk.read, h]

theorem removeHeader_dataPacket (k : Nat) (chunk : Bytes) :
    removeHeader (dataPacket k chunk) = chunk := by
  have hlen : ¬ (dataPacket k chunk).length < tftpHeaderLength := by
    simp [dataPacket, initPacket, htons, tftpHeaderLength]
  rw [removeHeader, if_neg hlen]
  rfl

theorem word_append {b behind : Bytes} {op x : UInt16} {rest : Bytes}
    (h : b = initPacket op x ++ rest) : word (b ++ behind) 0 = op ∧ word (b ++ behind) 1 = x := by
  subst h
  rw [List.append_assoc]
  exact ⟨word_initPacket_zero op x _, word_initPacket_one op x _⟩

theorem word_errorPacket (code : TftpError) (str : String) :
    word (errorPacket code str) 0 = tftpErrorOp := by
  rw [errorPacket, List.append_assoc, word_initPacket_zero]

theorem send_some {env : Env} {p q : Bytes} (h : env.send p = some q) : q = p := by
  rw [Env.send] at h
  split at h
  · exact (Option.some.inj h).symm
  · cases h

theorem takeWhile_terminated {path rest : Bytes} (hpath : 0 ∉ path) :
    (path ++ 0 :: rest).takeWhile (· != 0) = path := by
  rw [List.takeWhile_append_of_pos, List.takeWhile_cons_of_neg (by simp), List.append_nil]
  intro b hb
  simpa using fun h : b = 0 => hpath (h ▸ hb)

theorem memfind_text {data text rest : Bytes} {start : Nat} (htext : 0 ∉ text)
    (hdrop : data.drop start = text ++ 0 :: rest) : memfind data start = start + text.length := by
  have hfind : (text ++ 0 :: rest).findIdx? (· == 0) = some text.length := by
    rw [List.findIdx?_append, List.findIdx?_eq_none_iff.2]
    · simp [List.findIdx?_cons]
    · intro b hb
      simpa using fun h : b = 0 => htext (h ▸ hb)
  rw [memfind, hdrop, hfind]

theorem copyPartial_text {size start : Nat} {data text rest : Bytes} (htext : 0 ∉ text)
    (hdrop : data.drop start = text ++ 0 :: rest) (hsize : text.length < size) :
    copyPartial size data (text.length + 1) start = some text := by
  rw [copyPartial, if_neg (Nat.not_lt_of_le hsize), hdrop, List.take_append,
    List.take_of_length_le (Nat.le_succ _), Nat.add_sub_cancel_left, List.take_succ_cons,
    List.take_zero, takeWhile_terminated htext]

section Requests

variable {opcode : UInt16} {path behind : Bytes}

theorem requestPacket_name : (requestPacket opcode path).drop 2 = path ++ 0 :: (octet ++ [0]) := by
  rw [requestPacket, htons, octet]
  simp

theorem requestPacket_mode :
    (requestPacket opcode path).drop (2 + path.length + 1) = octet ++ 0 :: [] := by
  rw [Nat.add_assoc, ← List.drop_drop, requestPacket_name, ← List.singleton_append,
    ← List.append_assoc]
  exact List.drop_left' (by simp)

theorem requestPacket_filename (hpath : 0 ∉ path) :
    memfind (requestPacket opcode path) 2 = 2 + path.length :=
  memfind_text hpath requestPacket_name

theorem requestName_packet (hpath : 0 ∉ path) (hlen : path.length ≤ tftpMaxFilenameLen) :
    requestName ⟨requestPacket opcode path, behind⟩ = some path := by
  rw [requestName, requestPacket_filename hpath, show 2 + path.length - 1 = path.length + 1 by omega,
    copyPartial_text hpath requestPacket_name (Nat.lt_succ_of_le hlen)]

theorem recvRequest_packet {s : TftpState} {host : Host} {isWrite : Bool} {env : Env}
    {h : FileHandle} {disk : Disk} (hnone : s.handle = none) (hpath : 0 ∉ path)
    (hlen : path.length ≤ tftpMaxFilenameLen)
    (hopen : tftpOpen s.disk path isWrite env = some (h, disk)) :
    recvRequest s host isWrite ⟨requestPacket opcode path, behind⟩ env =
      if isWrite then .ok (opened s host h disk true, sendAck env 0)
      else sendData (opened s host h disk false) env := by
  have hlen' := hlen
  rw [tftpMaxFilenameLen] at hlen'
  have hoctet : octet.length = 5 := rfl
  have hmode : memfind (requestPacket opcode path) (2 + path.length + 1) =
      2 + path.length + 1 + octet.length := memfind_text (by decide) requestPacket_mode
  have hname : copyPartial (tftpMaxFilenameLen + 1) (requestPacket opcode path)
      (2 + path.length - 1) 2 = some path := by
    rw [show 2 + path.length - 1 = path.length + 1 by omega]
    exact copyPartial_text hpath requestPacket_name (Nat.lt_succ_of_le hlen)
  have htext : copyPartial (tftpMaxModeLen + 1) (requestPacket opcode path)
      (2 + path.length + 1 + octet.length - (2 + path.length)) (2 + path.length + 1) = some octet := by
    rw [show 2 + path.length + 1 + octet.length - (2 + path.length) = octet.length + 1 by omega]
    exact copyPartial_text (by decide) requestPacket_mode (by decide)
  rw [recvRequest, if_neg (by simp [hnone])]
  dsimp only
  rw [requestPacket_filename hpath, if_neg (by rw [tftpMaxFilenameLen]; omega), hname]
  dsimp only
  rw [hmode, if_neg (by rw [tftpMaxModeLen]; omega), htext]
  dsimp only
  rw [hopen]
  cases isWrite with
  | true => rfl
  | false => rfl

end Requests

section Invariant

/-- What is to hold of the client's sessions, with the file that is open and the
number of the block in hand. -/
def Mine (me : Host) (S : TftpState → FileHandle → Nat → Prop) (s : TftpState) (count : Nat) : Prop :=
  ∀ h, s.handle = some h → s.peer = me → S s h count

structure Linked (me : Host) (S : TftpState → FileHandle → Nat → Prop) (D : Nat × Bytes → Prop)
    (files : List Bytes) (x : Net γ) : Prop where
  sound : Sound files x.srv
  peer : x.srv.handle ≠ none → x.srv.peer.addr ≠ 0 ∧ x.srv.peer.port ≠ 0
  session : Mine me S x.srv x.count
  down : ∀ p ∈ x.down, D p

def Sends (E : TftpState → Nat × Bytes → Prop) (x y : Net γ) : Prop :=
  ∀ p ∈ y.down, p ∈ x.down ∨ E y.srv p

def Answers (me : Host) (S : TftpState → FileHandle → Nat → Prop) (E : TftpState → Nat × Bytes → Prop)
    (t : TftpState) (count : Nat) (out : Option Bytes) : Prop :=
  Mine me S t count ∧ ∀ p, out = some p → E t (blockTag t count p, p)

variable {S : TftpState → FileHandle → Nat → Prop} {D : Nat × Bytes → Prop}
  {E : TftpState → Nat × Bytes → Prop} {files : List Bytes} {host : Host} {d : Datagram} {env : Env}
  {t : TftpState} {out : Option Bytes}

theorem mine_closed {count : Nat} (hnone : t.handle = none) : Mine me S t count := by
  intro h hh
  rw [hnone] at hh
  cases hh

theorem answers_none {count : Nat} (h : Mine me S t count) : Answers me S E t count none := ⟨h, nofun⟩

theorem Linked.served (hx : Linked me S D files x) (hED : ∀ t p, E t p → D p) (hsound : Sound files t)
    (hpeer : t.handle ≠ none → t.peer.addr ≠ 0 ∧ t.peer.port ≠ 0)
    (hmine : Mine me S t (nextCount x.srv t x.count))
    (hout : host = me → ∀ p, out = some p → E t (blockTag t (nextCount x.srv t x.count) p, p)) :
    Linked me S D files (x.served me host (t, out)) ∧ Sends E x (x.served me host (t, out)) := by
  have hnew : Sends E x (x.served me host (t, out)) := by
    intro p hp
    rcases List.mem_append.1 hp with hp | hp
    · exact .inl hp
    · split at hp
      · next hhost =>
        obtain ⟨q, hq, rfl⟩ := List.mem_map.1 hp
        exact .inr (hout hhost q (Option.mem_toList.1 hq))
      · cases hp
  refine ⟨⟨hsound, hpeer, hmine, fun p hp => ?_⟩, hnew⟩
  rcases hnew p hp with hp | hp
  · exact hx.down p hp
  · exact hED _ _ hp

theorem Linked.peer_received (hx : Linked me S D files x) (hhost : host.addr ≠ 0 ∧ host.port ≠ 0)
    (hr : Received x.srv host d env t out) (hne : t.handle ≠ none) :
    t.peer.addr ≠ 0 ∧ t.peer.port ≠ 0 := by
  rcases received_peer hr hne with hp | ⟨hp, hsrv⟩
  · rw [hp]
    exact hhost
  · rw [hp]
    exact hx.peer hsrv

theorem Linked.mine_other (hx : Linked me S D files x) (hme : me.addr ≠ 0 ∧ me.port ≠ 0)
    (hne : host ≠ me) (hr : Received x.srv host d env t out) :
    Mine me S t (nextCount x.srv t x.count) := by
  intro h ho hp
  have hopen : t.handle ≠ none := by simp [ho]
  rcases received_peer hr hopen with hpeer | ⟨hpeer, hsrv⟩
  · exact absurd (hpeer.symm.trans hp) hne
  · have hmine : x.srv.peer = me := hpeer.symm.trans hp
    cases hr with
    | refused =>
      rw [nextCount_keep hsrv rfl]
      exact hx.session h ho hp
    | handled hacc _ =>
      rw [not_accepts hme.1 hme.2 hmine hne] at hacc
      cases hacc

theorem Linked.accepted (hx : Linked me S D files x) (hacc : accepts x.srv me = true)
    (hne : x.srv.handle ≠ none) : x.srv.peer = me :=
  peer_of_accepts (hx.peer hne).1 (hx.peer hne).2 hacc

theorem Linked.step (hme : me.addr ≠ 0 ∧ me.port ≠ 0) (hED : ∀ t p, E t p → D p)
    (hx : Linked me S D files x) (hmove : Move C me x y a)
    (hown : ∀ i p behind env t out, a = .toServer i behind env → x.up[i]? = some p →
      Received x.srv me ⟨p.2, behind⟩ env t out →
        Answers me S E t (nextCount x.srv t x.count) out)
    (htick : ∀ env t out, a = .tick env → Ticked x.srv env t out →
      Mine me S t (nextCount x.srv t x.count) ∧
        (x.srv.peer = me → ∀ p, out = some p → E t (blockTag t (nextCount x.srv t x.count) p, p)))
    (hfiles : ∀ node h, a = .files node → S x.srv h x.count →
      S { x.srv with disk := { x.srv.disk with node := node } } h x.count) :
    Linked me S D files y ∧ Sends E x y := by
  cases hmove with
  | transmit _ hy =>
    subst hy
    exact ⟨⟨hx.sound, hx.peer, hx.session, hx.down⟩, fun _ => .inl⟩
  | toClient _ hy =>
    subst hy
    exact ⟨⟨hx.sound, hx.peer, hx.session, hx.down⟩, fun _ => .inl⟩
  | files hy =>
    subst hy
    have hs := hx.sound
    exact ⟨⟨⟨hs.closed, hs.writing, hs.armed, hs.past, hs.alive, hs.retried, hs.written, hs.handles⟩,
      hx.peer, fun h ho hp => hfiles _ h rfl (hx.session h ho hp), hx.down⟩, fun _ => .inl⟩
  | @toServer i p behind env t out hup hr hy =>
    subst hy
    obtain ⟨hmine, hout⟩ := hown i p behind env t out rfl hup hr
    exact hx.served hED (hx.sound.received hr) (hx.peer_received hme hr) hmine (fun _ => hout)
  | @other host d env t out hne haddr hport hr hy =>
    subst hy
    exact hx.served hED (hx.sound.received hr) (hx.peer_received ⟨haddr, hport⟩ hr)
      (hx.mine_other hme hne hr) (fun hhost => absurd hhost hne)
  | @tick env t out ht hy =>
    subst hy
    obtain ⟨hmine, hout⟩ := htick env t out rfl ht
    refine hx.served hED (hx.sound.ticked ht) (fun hne => ?_) hmine hout
    obtain ⟨hp, hsrv⟩ := ticked_peer ht hne
    rw [hp]
    exact hx.peer hsrv

end Invariant

section Opcodes

variable {s : TftpState} {host : Host} {d : Datagram} {env : Env}

theorem tftpRecv_accepted (hacc : accepts s host = true) : tftpRecv s host d env =
    if d.word 0 = tftpRrq then recvRequest (noted s) host false d env
    else if d.word 0 = tftpWrq then recvRequest (noted s) host true d env
    else if d.word 0 = tftpData then recvData (noted s) d env
    else if d.word 0 = tftpAck then recvAck (noted s) d env
    else if d.word 0 = tftpErrorOp then
      .ok (if s.handle.isSome then closeHandle (noted s) else noted s, none)
    else .ok (noted s, sendError env .illegalOperation "Unknown operation") := by
  rw [tftpRecv, hacc]
  rfl

theorem tftpRecv_request (isWrite : Bool) (hacc : accepts s host = true)
    (hop : d.word 0 = if isWrite then tftpWrq else tftpRrq) :
    tftpRecv s host d env = recvRequest (noted s) host isWrite d env := by
  rw [tftpRecv_accepted hacc, hop]
  cases isWrite with
  | true => rfl
  | false => rfl

theorem tftpRecv_data (hacc : accepts s host = true) (hop : d.word 0 = tftpData) :
    tftpRecv s host d env = recvData (noted s) d env := by
  rw [tftpRecv_accepted hacc, hop]
  rfl

theorem tftpRecv_ack (hacc : accepts s host = true) (hop : d.word 0 = tftpAck) :
    tftpRecv s host d env = recvAck (noted s) d env := by
  rw [tftpRecv_accepted hacc, hop]
  rfl

def good : Env := ⟨true, true, true, 512, 512⟩

end Opcodes

end WirelessGateway.TftpNet
