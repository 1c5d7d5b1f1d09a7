import Mathlib.Data.List.Basic
import Mathlib.Logic.Function.Iterate
import WirelessGateway.Lib.Fallible

namespace WirelessGateway.SlaveFrame

open Lib.Fallible

inductive PyError
  | index
  | struct
  | value
  deriving DecidableEq

abbrev Frame := List UInt8

def crcBit (crc : UInt16) : UInt16 :=
  if crc &&& 1 ≠ 0 then (crc >>> 1) ^^^ 0xA001 else crc >>> 1

def crcByte (crc : UInt16) (byte : UInt8) : UInt16 := crcBit^[8] (crc ^^^ byte.toUInt16)

def crc16 (data : Frame) : UInt16 := data.foldl crcByte 0xFFFF

/-- _append_crc: low byte first. -/
def appendCrc (frame : Frame) : Frame :=
  frame ++ [(crc16 frame &&& 0xFF).toUInt8, (crc16 frame >>> 8).toUInt8]

def checkCrc (frame : Frame) : Bool :=
  if frame.length < 3 then false
  else crc16 (frame.take (frame.length - 2)) =
    ((frame.getD (frame.length - 2) 0).toUInt16 |||
      ((frame.getD (frame.length - 1) 0).toUInt16 <<< 8))

def byteAt (raw : Frame) (i : Nat) : Except PyError UInt8 :=
  match raw[i]? with
  | some b => .ok b
  | none => .error .index

def wordAt (raw : Frame) (i : Nat) : Except PyError Nat := do
  let hi ← byteAt raw i
  let lo ← byteAt raw (i + 1)
  pure (hi.toNat * 256 + lo.toNat)

def unpackH : Frame → Except PyError Nat
  | [hi, lo] => .ok (hi.toNat * 256 + lo.toNat)
  | _ => .error .struct

def packH (w : Int) : Except PyError Frame :=
  if 0 ≤ w ∧ w < 65536 then .ok [(w.toNat / 256).toUInt8, w.toNat.toUInt8] else .error .struct

def bytesOf (vs : List Int) : Except PyError Frame :=
  vs.mapM (fun v => if 0 ≤ v ∧ v < 256 then .ok v.toNat.toUInt8 else .error .value)

/-- What the two devices have of their own behind the same frames: their
registers, and whether single registers can be written with code 6. -/
structure Slave (σ : Type) where
  address : σ → Int
  fc3 : σ → Nat → Nat → Except UInt8 (List Int)
  write : σ → Nat → List Nat → Option UInt8 × σ
  single : Bool

variable {σ : Type}

def exceptionResponse (address : Int) (fc err : UInt8) : Except PyError (Option Frame) := do
  let resp ← bytesOf [address, (fc ||| 0x80).toNat, err.toNat]
  pure (some (appendCrc resp))

/-- The answer to a write, with the address and the count or value echoed. -/
def writeResponse (address : Int) (fc : UInt8) (err : Option UInt8) (raw : Frame) :
    Except PyError (Option Frame) :=
  match err with
  | some err => exceptionResponse address fc err
  | none => do
    let resp ← bytesOf (address :: fc.toNat :: ((raw.drop 2).take 4).map (fun b => (b.toNat : Int)))
    pure (some (appendCrc resp))

def readResponse (address : Int) (words : List Int) : Except PyError (Option Frame) := do
  let body ← words.mapM packH
  let head ← bytesOf [address, 0x03, body.flatten.length]
  pure (some (appendCrc (head ++ body.flatten)))

def handleRead (S : Slave σ) (s : σ) (raw : Frame) : Except PyError (Option Frame) := do
  if raw.length < 8 then pure none
  else
    let start ← wordAt raw 2
    let count ← wordAt raw 4
    match S.fc3 s start count with
    | .error err => exceptionResponse (S.address s) 0x03 err
    | .ok words => readResponse (S.address s) words

/-- The register and the value of a request with function code 6, none where
handle returns None. -/
def singleRequest (raw : Frame) : Except PyError (Option (Nat × List Nat)) := do
  if raw.length < 8 then pure none
  else
    let addr ← wordAt raw 2
    let value ← wordAt raw 4
    pure (some (addr, [value]))

def multipleRequest (raw : Frame) : Except PyError (Option (Nat × List Nat)) := do
  if raw.length < 9 then pure none
  else
    let start ← wordAt raw 2
    let count ← wordAt raw 4
    let byteCount ← byteAt raw 6
    if raw.length < 7 + byteCount.toNat + 2 then pure none
    else
      let words ← (List.range count).mapM
        (fun i => unpackH ((raw.take (9 + i * 2)).drop (7 + i * 2)))
      pure (some (start, words))

/-- The address in the answer is that of the device after the write. -/
def handleWrite (S : Slave σ) (s : σ) (fc : UInt8) (raw : Frame)
    (request : Except PyError (Option (Nat × List Nat))) : Except PyError (Option Frame) × σ :=
  match request with
  | .error e => (.error e, s)
  | .ok none => (.ok none, s)
  | .ok (some (start, words)) =>
    let (err, s') := S.write s start words
    (writeResponse (S.address s') fc err raw, s')

/-- handle, with the device that it leaves, also where it raises an exception. -/
def handle (S : Slave σ) (s : σ) (raw : Frame) : Except PyError (Option Frame) × σ :=
  if checkCrc raw = false then (.ok none, s)
  else match byteAt raw 0, byteAt raw 1 with
    | .ok adr, .ok fc =>
      if (adr.toNat : Int) ≠ S.address s then (.ok none, s)
      else if fc = 0x03 then (handleRead S s raw, s)
      else if fc = 0x06 ∧ S.single then handleWrite S s fc raw (singleRequest raw)
      else if fc = 0x10 then handleWrite S s fc raw (multipleRequest raw)
      else (exceptionResponse (S.address s) fc 0x01, s)
    | _, _ => (.error .index, s)

example : crc16 [1, 3, 0, 0, 0, 1] = 0x0A84 := by decide +kernel

section Requests

def wordOf (raw : Frame) (i : Nat) : Nat := (raw.getD i 0).toNat * 256 + (raw.getD (i + 1) 0).toNat

def startOf (raw : Frame) : Nat := wordOf raw 2

def countOf (raw : Frame) : Nat := wordOf raw 4

def byteCountOf (raw : Frame) : Nat := (raw.getD 6 0).toNat

def wordsOf (raw : Frame) : List Nat := (List.range (countOf raw)).map (fun i => wordOf raw (7 + i * 2))

/-- The byte count is that of the words, and the data stand before the CRC. -/
def WellFormed (raw : Frame) : Prop :=
  byteCountOf raw = 2 * countOf raw ∧ 7 + byteCountOf raw + 2 ≤ raw.length

def Reaches (address : Int) (fc : UInt8) (raw : Frame) : Prop :=
  checkCrc raw = true ∧ ((raw.getD 0 0).toNat : Int) = address ∧ raw.getD 1 0 = fc

variable {raw : Frame} {i : Nat}

theorem byteAt_ok (h : i < raw.length) : byteAt raw i = .ok (raw.getD i 0) := by
  simp only [byteAt, List.getD_eq_getElem?_getD, List.getElem?_eq_getElem h, Option.getD_some]

theorem wordAt_ok (h : i + 1 < raw.length) : wordAt raw i = .ok (wordOf raw i) := by
  rw [wordAt, byteAt_ok (by omega), byteAt_ok h]
  rfl

theorem wordOf_lt (raw : Frame) (i : Nat) : wordOf raw i < 65536 := by
  have hhi := (raw.getD i 0).toNat_lt
  have hlo := (raw.getD (i + 1) 0).toNat_lt
  rw [wordOf]
  omega

theorem wordsOf_length (raw : Frame) : (wordsOf raw).length = countOf raw := by
  rw [wordsOf, List.length_map, List.length_range]

theorem wordsOf_lt : ∀ w ∈ wordsOf raw, w < 65536 := by
  intro w hw
  obtain ⟨i, -, rfl⟩ := List.mem_map.1 hw
  exact wordOf_lt raw _

theorem checkCrc_length (h : checkCrc raw = true) : 3 ≤ raw.length := by
  rw [checkCrc] at h
  split at h
  · cases h
  · omega

theorem unpackH_slice (raw : Frame) (i : Nat) :
    unpackH ((raw.take (i + 2)).drop i) =
      if i + 2 ≤ raw.length then .ok (wordOf raw i) else .error .struct := by
  have hlen := List.length_drop (l := raw) (i := i)
  have hget : ∀ k, raw.getD (i + k) 0 = (raw.drop i).getD k 0 := by
    intro k
    rw [List.getD_eq_getElem?_getD, List.getD_eq_getElem?_getD, List.getElem?_drop]
  have hhi := hget 0
  rw [Nat.add_zero] at hhi
  rw [List.drop_take, Nat.add_sub_cancel_left, wordOf, hhi, hget 1]
  generalize raw.drop i = rest at hlen
  match rest with
  | [] =>
      rw [List.length_nil] at hlen
      rw [if_neg (by omega)]
      rfl
  | [b] =>
      rw [List.length_singleton] at hlen
      rw [if_neg (by omega)]
      rfl
  | hi :: lo :: rest =>
      rw [List.length_cons, List.length_cons] at hlen
      rw [if_pos (by omega)]
      rfl

theorem singleRequest_eq (raw : Frame) :
    singleRequest raw = .ok (if raw.length < 8 then none
      else some (startOf raw, [countOf raw])) := by
  rw [singleRequest]
  by_cases h : raw.length < 8
  · rw [if_pos h, if_pos h]
    rfl
  · rw [if_neg h, if_neg h, wordAt_ok (by omega), wordAt_ok (by omega)]
    rfl

theorem multipleRequest_eq (raw : Frame) :
    multipleRequest raw =
      if raw.length < 7 + byteCountOf raw + 2 then .ok none
      else if 7 + 2 * countOf raw ≤ raw.length then .ok (some (startOf raw, wordsOf raw))
      else .error .struct := by
  rw [multipleRequest]
  by_cases hshort : raw.length < 9
  · rw [if_pos hshort, if_pos (by omega)]
    rfl
  · rw [if_neg hshort, wordAt_ok (by omega), wordAt_ok (by omega), byteAt_ok (by omega)]
    have hcount : wordOf raw 4 = countOf raw := rfl
    have hsixth : (raw.getD 6 0).toNat = byteCountOf raw := rfl
    simp only [ok_bind, hcount, hsixth]
    by_cases hbytes : raw.length < 7 + byteCountOf raw + 2
    · rw [if_pos hbytes, if_pos hbytes]
      rfl
    · rw [if_neg hbytes, if_neg hbytes]
      have hslice : ∀ i, unpackH ((raw.take (9 + i * 2)).drop (7 + i * 2)) =
          if 9 + i * 2 ≤ raw.length then .ok (wordOf raw (7 + i * 2)) else .error .struct := by
        intro i
        have hi : 9 + i * 2 = 7 + i * 2 + 2 := by omega
        rw [hi]
        exact unpackH_slice raw (7 + i * 2)
      by_cases hwords : 7 + 2 * countOf raw ≤ raw.length
      · have hall : ∀ i ∈ List.range (countOf raw),
            unpackH ((raw.take (9 + i * 2)).drop (7 + i * 2)) = .ok (wordOf raw (7 + i * 2)) := by
          intro i hi
          have hi := List.mem_range.1 hi
          rw [hslice, if_pos (by omega)]
        rw [if_pos hwords, mapM_ok hall]
        rfl
      · have hfail := mapM_error (e := PyError.struct) (l := List.range (countOf raw))
          (f := fun i => unpackH ((raw.take (9 + i * 2)).drop (7 + i * 2)))
          (fun i _ => by
            rw [hslice]
            split
            · exact Or.inr ⟨_, rfl⟩
            · exact Or.inl rfl)
          ⟨countOf raw - 1, List.mem_range.2 (by omega), by rw [hslice, if_neg (by omega)]⟩
        rw [if_neg hwords, hfail]
        rfl

end Requests

section Responses

def IsByte (v : Int) : Prop := 0 ≤ v ∧ v < 256

def IsWord (v : Int) : Prop := 0 ≤ v ∧ v < 65536

def Executed (r : Except PyError (Option Frame)) : Prop :=
  ∃ resp, r = .ok (some resp) ∧ resp[1]? = some 0x10

variable {address : Int} {fc err : UInt8} {raw : Frame}

theorem isByte_toNat (b : UInt8) : IsByte b.toNat :=
  ⟨Int.natCast_nonneg _, Int.ofNat_lt.2 b.toNat_lt⟩

theorem bytesOf_ok {vs : List Int} (h : ∀ v ∈ vs, IsByte v) :
    bytesOf vs = .ok (vs.map (fun v => v.toNat.toUInt8)) :=
  mapM_ok (fun v hv => if_pos (h v hv))

theorem exceptionResponse_ok (h : IsByte address) (fc err : UInt8) :
    ∃ resp, exceptionResponse address fc err = .ok (some resp) ∧
      resp[1]? = some (fc ||| 0x80) := by
  have hall : ∀ v ∈ [address, ((fc ||| 0x80).toNat : Int), (err.toNat : Int)], IsByte v := by
    simp only [List.forall_mem_cons, h, isByte_toNat, true_and]
    exact List.forall_mem_nil _
  rw [exceptionResponse, bytesOf_ok hall]
  refine ⟨_, rfl, ?_⟩
  simp [appendCrc]

theorem writeResponse_ok (h : IsByte address) (fc : UInt8) (raw : Frame) :
    ∃ resp, writeResponse address fc none raw = .ok (some resp) ∧ resp[1]? = some fc := by
  have hall : ∀ v ∈ address :: (fc.toNat : Int) :: ((raw.drop 2).take 4).map
      (fun b => (b.toNat : Int)), IsByte v := by
    simp only [List.forall_mem_cons, h, isByte_toNat, true_and]
    intro v hv
    obtain ⟨b, -, rfl⟩ := List.mem_map.1 hv
    exact isByte_toNat b
  rw [writeResponse, bytesOf_ok hall]
  refine ⟨_, rfl, ?_⟩
  simp [appendCrc]

theorem not_executed_none : ¬ Executed (.ok none) := by
  rintro ⟨resp, h, -⟩
  cases h

theorem not_executed_code {resp : Frame} {code : UInt8} (h : resp[1]? = some code)
    (hcode : code ≠ 0x10) : ¬ Executed (.ok (some resp)) := by
  rintro ⟨resp', hresp', h'⟩
  obtain rfl := Option.some.inj (Except.ok.inj hresp')
  rw [h] at h'
  exact hcode (Option.some.inj h')

theorem readResponse_ok_iff (h : IsByte address) {words : List Int} (hlen : words.length ≤ 125) :
    (∃ resp, readResponse address words = .ok resp) ↔ ∀ w ∈ words, IsWord w := by
  constructor
  · rintro ⟨resp, hresp⟩ w hw
    by_contra hbad
    have hfail : words.mapM packH = .error .struct := by
      refine mapM_error (fun v _ => ?_) ⟨w, hw, if_neg hbad⟩
      rw [packH]
      split
      · exact Or.inr ⟨_, rfl⟩
      · exact Or.inl rfl
    rw [readResponse, hfail] at hresp
    cases hresp
  · intro hwords
    have hpack : words.mapM packH =
        .ok (words.map (fun w => [(w.toNat / 256).toUInt8, w.toNat.toUInt8])) :=
      mapM_ok (fun w hw => if_pos (hwords w hw))
    have hbody : (words.map (fun w => [(w.toNat / 256).toUInt8, w.toNat.toUInt8])).flatten.length =
        2 * words.length := by
      rw [List.length_flatten, List.map_map]
      have hconst : (List.length ∘ fun w : Int => [(w.toNat / 256).toUInt8, w.toNat.toUInt8]) =
          fun _ => 2 := rfl
      rw [hconst, List.map_const', List.sum_replicate_nat, Nat.mul_comm]
    have hall : ∀ v ∈ [address, 0x03, ((words.map
        (fun w => [(w.toNat / 256).toUInt8, w.toNat.toUInt8])).flatten.length : Int)], IsByte v := by
      rw [hbody]
      simp only [List.forall_mem_cons, h, true_and]
      refine ⟨⟨by decide, by decide⟩, ⟨by omega, by omega⟩, List.forall_mem_nil _⟩
    rw [readResponse, hpack, ok_bind, bytesOf_ok hall]
    exact ⟨_, rfl⟩

end Responses

section Writes

/-- What the frames rely on in a device: which reads can be packed, which
writes are executed and what these store. -/
structure Lawful (S : Slave σ) (readable : σ → Nat → Nat → Prop) (writable : Nat → Nat → Prop)
    (stored : σ → Nat → List Nat → σ → Prop) : Prop where
  fc3_length : ∀ s start count words, S.fc3 s start count = .ok words → words.length ≤ 125
  fc3_words : ∀ s start count, readable s start count ↔
    ∀ words, S.fc3 s start count = .ok words → ∀ w ∈ words, IsWord w
  refused : ∀ s start words, ¬ writable start words.length →
    ∃ err, S.write s start words = (some err, s)
  accepted : ∀ s start words, writable start words.length → (S.write s start words).1 = none
  stored : ∀ s start words, writable start words.length → (∀ w ∈ words, w < 65536) →
    stored s start words (S.write s start words).2
  address : ∀ s start words, IsByte (S.address s) → IsByte (S.address (S.write s start words).2)

/-- A frame is answered or dropped, and a request to write registers is
executed as it stands or leaves the device as it was. -/
def Meets (stored : σ → Nat → List Nat → σ → Prop) (s : σ) (raw : Frame)
    (handled : Except PyError (Option Frame) × σ) : Prop :=
  (∃ resp, handled.1 = .ok resp) ∧
  (raw.getD 1 0 = 0x10 →
    (Executed handled.1 → WellFormed raw ∧ stored s (startOf raw) (wordsOf raw) handled.2) ∧
    (¬ Executed handled.1 → handled.2 = s))

/-- The registers that are read are words. Where the byte count of a write is
not that of its words, the frame has bytes for the words all the same, and
names registers that are not written. -/
def Sound (address : Int) (readable writable : Nat → Nat → Prop) (raw : Frame) : Prop :=
  (Reaches address 0x03 raw → 8 ≤ raw.length → readable (startOf raw) (countOf raw)) ∧
  (Reaches address 0x10 raw → 7 + byteCountOf raw + 2 ≤ raw.length →
    byteCountOf raw = 2 * countOf raw ∨
      (7 + 2 * countOf raw ≤ raw.length ∧ ¬ writable (startOf raw) (countOf raw)))

variable {S : Slave σ} {readable : σ → Nat → Nat → Prop} {writable : Nat → Nat → Prop}
variable {stored : σ → Nat → List Nat → σ → Prop} {s : σ} {raw : Frame} {fc : UInt8}

theorem handle_ignored (h : ¬ Reaches (S.address s) (raw.getD 1 0) raw) :
    handle S s raw = (.ok none, s) := by
  rw [handle]
  by_cases hcrc : checkCrc raw = false
  · rw [if_pos hcrc]
  · have hcrc' : checkCrc raw = true := Bool.not_eq_false _ ▸ hcrc
    have hlen := checkCrc_length hcrc'
    rw [if_neg hcrc, byteAt_ok (by omega), byteAt_ok (by omega)]
    exact if_pos (fun hadr => h ⟨hcrc', hadr, rfl⟩)

theorem handle_reaches (h : Reaches (S.address s) fc raw) :
    handle S s raw =
      if fc = 0x03 then (handleRead S s raw, s)
      else if fc = 0x06 ∧ S.single then handleWrite S s fc raw (singleRequest raw)
      else if fc = 0x10 then handleWrite S s fc raw (multipleRequest raw)
      else (exceptionResponse (S.address s) fc 0x01, s) := by
  obtain ⟨hcrc, hadr, rfl⟩ := h
  have hlen := checkCrc_length hcrc
  rw [handle, if_neg (by rw [hcrc]; decide), byteAt_ok (by omega), byteAt_ok (by omega)]
  exact if_neg (not_not.2 hadr)

theorem Reaches.isByte {address : Int} (h : Reaches address fc raw) : IsByte address :=
  h.2.1 ▸ isByte_toNat _

theorem Lawful.writeRequest (hS : Lawful S readable writable stored) (hadr : IsByte (S.address s))
    (fc : UInt8) (raw : Frame) (start : Nat) (words : List Nat) :
    (¬ writable start words.length → ∃ resp,
      handleWrite S s fc raw (.ok (some (start, words))) = (.ok (some resp), s) ∧
        resp[1]? = some (fc ||| 0x80)) ∧
    (writable start words.length → ∃ resp,
      handleWrite S s fc raw (.ok (some (start, words))) =
        (.ok (some resp), (S.write s start words).2) ∧ resp[1]? = some fc) := by
  constructor
  · intro hw
    obtain ⟨err, herr⟩ := hS.refused s start words hw
    obtain ⟨resp, hresp, hcode⟩ := exceptionResponse_ok hadr fc err
    refine ⟨resp, ?_, hcode⟩
    rw [handleWrite, herr]
    exact congrArg (fun r => (r, s)) hresp
  · intro hw
    obtain ⟨resp, hresp, hcode⟩ := writeResponse_ok (hS.address s start words hadr) fc raw
    refine ⟨resp, ?_, hcode⟩
    rw [handleWrite, ← hresp, ← hS.accepted s start words hw]

theorem Reaches.code {fc' : UInt8} {address : Int} (h : Reaches address fc raw)
    (h' : Reaches address fc' raw) : fc = fc' := h.2.2.symm.trans h'.2.2

theorem meets_of_not_write (hresp : ∃ resp, (handle S s raw).1 = .ok resp)
    (hfc : raw.getD 1 0 ≠ 0x10) : Meets stored s raw (handle S s raw) :=
  ⟨hresp, fun h => absurd h hfc⟩

theorem meets_ignored (h : ¬ Reaches (S.address s) (raw.getD 1 0) raw) : Meets stored s raw (handle S s raw) := by
  rw [Meets, handle_ignored h]
  exact ⟨⟨none, rfl⟩, fun _ => ⟨fun hex => absurd hex not_executed_none, fun _ => rfl⟩⟩

theorem Lawful.meets_read (hS : Lawful S readable writable stored)
    (h : Reaches (S.address s) 0x03 raw) :
    Meets stored s raw (handle S s raw) ↔ (8 ≤ raw.length → readable s (startOf raw) (countOf raw)) := by
  have hfc : raw.getD 1 0 ≠ 0x10 := by
    rw [h.2.2]
    decide
  have hmeets : Meets stored s raw (handle S s raw) ↔ ∃ resp, handleRead S s raw = .ok resp := by
    rw [Meets, handle_reaches h, if_pos rfl]
    exact and_iff_left (fun hwrite => absurd hwrite hfc)
  rw [hmeets, handleRead]
  by_cases hlen : raw.length < 8
  · rw [if_pos hlen]
    exact ⟨fun _ hlong => absurd hlong (by omega), fun _ => ⟨none, rfl⟩⟩
  · have hstart : wordOf raw 2 = startOf raw := rfl
    have hcount : wordOf raw 4 = countOf raw := rfl
    have hlong : 8 ≤ raw.length := by omega
    rw [if_neg hlen, wordAt_ok (by omega), wordAt_ok (by omega), hS.fc3_words]
    simp only [ok_bind, hstart, hcount, hlong, true_implies]
    cases hread : S.fc3 s (startOf raw) (countOf raw) with
    | error err =>
        obtain ⟨resp, hresp, -⟩ := exceptionResponse_ok h.isByte 0x03 err
        refine ⟨fun _ words hwords => ?_, fun _ => ⟨some resp, hresp⟩⟩
        cases hwords
    | ok words =>
        refine (readResponse_ok_iff h.isByte (hS.fc3_length _ _ _ _ hread)).trans ⟨?_, ?_⟩
        · rintro hall words' hwords'
          rwa [← Except.ok.inj hwords']
        · exact fun hall => hall words rfl

theorem Lawful.meets_single (hS : Lawful S readable writable stored)
    (h : Reaches (S.address s) 0x06 raw) : Meets stored s raw (handle S s raw) := by
  have hfc : raw.getD 1 0 ≠ 0x10 := by
    rw [h.2.2]
    decide
  refine meets_of_not_write ?_ hfc
  rw [handle_reaches h, if_neg (by decide)]
  split
  · rw [singleRequest_eq]
    split
    · exact ⟨none, rfl⟩
    · obtain ⟨hrefused, hdone⟩ :=
        hS.writeRequest h.isByte 0x06 raw (startOf raw) [countOf raw]
      by_cases hw : writable (startOf raw) [countOf raw].length
      · obtain ⟨resp, hresp, -⟩ := hdone hw
        exact ⟨some resp, congrArg Prod.fst hresp⟩
      · obtain ⟨resp, hresp, -⟩ := hrefused hw
        exact ⟨some resp, congrArg Prod.fst hresp⟩
  · obtain ⟨resp, hresp, -⟩ := exceptionResponse_ok h.isByte 0x06 0x01
    exact ⟨some resp, hresp⟩

theorem Lawful.meets_write (hS : Lawful S readable writable stored)
    (h : Reaches (S.address s) 0x10 raw) :
    Meets stored s raw (handle S s raw) ↔ (7 + byteCountOf raw + 2 ≤ raw.length →
      byteCountOf raw = 2 * countOf raw ∨
        (7 + 2 * countOf raw ≤ raw.length ∧ ¬ writable (startOf raw) (countOf raw))) := by
  have hhandle : handle S s raw = handleWrite S s 0x10 raw (multipleRequest raw) := by
    rw [handle_reaches h, if_neg (by decide), if_neg (fun h6 => absurd h6.1 (by decide)), if_pos rfl]
  obtain ⟨hrefused, hdone⟩ := hS.writeRequest h.isByte 0x10 raw (startOf raw) (wordsOf raw)
  rw [wordsOf_length] at hrefused hdone
  rw [Meets, hhandle, multipleRequest_eq]
  simp only [h.2.2, true_implies]
  by_cases hshort : raw.length < 7 + byteCountOf raw + 2
  · rw [if_pos hshort]
    refine iff_of_true ⟨⟨none, rfl⟩, fun hex => absurd hex not_executed_none, fun _ => rfl⟩ ?_
    exact fun hlong => absurd hlong (by omega)
  · rw [if_neg hshort]
    have hlong : 7 + byteCountOf raw + 2 ≤ raw.length := by omega
    simp only [hlong, true_implies]
    by_cases hwords : 7 + 2 * countOf raw ≤ raw.length
    · rw [if_pos hwords]
      by_cases hw : writable (startOf raw) (countOf raw)
      · obtain ⟨resp, hresp, hcode⟩ := hdone hw
        have hex : Executed (handleWrite S s 0x10 raw (.ok (some (startOf raw, wordsOf raw)))).1 :=
          ⟨resp, congrArg Prod.fst hresp, hcode⟩
        have hstored := hS.stored s (startOf raw) (wordsOf raw)
          (by rw [wordsOf_length]; exact hw) wordsOf_lt
        simp only [hresp] at hex ⊢
        constructor
        · exact fun hmeets => Or.inl (hmeets.2.1 hex).1.1
        · intro hcond
          have hcount := hcond.resolve_right (fun hright => hright.2 hw)
          exact ⟨⟨some resp, rfl⟩, fun _ => ⟨⟨hcount, hlong⟩, hstored⟩, fun hnot => absurd hex hnot⟩
      · obtain ⟨resp, hresp, hcode⟩ := hrefused hw
        refine iff_of_true ?_ (Or.inr ⟨hwords, hw⟩)
        rw [hresp]
        exact ⟨⟨some resp, rfl⟩, fun hex => absurd hex (not_executed_code hcode (by decide)),
          fun _ => rfl⟩
    · rw [if_neg hwords]
      refine iff_of_false ?_ (by rintro (hcount | ⟨hfit, -⟩) <;> omega)
      rintro ⟨⟨resp, hresp⟩, -⟩
      cases hresp

/-- A slave meets every frame but those in which the fields disagree. -/
theorem Lawful.meets_iff (hS : Lawful S readable writable stored) (s : σ) (raw : Frame) :
    Meets stored s raw (handle S s raw) ↔ Sound (S.address s) (readable s) writable raw := by
  by_cases h : Reaches (S.address s) (raw.getD 1 0) raw
  · by_cases h3 : raw.getD 1 0 = 0x03
    · rw [h3] at h
      rw [hS.meets_read h, Sound]
      refine ⟨fun hread => ⟨fun _ => hread, fun hwrite => absurd (h.code hwrite) (by decide)⟩,
        fun hsound => hsound.1 h⟩
    · by_cases h16 : raw.getD 1 0 = 0x10
      · rw [h16] at h
        rw [hS.meets_write h, Sound]
        refine ⟨fun hwrite => ⟨fun hread => absurd (h.code hread) (by decide), fun _ => hwrite⟩,
          fun hsound => hsound.2 h⟩
      · have hother : Sound (S.address s) (readable s) writable raw :=
          ⟨fun hread => absurd hread.2.2 h3, fun hwrite => absurd hwrite.2.2 h16⟩
        refine iff_of_true ?_ hother
        by_cases h6 : raw.getD 1 0 = 0x06
        · rw [h6] at h
          exact hS.meets_single h
        · refine meets_of_not_write ?_ h16
          obtain ⟨resp, hresp, -⟩ := exceptionResponse_ok h.isByte (raw.getD 1 0) 0x01
          rw [handle_reaches h, if_neg h3, if_neg (fun hsingle => h6 hsingle.1), if_neg h16]
          exact ⟨some resp, hresp⟩
  · refine iff_of_true (meets_ignored h) ⟨fun hread => ?_, fun hwrite => ?_⟩
    · exact absurd (hread.2.2 ▸ hread) h
    · exact absurd (hwrite.2.2 ▸ hwrite) h

end Writes

end WirelessGateway.SlaveFrame
