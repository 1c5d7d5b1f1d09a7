import WirelessGateway.FidText
import WirelessGateway.Lib.Fallible
import WirelessGateway.Lib.Region

namespace WirelessGateway.Envelope

open CJson WirelessGateway.Types Memory WsServer FidText Lib.Text Lib.Region Lib.Fallible

/-- sprintf with the one conversion that ws_server.c uses for its frames. -/
def format : List Char → List UInt32 → List Char
  | '%' :: '0' :: '8' :: 'l' :: 'x' :: cs, w :: ws => hexDigits 8 w.toNat ++ format cs ws
  | c :: cs, ws => c :: format cs ws
  | [], _ => []

def pucTemplate : List Char :=
  ['\x7b', '"', 'F', 'I', 'D', '"', ':', '"', '0', 'x', '%', '0', '8', 'l', 'x', '"', ',',
    '"', 'S', 'I', 'D', '"', ':', '"', '0', 'x', '%', '0', '8', 'l', 'x', '"', ',',
    '"', 'A', 'R', 'G', '"', ':']

def statusTemplate : List Char :=
  ['\x7b', '"', 'S', 'T', 'A', '"', ':', '"', '0', 'x', '%', '0', '8', 'l', 'x', '"', '\x7d']

def sizeof (text : List Char) : UInt32 := UInt32.ofNat (text.length + 1)

/-- sizeof(ApiData_t) on the 32-bit target, behind which the payload begins. -/
def sizeofApiData : UInt32 := 20

/-- malloc, whose blocks have the size asked for and any contents. -/
structure Heap where
  malloc : UInt32 → Option Bytes
  size : ∀ n block, malloc n = some block → block.length = n.toNat

structure WsFrame where
  type : FrameType
  final : Bool
  fragmented : Bool
  len : UInt32

/-- ApiData_t, with the memory behind its fields. The frame's payload pointer
points to that memory. -/
structure ApiBlock where
  counter : UInt32
  frame : WsFrame
  payload : Bytes

def sprintf (dst : Bytes) (template : List Char) (args : List UInt32) :
    Except Overrun (Bytes × Int32) := do
  let text := bytes (format template args)
  let dst ← copy dst 0 (text ++ [0]) (text.length + 1)
  pure (dst, Int32.ofNat text.length)

/-- The address of an array's item. An index of type int is added to a 32-bit
address. -/
def index (offset : Int32) : Nat := offset.toUInt32.toNat

def fillPayload (payload : Bytes) (fidOut sid : UInt32) (ucJson : Bytes) (ulLen : UInt32) :
    Except Overrun Bytes := do
  let (payload, offset) ← sprintf payload pucTemplate [fidOut, sid]
  let payload ← copy payload (index offset) ucJson ulLen.toNat
  let offset := offset + ulLen.toInt32
  copy payload (index offset) (bytes ['\x7d']) 1

def buildData (heap : Heap) (targets fidOut sid : UInt32) (ucJson : Bytes) (ulLen : UInt32) :
    Except Overrun (Option ApiBlock) :=
  let len := ulLen + sizeof pucTemplate + 6
  match heap.malloc (sizeofApiData + len) with
  | none => pure none
  | some block =>
    if block.length < sizeofApiData.toNat then .error .write
    else do
      let payload ← fillPayload (block.drop sizeofApiData.toNat) fidOut sid ucJson ulLen
      pure (some ⟨targets, ⟨.text, true, false, len⟩, payload⟩)

def buildStatus (heap : Heap) (sta : Bytes) (targets fidOut sid ulSta : UInt32) :
    Except Overrun (Option ApiBlock) := do
  let (sta, len) ← sprintf sta statusTemplate [ulSta]
  buildData heap targets fidOut sid sta len.toUInt32

def statusText (ulSta : UInt32) : Bytes := bytes (format statusTemplate [ulSta])

def ApiBlock.sent (b : ApiBlock) : Bytes := b.payload.take b.frame.len.toNat

/-- Every write stays inside its memory, and with a block of the right size
there is a frame: the envelope of the ARG text, as long as its length field
says. -/
def Enveloped (heap : Heap) (fid sid : UInt32) (arg : Bytes)
    (op : Except Overrun (Option ApiBlock)) : Prop :=
  ∃ res, op = .ok res ∧
    res.isSome = (heap.malloc (UInt32.ofNat (arg.length + 66))).isSome ∧
    ∀ b ∈ res, b.sent = replyText fid sid arg ∧
      b.frame.len.toNat = (replyText fid sid arg).length

def openEnvelope (frame : Bytes) : UInt32 × UInt32 × Bytes :=
  (UInt32.ofNat (hexValue 0 ((frame.drop 10).take 8)),
    UInt32.ofNat (hexValue 0 ((frame.drop 29).take 8)), (frame.drop 45).dropLast)

theorem bytes_length (cs : List Char) : (bytes cs).length = cs.length := List.length_map _

theorem format_header (fid sid : UInt32) : bytes (format pucTemplate [fid, sid]) =
    bytes ['\x7b', '"', 'F', 'I', 'D', '"', ':', '"', '0', 'x'] ++ bytes (hexDigits 8 fid.toNat) ++
      bytes ['"', ',', '"', 'S', 'I', 'D', '"', ':', '"', '0', 'x'] ++
      bytes (hexDigits 8 sid.toNat) ++ bytes ['"', ',', '"', 'A', 'R', 'G', '"', ':'] := by
  simp [pucTemplate, format, bytes]

theorem header_length (fid sid : UInt32) : (bytes (format pucTemplate [fid, sid])).length = 45 := by
  simp [format_header, bytes_length, hexDigits_length]

theorem replyText_eq (fid sid : UInt32) (arg : Bytes) :
    replyText fid sid arg = bytes (format pucTemplate [fid, sid]) ++ arg ++ bytes ['\x7d'] := by
  rw [format_header]
  simp [replyText, wordText, bytes]

theorem replyText_length (fid sid : UInt32) (arg : Bytes) :
    (replyText fid sid arg).length = arg.length + 46 := by
  rw [replyText_eq, List.length_append, List.length_append, header_length, bytes_length]
  simp
  omega

theorem statusText_length (sta : UInt32) : (statusText sta).length = 20 := by
  simp [statusText, statusTemplate, format, bytes_length, hexDigits_length]

theorem sprintf_spec (dst : Bytes) (template : List Char) (args : List UInt32)
    (h : (bytes (format template args)).length < dst.length) :
    ∃ mem, sprintf dst template args =
        .ok (mem, Int32.ofNat (bytes (format template args)).length) ∧
      mem.length = dst.length ∧
      mem.take (bytes (format template args)).length = bytes (format template args) := by
  generalize htext : bytes (format template args) = text at h ⊢
  obtain ⟨mem, hmem, hlen, htake⟩ := copy_spec
    (show text.length + 1 ≤ (text ++ [0]).length by simp)
    (show 0 + (text.length + 1) ≤ dst.length by omega)
  refine ⟨mem, by simp only [sprintf, htext, hmem]; rfl, hlen, ?_⟩
  have hfirst := congrArg (List.take text.length) htake
  simpa [List.take_take] using hfirst

section Build

variable {ucJson : Bytes} {ulLen : UInt32}

theorem len_toNat (h : ulLen.toNat + 66 < UInt32.size) :
    (ulLen + sizeof pucTemplate + 6).toNat = ulLen.toNat + 46 := by
  have hsize : UInt32.size = 4294967296 := rfl
  have htemplate : (sizeof pucTemplate).toNat = 40 := by decide
  have hsix : (6 : UInt32).toNat = 6 := rfl
  rw [UInt32.toNat_add, UInt32.toNat_add, htemplate, hsix]
  omega

theorem index_end (h : ulLen.toNat + 66 < UInt32.size) :
    index (Int32.ofNat 45 + ulLen.toInt32) = 45 + ulLen.toNat := by
  have hsize : UInt32.size = 4294967296 := rfl
  have hadd : (Int32.ofNat 45 + ulLen.toInt32).toUInt32 = 45 + ulLen := rfl
  have h45 : (45 : UInt32).toNat = 45 := rfl
  rw [index, hadd, UInt32.toNat_add, h45]
  omega

theorem fillPayload_spec (fidOut sid : UInt32) {payload : Bytes} (hread : ulLen.toNat ≤ ucJson.length)
    (h : ulLen.toNat + 66 < UInt32.size)
    (hpay : payload.length = ulLen.toNat + 46) :
    ∃ mem, fillPayload payload fidOut sid ucJson ulLen = .ok mem ∧
      mem.take (ulLen.toNat + 46) = replyText fidOut sid (ucJson.take ulLen.toNat) := by
  have hhead := header_length fidOut sid
  have h45 : index (Int32.ofNat 45) = 45 := by decide
  obtain ⟨m₁, he₁, hl₁, ht₁⟩ := sprintf_spec payload pucTemplate [fidOut, sid] (by omega)
  rw [hhead] at he₁ ht₁
  obtain ⟨m₂, he₂, hl₂, ht₂⟩ := copy_spec hread (show 45 + ulLen.toNat ≤ m₁.length by omega)
  obtain ⟨m₃, he₃, -, ht₃⟩ := copy_spec (show 1 ≤ (bytes ['\x7d']).length by simp [bytes])
    (show 45 + ulLen.toNat + 1 ≤ m₂.length by omega)
  refine ⟨m₃, ?_, ?_⟩
  · simp only [fillPayload, he₁, ok_bind, h45, he₂, index_end h, he₃]
  · have hoff : ulLen.toNat + 46 = 45 + ulLen.toNat + 1 := by omega
    rw [hoff, ht₃, ht₂, ht₁, replyText_eq]
    rfl

theorem buildData_spec (heap : Heap) (targets fidOut sid : UInt32)
    (hread : ulLen.toNat ≤ ucJson.length) (h : ulLen.toNat + 66 < UInt32.size) :
    Enveloped heap fidOut sid (ucJson.take ulLen.toNat)
      (buildData heap targets fidOut sid ucJson ulLen) := by
  have hlen := len_toNat h
  have htwenty : sizeofApiData.toNat = 20 := rfl
  unfold buildData
  dsimp only
  generalize ulLen + sizeof pucTemplate + 6 = len at hlen ⊢
  have hask : UInt32.ofNat ((ucJson.take ulLen.toNat).length + 66) = sizeofApiData + len := by
    rw [List.length_take, Nat.min_eq_left hread, ← UInt32.toNat_inj, UInt32.toNat_ofNat_of_lt' h,
      UInt32.toNat_add, hlen, htwenty]
    have hsize : UInt32.size = 4294967296 := rfl
    omega
  cases hm : heap.malloc (sizeofApiData + len) with
  | none => exact ⟨none, rfl, by rw [hask, hm]; rfl, by simp⟩
  | some block =>
      have hblock : block.length = ulLen.toNat + 66 := by
        have hsize : UInt32.size = 4294967296 := rfl
        rw [heap.size _ _ hm, UInt32.toNat_add, hlen, htwenty]
        omega
      have hroom : ¬ block.length < sizeofApiData.toNat := by omega
      have hpay : (block.drop sizeofApiData.toNat).length = ulLen.toNat + 46 := by
        rw [List.length_drop, hblock, htwenty]
        omega
      obtain ⟨mem, hmem, htake⟩ := fillPayload_spec fidOut sid hread h hpay
      refine ⟨some ⟨targets, ⟨.text, true, false, len⟩, mem⟩, ?_, by rw [hask, hm]; rfl, ?_⟩
      · simp only [hroom, if_false, hmem, ok_bind]
        rfl
      · rintro b ⟨⟩
        refine ⟨?_, ?_⟩
        · rw [← htake, ← hlen]
          rfl
        · rw [replyText_length, List.length_take, Nat.min_eq_left hread]
          exact hlen

theorem buildStatus_spec (heap : Heap) {sta : Bytes} (hsta : sta.length = 21)
    (targets fidOut sid ulSta : UInt32) :
    Enveloped heap fidOut sid (statusText ulSta) (buildStatus heap sta targets fidOut sid ulSta) := by
  have hlen := statusText_length ulSta
  have htext : bytes (format statusTemplate [ulSta]) = statusText ulSta := rfl
  obtain ⟨mem, he, hmem, ht⟩ := sprintf_spec sta statusTemplate [ulSta] (by rw [htext]; omega)
  rw [htext, hlen] at he ht
  have htwenty : (Int32.ofNat 20).toUInt32.toNat = 20 := by decide
  simp only [buildStatus, he, ok_bind]
  have hread : (Int32.ofNat 20).toUInt32.toNat ≤ mem.length := by omega
  have hspec := buildData_spec heap targets fidOut sid hread (by rw [htwenty]; decide)
  rwa [htwenty, ht] at hspec

end Build

theorem hexText_toNat (w : UInt32) : UInt32.ofNat (hexValue 0 (bytes (hexDigits 8 w.toNat))) = w := by
  have hlt := w.toNat_lt
  rw [hexValue_hexDigits, Nat.mod_eq_of_lt (by omega)]
  exact UInt32.ofNat_toNat

theorem openEnvelope_replyText (fid sid : UInt32) (arg : Bytes) :
    openEnvelope (replyText fid sid arg) = (fid, sid, arg) := by
  have hdigits : ∀ w : UInt32, (bytes (hexDigits 8 w.toNat)).length = 8 := by
    intro w
    rw [bytes_length, hexDigits_length]
  have htext : replyText fid sid arg =
      bytes ['\x7b', '"', 'F', 'I', 'D', '"', ':', '"', '0', 'x'] ++
        (bytes (hexDigits 8 fid.toNat) ++
          (bytes ['"', ',', '"', 'S', 'I', 'D', '"', ':', '"', '0', 'x'] ++
            (bytes (hexDigits 8 sid.toNat) ++
              (bytes ['"', ',', '"', 'A', 'R', 'G', '"', ':'] ++ (arg ++ bytes ['\x7d']))))) := by
    rw [replyText_eq, format_header]
    simp only [List.append_assoc]
  have hfid : ((replyText fid sid arg).drop 10).take 8 = bytes (hexDigits 8 fid.toNat) := by
    rw [htext, List.drop_left' (by rfl), List.take_left' (hdigits fid)]
  have hsid : ((replyText fid sid arg).drop 29).take 8 = bytes (hexDigits 8 sid.toNat) := by
    rw [htext, ← List.append_assoc, ← List.append_assoc,
      List.drop_left' (by simp [bytes_length, hexDigits_length]), List.take_left' (hdigits sid)]
  have harg : (replyText fid sid arg).drop 45 = arg ++ bytes ['\x7d'] := by
    rw [replyText_eq, List.append_assoc, List.drop_left' (header_length fid sid)]
  rw [openEnvelope, hfid, hsid, harg, hexText_toNat, hexText_toNat]
  simp [bytes]

theorem replyText_inj {fid fid' sid sid' : UInt32} {arg arg' : Bytes} :
    replyText fid sid arg = replyText fid' sid' arg' ↔ fid = fid' ∧ sid = sid' ∧ arg = arg' := by
  constructor
  · intro h
    have hopen := congrArg openEnvelope h
    simpa only [openEnvelope_replyText, Prod.mk.injEq] using hopen
  · rintro ⟨rfl, rfl, rfl⟩
    rfl

def argText : Payload → Bytes
  | .status sta => statusText sta
  | .json data => data
  | .reply r => (r.msg.data.getD []).take r.msg.len

def buildPayload (heap : Heap) (sta : Bytes) (d : ApiData) : Except Overrun (Option ApiBlock) :=
  let targets := UInt32.ofNat d.counter
  match d.arg with
  | .status ulSta => buildStatus heap sta targets d.fid d.sid ulSta
  | .json data => buildData heap targets d.fid d.sid data (UInt32.ofNat data.length)
  | .reply r =>
    buildData heap targets d.fid d.sid (r.msg.data.getD []) (UInt32.ofNat r.msg.len)

def Fits : Payload → Prop
  | .status _ => True
  | .json data => data.length + 66 < UInt32.size
  | .reply r => r.msg.len ≤ (r.msg.data.getD []).length ∧ r.msg.len + 66 < UInt32.size

/-- The buffers of the server stand for blocks with the envelope of their FID,
SID and ARG. -/
theorem buildPayload_spec (heap : Heap) {sta : Bytes} (hsta : sta.length = 21) (d : ApiData)
    (h : Fits d.arg) : Enveloped heap d.fid d.sid (argText d.arg) (buildPayload heap sta d) := by
  have hsize : UInt32.size = 4294967296 := rfl
  obtain ⟨counter, fid, sid, arg⟩ := d
  cases arg with
  | status ulSta => exact buildStatus_spec heap hsta _ fid sid ulSta
  | json data =>
      have hfit : data.length + 66 < UInt32.size := h
      have hlen : (UInt32.ofNat data.length).toNat = data.length :=
        UInt32.toNat_ofNat_of_lt' (by omega)
      have hread : (UInt32.ofNat data.length).toNat ≤ data.length := by omega
      have hspec := buildData_spec heap (UInt32.ofNat counter) fid sid hread (by omega)
      rwa [hlen, List.take_length] at hspec
  | reply r =>
      obtain ⟨hle, hfit⟩ : r.msg.len ≤ (r.msg.data.getD []).length ∧
        r.msg.len + 66 < UInt32.size := h
      have hlen : (UInt32.ofNat r.msg.len).toNat = r.msg.len :=
        UInt32.toNat_ofNat_of_lt' (by omega)
      have hread : (UInt32.ofNat r.msg.len).toNat ≤ (r.msg.data.getD []).length := by omega
      have hspec := buildData_spec heap (UInt32.ofNat counter) fid sid hread (by omega)
      rwa [hlen] at hspec

/-- The frame of every reply is the envelope of FID, SID and payload, written
inside the memory that was allocated for it, and gives all three back. -/
theorem reply_envelope (heap : Heap) (fid sid : UInt32) :
    (∀ targets ucJson (ulLen : UInt32), ulLen.toNat ≤ ucJson.length →
      ulLen.toNat + 66 < UInt32.size →
      Enveloped heap fid sid (ucJson.take ulLen.toNat)
        (buildData heap targets fid sid ucJson ulLen)) ∧
    (∀ targets sta ulSta, sta.length = 21 →
      Enveloped heap fid sid (statusText ulSta) (buildStatus heap sta targets fid sid ulSta)) ∧
    (∀ arg, openEnvelope (replyText fid sid arg) = (fid, sid, arg)) ∧
    ∀ fid' sid' arg arg', replyText fid sid arg = replyText fid' sid' arg' ↔
      fid = fid' ∧ sid = sid' ∧ arg = arg' :=
  ⟨fun targets _ _ hread hfit => buildData_spec heap targets fid sid hread hfit,
    fun targets _ ulSta hsta => buildStatus_spec heap hsta targets fid sid ulSta,
    openEnvelope_replyText fid sid, fun _ _ _ _ => replyText_inj⟩

def cleanHeap : Heap where
  malloc n := some (List.replicate n.toNat 0)
  size n block h := by simp [← Option.some.inj h]

theorem reply_envelope_clean :
    Enveloped cleanHeap 0x1012 5 [49] (buildData cleanHeap 1 0x1012 5 [49, 50] 1) ∧
    Enveloped cleanHeap 0x1012 5 (statusText 3)
      (buildStatus cleanHeap (List.replicate 21 255) 1 0x1012 5 3) :=
  have h := reply_envelope cleanHeap 0x1012 5
  ⟨h.1 1 [49, 50] 1 (by decide) (by decide), h.2.1 1 _ 3 (by decide)⟩

end WirelessGateway.Envelope
