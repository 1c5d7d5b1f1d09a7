import WirelessGateway.InovertSlave
import WirelessGateway.ModbusReply
import WirelessGateway.SlaveAnswers

namespace WirelessGateway.ModbusLine

open CJson WirelessGateway.Types Lib.Fallible Lib.Registers Modbus ModbusText ModbusTransaction
open SlaveFrame InovertSlave

/-- The Modbus library on its line: the bytes that it sends for a request, the
frame that it makes of the bytes that come back, and how it keeps words in the
data of a frame. -/
structure Rtu where
  encode : ModbusFrame → Frame
  decode : ModbusFrame → Frame → Option ModbusFrame
  stored : List Nat → Bytes

def wordBytes (w : Nat) : Frame := [(w / 256).toUInt8, w.toUInt8]

def requestBytes (f : ModbusFrame) : Frame :=
  f.ucAddr :: f.ucFunc :: (wordBytes f.usRegAddr.toNat ++ wordBytes f.usRegValueCount.toNat)

def readBytes (addr : UInt8) (words : List Nat) : Frame :=
  addr :: 3 :: (2 * words.length).toUInt8 :: words.flatMap wordBytes

def hostBytes (words : List Nat) : Bytes := words.flatMap (fun w => [w.toUInt8, (w / 256).toUInt8])

structure Fits (words : List Nat) : Prop where
  pos : 0 < words.length
  count : words.length ≤ 125
  lt : ∀ w ∈ words, w < 65536

structure Carries (rtu : Rtu) (f : ModbusFrame) (words : List Nat) (g : ModbusFrame) : Prop where
  func : g.ucFunc = f.ucFunc
  addr : g.usRegAddr = f.usRegAddr
  size : g.ucBufferSize.toNat = 2 * words.length
  data : ∃ bs, g.pucData = some bs ∧ rtu.stored words <+: bs

/-- What the gateway relies on when it sends a request for registers: the frames
of Modbus RTU, and that the data of a frame are given out in host order. -/
structure Rtu.Lawful (rtu : Rtu) (lib : ModbusLib) : Prop where
  request : ∀ f, f.ucFunc = 3 ∨ f.ucFunc = 6 → f.pucData = none →
    rtu.encode f = appendCrc (requestBytes f)
  length : ∀ words, (rtu.stored words).length = 2 * words.length
  answered : ∀ f words g, f.ucFunc = 3 → words.length = f.usRegValueCount.toNat → Fits words →
    rtu.decode f (appendCrc (readBytes f.ucAddr words)) = some g → Carries rtu f words g
  echoed : ∀ f addr g, f.ucFunc = 6 →
    rtu.decode f (appendCrc (requestBytes { f with ucAddr := addr })) = some g →
      g.pucData = none ∨ Carries rtu f [f.usRegValueCount.toNat] g
  refused : ∀ f err g, f.ucFunc = 3 ∨ f.ucFunc = 6 →
    rtu.decode f (appendCrc [f.ucAddr, f.ucFunc ||| 0x80, err]) = some g → g.ucFunc = f.ucFunc ||| 0x80
  data : ∀ f words g, f.ucFunc = 3 ∨ f.ucFunc = 6 → Fits words → Carries rtu f words g → ∃ regs code,
    lib.frameData g = ⟨some regs, code, words.length.toUInt8, 2⟩ ∧ hostBytes words <+: regs
  blank : ∀ f, f.pucData = none → (lib.frameData f).regs = none
  flag : lib.modbusErrorFlag = 0x80
  error : ∀ f, lib.isErrorFrame f = (f.ucFunc &&& lib.modbusErrorFlag != 0)

section Words

theorem wordBytes_value {w : Nat} (h : w < 65536) :
    ((w / 256).toUInt8.toNat) * 256 + (w.toUInt8).toNat = w := by
  simp only [Nat.toUInt8, UInt8.toNat_ofNat']
  omega

theorem pairs_length (a b : Nat → UInt8) (words : List Nat) :
    (words.flatMap (fun w => [a w, b w])).length = 2 * words.length := by
  induction words with
  | nil => rfl
  | cons w words ih =>
    rw [List.flatMap_cons, List.length_append, ih]
    simp only [List.length_cons, List.length_nil]
    omega

theorem getD_pairs {words : List Nat} {a b : Nat → UInt8} {more : Bytes} {k : Nat}
    (hk : k < words.length) :
    (words.flatMap (fun w => [a w, b w]) ++ more).getD (2 * k) 0 = a words[k] ∧
      (words.flatMap (fun w => [a w, b w]) ++ more).getD (2 * k + 1) 0 = b words[k] := by
  induction words generalizing k with
  | nil => exact absurd hk (Nat.not_lt_zero k)
  | cons w words ih =>
    cases k with
    | zero => exact ⟨rfl, rfl⟩
    | succ k =>
      rw [List.flatMap_cons, Nat.mul_succ]
      exact ih (Nat.lt_of_succ_lt_succ hk)

theorem regValues_host {words : List Nat} {regs : Bytes} (hw : ∀ w ∈ words, w < 65536)
    (h : hostBytes words <+: regs) : regValues regs 2 words.length = words := by
  obtain ⟨more, rfl⟩ := h
  apply List.ext_getElem
  · rw [regValues_length]
  · intro i hi hi'
    obtain ⟨hlo, hhi⟩ := @getD_pairs words (fun w => w.toUInt8) (fun w => (w / 256).toUInt8) more i hi'
    have hval := wordBytes_value (hw _ (List.getElem_mem hi'))
    simp only [regValues, List.getElem_map, List.getElem_range, regValue, if_true, hostBytes]
    rw [Nat.mul_comm i 2, hlo, hhi]
    omega

end Words

section Data

variable {rtu : Rtu} {lib : ModbusLib} {words : List Nat} {f g : ModbusFrame}

theorem Carries.copied (h : Carries rtu f words g)
    (hlen : (rtu.stored words).length = 2 * words.length) (hfit : Fits words) :
    Carries rtu f words (mbOnComplete .zero (some g)).frame := by
  obtain ⟨hfunc, haddr, hsize, bs, hbs, more, rfl⟩ := h
  have hcount := hfit.count
  rw [mbOnComplete]
  simp only [hbs]
  split
  · refine ⟨hfunc, haddr, hsize, _, rfl, ?_⟩
    have hmin : min g.ucBufferSize.toNat mbPayloadSize = (rtu.stored words).length := by
      rw [hsize, hlen, mbPayloadSize]
      omega
    rw [hmin, List.take_left]
    exact List.prefix_append _ _
  · rename_i hzero
    have hpos := hfit.pos
    have hnot : ¬ 0 < g.ucBufferSize.toNat := hzero
    omega

theorem responseData_carries (hr : rtu.Lawful lib) (hf : f.ucFunc = 3 ∨ f.ucFunc = 6)
    (hfit : Fits words) (h : Carries rtu f words g) :
    responseData lib g = words ∧ (lib.frameData g).amount.toNat = words.length := by
  obtain ⟨regs, code, hdata, hregs⟩ := hr.data f words g hf hfit h
  have hcount := hfit.count
  have hamount : words.length.toUInt8.toNat = words.length := by
    simp only [Nat.toUInt8, UInt8.toNat_ofNat']
    omega
  have herr : lib.isErrorFrame g = false := by
    rw [hr.error, h.func, hr.flag]
    rcases hf with hf | hf <;> rw [hf] <;> rfl
  refine ⟨?_, by rw [hdata, hamount]⟩
  rw [responseData, hdata]
  dsimp only
  rw [herr, hamount, if_neg Bool.false_ne_true, regValues_host hfit.lt hregs]

theorem responseData_blank (hr : rtu.Lawful lib) (h : f.pucData = none) : responseData lib f = [] := by
  rw [responseData, hr.blank f h]

theorem responseData_error (h : lib.isErrorFrame f = true) : responseData lib f = [] := by
  rw [responseData]
  split
  · rw [if_pos h]
  · rfl

end Data

section Requests

variable {d : Inovert} {f g : ModbusFrame} {resp : Frame} {rtu : Rtu} {lib : ModbusLib}

theorem request_fields (f : ModbusFrame) :
    (appendCrc (requestBytes f)).length = 8 ∧ startOf (appendCrc (requestBytes f)) = f.usRegAddr.toNat ∧
      countOf (appendCrc (requestBytes f)) = f.usRegValueCount.toNat :=
  ⟨rfl, wordBytes_value f.usRegAddr.toNat_lt, wordBytes_value f.usRegValueCount.toNat_lt⟩

theorem request_reaches (h : (f.ucAddr.toNat : Int) = d.address) :
    Reaches (slave.address d) f.ucFunc (appendCrc (requestBytes f)) :=
  ⟨checkCrc_appendCrc (List.cons_ne_nil _ _), h, rfl⟩

theorem request_ignored (h : (f.ucAddr.toNat : Int) ≠ d.address) :
    d.handle (appendCrc (requestBytes f)) = (.ok none, d) := by
  apply handle_ignored
  rintro ⟨-, haddr, -⟩
  exact h haddr

theorem bytesOf_bytes (bs : Frame) : bytesOf (bs.map (fun b => (b.toNat : Int))) = .ok bs := by
  rw [bytesOf_ok]
  · rw [List.map_map]
    refine congrArg Except.ok (List.map_id'' (fun b => ?_) bs)
    exact UInt8.ofNat_toNat
  · intro v hv
    obtain ⟨b, -, rfl⟩ := List.mem_map.1 hv
    exact isByte_toNat b

theorem exceptionResponse_bytes (addr fc err : UInt8) :
    exceptionResponse addr.toNat fc err = .ok (some (appendCrc [addr, fc ||| 0x80, err])) := by
  have hbytes := bytesOf_bytes [addr, fc ||| 0x80, err]
  simp only [List.map_cons, List.map_nil] at hbytes
  rw [exceptionResponse, hbytes]
  rfl

end Requests

section Reads

variable {d : Inovert} {f : ModbusFrame} {resp : Frame}

def wordsAt (d : Inovert) (start count : Nat) : List Nat := (load d.regs 0 start count).map Int.toNat

theorem wordsAt_length (d : Inovert) (start count : Nat) : (wordsAt d start count).length = count := by
  rw [wordsAt, List.length_map, load_length]

def answerOf (address : Int) : Except UInt8 (List Int) → Except PyError (Option Frame)
  | .error err => exceptionResponse address 0x03 err
  | .ok words => SlaveFrame.readResponse address words

theorem handle_read (h : (f.ucAddr.toNat : Int) = d.address) (hf : f.ucFunc = 3) :
    d.handle (appendCrc (requestBytes f)) =
      (answerOf d.address (d.fc3 f.usRegAddr.toNat f.usRegValueCount.toNat), d) := by
  obtain ⟨hlen, hstart, hcount⟩ := request_fields f
  have hreach := request_reaches h
  rw [hf] at hreach
  rw [Inovert.handle, handle_reaches hreach, if_pos rfl, handleRead,
    if_neg (by omega), wordAt_ok (by omega), wordAt_ok (by omega)]
  simp only [ok_bind]
  rw [← hstart, ← hcount]
  rfl

theorem readResponse_bytes {words : List Int} (addr : UInt8) (hlen : words.length ≤ 125)
    (hwords : ∀ w ∈ words, IsWord w) :
    SlaveFrame.readResponse addr.toNat words =
      .ok (some (appendCrc (readBytes addr (words.map Int.toNat)))) := by
  have hpack : words.mapM packH = .ok (words.map (fun w => wordBytes w.toNat)) :=
    mapM_ok (fun w hw => if_pos (hwords w hw))
  have hbody : (words.map (fun w => wordBytes w.toNat)).flatten =
      (words.map Int.toNat).flatMap wordBytes := by
    rw [List.flatMap_def, List.map_map]
    rfl
  have hwidth : ((words.map Int.toNat).flatMap wordBytes).length = 2 * words.length :=
    (pairs_length _ _ _).trans (by rw [List.length_map])
  have hcount : (2 * words.length).toUInt8.toNat = 2 * words.length := by
    simp only [Nat.toUInt8, UInt8.toNat_ofNat']
    omega
  have hhead : bytesOf [(addr.toNat : Int), 0x03, ((2 * words.length : Nat) : Int)] =
      .ok [addr, 0x03, (2 * words.length).toUInt8] := by
    refine Eq.trans ?_ (bytesOf_bytes _)
    rw [List.map_cons, List.map_cons, List.map_cons, hcount]
    rfl
  rw [SlaveFrame.readResponse, hpack, ok_bind, hbody, hwidth, hhead, ok_bind, readBytes,
    List.length_map]
  rfl

structure Held (d : Inovert) (start count : Nat) : Prop where
  room : start + count ≤ regSize
  fits : Fits (wordsAt d start count)
  regs : (wordsAt d start count).map (fun w : Nat => (w : Int)) = load d.regs 0 start count

theorem held_of_words {start count : Nat} (hpos : 1 ≤ count) (hcount : count ≤ 125)
    (hroom : start + count ≤ regSize) (hwords : ∀ w ∈ load d.regs 0 start count, IsWord w) :
    Held d start count where
  room := hroom
  fits := by
    have hlen := wordsAt_length d start count
    refine ⟨by omega, by omega, ?_⟩
    intro w hw
    obtain ⟨v, hv, rfl⟩ := List.mem_map.1 hw
    have hword := hwords v hv
    rw [IsWord] at hword
    omega
  regs := by
    rw [wordsAt, List.map_map]
    refine (List.map_congr_left fun v hv => ?_).trans (List.map_id _)
    exact Int.toNat_of_nonneg (hwords v hv).1

theorem read_answered (h : (f.ucAddr.toNat : Int) = d.address) (hf : f.ucFunc = 3)
    (hpos : 1 ≤ f.usRegValueCount.toNat) (hcount : f.usRegValueCount.toNat ≤ 125)
    (hroom : f.usRegAddr.toNat + f.usRegValueCount.toNat ≤ regSize)
    (hwords : ∀ w ∈ load d.regs 0 f.usRegAddr.toNat f.usRegValueCount.toNat, IsWord w) :
    (d.handle (appendCrc (requestBytes f))).1 = .ok (some (appendCrc
      (readBytes f.ucAddr (wordsAt d f.usRegAddr.toNat f.usRegValueCount.toNat)))) := by
  have hlen := load_length d.regs 0 f.usRegAddr.toNat f.usRegValueCount.toNat
  rw [handle_read h hf, fc3_legal hpos hcount hroom, ← h]
  exact readResponse_bytes f.ucAddr (by omega) hwords

/-- A read is answered with an error, or with the registers that it names. -/
theorem read_cases (hf : f.ucFunc = 3)
    (h : (d.handle (appendCrc (requestBytes f))).1 = .ok (some resp)) :
    (∃ err, resp = appendCrc [f.ucAddr, 0x83, err]) ∨
      (Held d f.usRegAddr.toNat f.usRegValueCount.toNat ∧
        resp = appendCrc (readBytes f.ucAddr (wordsAt d f.usRegAddr.toNat f.usRegValueCount.toNat))) := by
  by_cases haddr : (f.ucAddr.toNat : Int) = d.address
  · rw [handle_read haddr hf, ← haddr] at h
    dsimp only at h
    cases hread : d.fc3 f.usRegAddr.toNat f.usRegValueCount.toNat with
    | error err =>
      rw [hread, answerOf, exceptionResponse_bytes, Except.ok.injEq, Option.some.injEq] at h
      exact Or.inl ⟨err, h.symm⟩
    | ok words =>
      obtain ⟨hpos, hcount, hfit, rfl⟩ := fc3_ok hread
      rw [hread, answerOf] at h
      have hlen := load_length d.regs 0 f.usRegAddr.toNat f.usRegValueCount.toNat
      have hwords := (readResponse_ok_iff (isByte_toNat f.ucAddr) (by omega)).1 ⟨_, h⟩
      refine Or.inr ⟨held_of_words hpos hcount hfit hwords, ?_⟩
      rw [readResponse_bytes f.ucAddr (by omega) hwords, Except.ok.injEq, Option.some.injEq] at h
      exact h.symm
  · rw [request_ignored haddr] at h
    cases h

end Reads

section Writes

variable {d : Inovert} {f : ModbusFrame} {resp : Frame}

theorem handle_write (h : (f.ucAddr.toNat : Int) = d.address) (hf : f.ucFunc = 6) :
    d.handle (appendCrc (requestBytes f)) = handleWrite slave d 0x06 (appendCrc (requestBytes f))
      (.ok (some (f.usRegAddr.toNat, [f.usRegValueCount.toNat]))) := by
  obtain ⟨hlen, hstart, hcount⟩ := request_fields f
  have hreach := request_reaches h
  rw [hf] at hreach
  rw [Inovert.handle, handle_reaches hreach, if_neg (by decide), if_pos ⟨rfl, rfl⟩, singleRequest_eq,
    if_neg (by omega), hstart, hcount]

theorem write_done (h : (f.ucAddr.toNat : Int) = d.address) (hf : f.ucFunc = 6) :
    (d.handle (appendCrc (requestBytes f))).2 =
      (d.writeRegs f.usRegAddr.toNat [f.usRegValueCount.toNat]).2 := by
  rw [handle_write h hf]
  rfl

theorem writeResponse_bytes {address : Int} (h : IsByte address) (hf : f.ucFunc = 6) :
    writeResponse address 0x06 none (appendCrc (requestBytes f)) =
      .ok (some (appendCrc (requestBytes { f with ucAddr := address.toNat.toUInt8 }))) := by
  have hbytes := bytesOf_bytes (requestBytes { f with ucAddr := address.toNat.toUInt8 })
  have haddr : ((address.toNat.toUInt8.toNat : Nat) : Int) = address := by
    obtain ⟨hpos, hlt⟩ := h
    simp only [Nat.toUInt8, UInt8.toNat_ofNat']
    omega
  rw [requestBytes, List.map_cons, List.map_cons, haddr, hf] at hbytes
  change (bytesOf (address :: (UInt8.toNat 6 : Int) :: (wordBytes f.usRegAddr.toNat ++
    wordBytes f.usRegValueCount.toNat).map (fun b => (b.toNat : Int))) >>= _) = _
  rw [hbytes, ok_bind, requestBytes, hf]
  rfl

theorem writeRegs_held {start value : Nat} (hroom : start + 1 ≤ regSize) (hvalue : value < 65536) :
    wordsAt (d.writeRegs start [value]).2 start 1 = [value] ∧
      Held (d.writeRegs start [value]).2 start 1 := by
  have hload : load (d.writeRegs start [value]).2.regs 0 start 1 = [(value : Int)] := by
    have hfit : start + [(value : Int)].length ≤ regSize := hroom
    have hw : Writable start [value].length := hroom
    rw [writeRegs_regs hw, words_mod (by simpa using hvalue)]
    exact load_store d.regs 0 hfit
  refine ⟨by rw [wordsAt, hload]; rfl, held_of_words (Nat.le_refl 1) (by omega) hroom ?_⟩
  rw [hload]
  intro w hw
  rw [List.mem_singleton.1 hw, IsWord]
  omega

/-- A write is answered with an error, or with its echo from a device that has
the value. -/
theorem write_cases (hf : f.ucFunc = 6)
    (h : (d.handle (appendCrc (requestBytes f))).1 = .ok (some resp)) :
    (∃ err, resp = appendCrc [f.ucAddr, 0x86, err]) ∨
      (Held (d.handle (appendCrc (requestBytes f))).2 f.usRegAddr.toNat 1 ∧
        wordsAt (d.handle (appendCrc (requestBytes f))).2 f.usRegAddr.toNat 1 =
          [f.usRegValueCount.toNat] ∧
        ∃ addr, resp = appendCrc (requestBytes { f with ucAddr := addr })) := by
  by_cases haddr : (f.ucAddr.toNat : Int) = d.address
  · rw [handle_write haddr hf] at h ⊢
    by_cases hw : Writable f.usRegAddr.toNat [f.usRegValueCount.toNat].length
    · have hadr : IsByte (slave.address d) := by
        rw [show slave.address d = f.ucAddr.toNat from haddr.symm]
        exact isByte_toNat f.ucAddr
      have hbyte := lawful.address d f.usRegAddr.toNat [f.usRegValueCount.toNat] hadr
      have hnone := lawful.accepted d f.usRegAddr.toNat [f.usRegValueCount.toNat] hw
      obtain ⟨hwords, hheld⟩ := writeRegs_held (d := d) hw f.usRegValueCount.toNat_lt
      refine Or.inr ⟨hheld, hwords, Int.toNat (slave.address
        (slave.write d f.usRegAddr.toNat [f.usRegValueCount.toNat]).2) |>.toUInt8, ?_⟩
      rw [handleWrite] at h
      dsimp only at h
      rw [hnone, writeResponse_bytes hbyte hf, Except.ok.injEq, Option.some.injEq] at h
      exact h.symm
    · obtain ⟨err, herr⟩ := lawful.refused d f.usRegAddr.toNat [f.usRegValueCount.toNat] hw
      rw [handleWrite, herr] at h
      dsimp only at h
      rw [writeResponse, show slave.address d = f.ucAddr.toNat from haddr.symm, exceptionResponse_bytes,
        Except.ok.injEq, Option.some.injEq] at h
      exact Or.inl ⟨err, h.symm⟩
  · rw [request_ignored haddr] at h
    cases h

end Writes

section Answers

variable {d : Inovert} {f g : ModbusFrame} {resp : Frame} {rtu : Rtu} {lib : ModbusLib}

def span (f : ModbusFrame) : Nat := if f.ucFunc = 3 then f.usRegValueCount.toNat else 1

structure Shows (lib : ModbusLib) (d : Inovert) (start count : Nat) (k : ModbusFrame) : Prop where
  held : Held d start count
  addr : k.usRegAddr.toNat = start
  amount : (lib.frameData k).amount.toNat = count
  data : responseData lib k = wordsAt d start count

theorem Carries.shows {start count : Nat} (hr : rtu.Lawful lib) (hf : f.ucFunc = 3 ∨ f.ucFunc = 6)
    (hheld : Held d start count) (hstart : f.usRegAddr.toNat = start)
    (h : Carries rtu f (wordsAt d start count) g) :
    Shows lib d start count (mbOnComplete .zero (some g)).frame := by
  have hcopy := h.copied (hr.length _) hheld.fits
  obtain ⟨hdata, hamount⟩ := responseData_carries hr hf hheld.fits hcopy
  rw [wordsAt_length] at hamount
  exact ⟨hheld, by rw [hcopy.addr, hstart], hamount, hdata⟩

theorem responseData_refused (hr : rtu.Lawful lib) (hf : f.ucFunc = 3 ∨ f.ucFunc = 6)
    (hg : g.ucFunc = f.ucFunc ||| 0x80) :
    responseData lib (mbOnComplete .zero (some g)).frame = [] := by
  apply responseData_error
  rw [hr.error, hr.flag, (ModbusReply.mbOnComplete_some .zero g).2, hg]
  rcases hf with hf | hf <;> rw [hf] <;> rfl

/-- What the library makes of the device's answer stands for the registers that
the device has then, or shows nothing. -/
theorem answer_shows (hr : rtu.Lawful lib) (hf : f.ucFunc = 3 ∨ f.ucFunc = 6)
    (hdata : f.pucData = none) (h : (d.handle (rtu.encode f)).1 = .ok (some resp))
    (hg : rtu.decode f resp = some g) :
    responseData lib (mbOnComplete .zero (some g)).frame = [] ∨
      Shows lib (d.handle (rtu.encode f)).2 f.usRegAddr.toNat (span f)
        (mbOnComplete .zero (some g)).frame := by
  rw [hr.request f hf hdata] at h ⊢
  rcases hf with hread | hwrite
  · have hsame : (d.handle (appendCrc (requestBytes f))).2 = d := by
      by_cases haddr : (f.ucAddr.toNat : Int) = d.address
      · rw [handle_read haddr hread]
      · rw [request_ignored haddr]
    rw [hsame, span, if_pos hread]
    rcases read_cases hread h with ⟨err, rfl⟩ | ⟨hheld, rfl⟩
    · exact Or.inl (responseData_refused hr (Or.inl hread)
        (hr.refused f err g (Or.inl hread) (by rw [hread]; exact hg)))
    · refine Or.inr (Carries.shows hr (Or.inl hread) hheld rfl ?_)
      exact hr.answered f _ g hread (wordsAt_length _ _ _) hheld.fits hg
  · rw [span, if_neg (by rw [hwrite]; decide)]
    rcases write_cases hwrite h with ⟨err, rfl⟩ | ⟨hheld, hwords, addr, rfl⟩
    · exact Or.inl (responseData_refused hr (Or.inr hwrite)
        (hr.refused f err g (Or.inr hwrite) (by rw [hwrite]; exact hg)))
    · rcases hr.echoed f addr g hwrite hg with hnone | hcarries
      · refine Or.inl (responseData_blank hr ?_)
        rw [mbOnComplete]
        simp only [hnone]
      · refine Or.inr (Carries.shows hr (Or.inr hwrite) hheld rfl ?_)
        rw [hwords]
        exact hcarries

end Answers

section Samples

def swapped : Frame → Bytes
  | hi :: lo :: rest => lo :: hi :: swapped rest
  | _ => []

def received (f : ModbusFrame) : Frame → Option ModbusFrame
  | addr :: fc :: n :: rest =>
    if fc = 3 then
      some ⟨addr, fc, f.usRegAddr, f.usRegValueCount, n, n, some (swapped rest)⟩
    else some ⟨addr, fc, f.usRegAddr, f.usRegValueCount, 0, 0, none⟩
  | _ => none

def hostRtu : Rtu where
  encode f := appendCrc (requestBytes f)
  decode f raw := if checkCrc raw then received f raw else none
  stored := hostBytes

theorem swapped_words (words : List Nat) (crc : Frame) :
    hostBytes words <+: swapped (words.flatMap wordBytes ++ crc) := by
  induction words with
  | nil => exact List.nil_prefix
  | cons w words ih => exact (List.prefix_append_right_inj [w.toUInt8, (w / 256).toUInt8]).2 ih

theorem decode_received {f g : ModbusFrame} {raw : Frame} (h : hostRtu.decode f raw = some g) :
    received f raw = some g := by
  rw [hostRtu] at h
  dsimp only at h
  split at h
  · exact h
  · cases h

theorem hostRtu_lawful : hostRtu.Lawful wordLib where
  request f _ _ := rfl
  length := pairs_length _ _
  answered f words g hf hlen hfit h := by
    cases decode_received h
    have hcount := hfit.count
    refine ⟨hf.symm, rfl, ?_, _, rfl, swapped_words words _⟩
    simp only [Nat.toUInt8, UInt8.toNat_ofNat']
    omega
  echoed f addr g hf h := by
    have h := decode_received h
    rw [requestBytes, hf] at h
    cases h
    exact Or.inl rfl
  refused f err g hf h := by
    have h := decode_received h
    rcases hf with hf | hf <;>
    · rw [hf] at h ⊢
      cases h
      rfl
  data f words g hf hfit h := by
    obtain ⟨bs, hbs, hpre⟩ := h.data
    have hsize := h.size
    have hcount := hfit.count
    refine ⟨bs, 0, ?_, hpre⟩
    rw [wordLib]
    dsimp only
    rw [hbs, show g.ucBufferSize / 2 = words.length.toUInt8 from ?_]
    apply UInt8.toNat_inj.1
    rw [UInt8.toNat_div, hsize, Nat.toUInt8, UInt8.toNat_ofNat']
    change 2 * words.length / 2 = _
    omega
  blank f h := h
  flag := rfl
  error f := rfl

end Samples

end WirelessGateway.ModbusLine
