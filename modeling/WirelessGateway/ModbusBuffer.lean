import WirelessGateway.Envelope
import WirelessGateway.Lib.Json
import WirelessGateway.ModbusTransaction

namespace WirelessGateway.ModbusBuffer

open CJson WirelessGateway.Types FidText Lib.Json Lib.Region Lib.Text Lib.Utf8 Modbus ModbusText
open Envelope ModbusTransaction

/-- snprintf(buf + off, n, ..) of a text: what fits and a terminator is stored,
and the length of the whole text is returned. -/
def snprintf (buf : Bytes) (off : Int32) (n : UInt32) (text : Bytes) :
    Except Overrun (Bytes × Int32) := do
  if n = 0 then pure (buf, Int32.ofNat text.length)
  else
    let stored := text.take (n.toNat - 1) ++ [0]
    let buf ← copy buf (index off) stored stored.length
    pure (buf, Int32.ofNat text.length)

def storeChar (buf : Bytes) (off : Int32) (c : Char) : Except Overrun (Bytes × Int32) := do
  let buf ← copy buf (index off) (bytes [c]) 1
  pure (buf, off + 1)

def load (regs : Bytes) (i : Nat) : Except Overrun UInt8 :=
  match regs[i]? with
  | some b => .ok b
  | none => .error .read

def element (regs : Bytes) (size : UInt8) (i : Nat) : Except Overrun Nat := do
  if size = 2 then
    let lo ← load regs (i * 2)
    let hi ← load regs (i * 2 + 1)
    pure (lo.toUInt16 ||| (hi.toUInt16 <<< 8)).toNat
  else
    let b ← load regs i
    pure b.toNat

def separate (bufSz : UInt32) (buf : Bytes) (off : Int32) (i : Nat) :
    Except Overrun (Bytes × Int32) :=
  if i > 0 ∧ off < bufSz.toInt32 - 1 then storeChar buf off ',' else pure (buf, off)

def putElement (bufSz : UInt32) (regs : Bytes) (size : UInt8) (st : Bytes × Int32) (i : Nat) :
    Except Overrun (Bytes × Int32) := do
  let (buf, off) ← separate bufSz st.1 st.2 i
  let v ← element regs size i
  let (buf, len) ← snprintf buf off (bufSz - off.toUInt32) (bytes (decimal v))
  pure (buf, off + len)

def estimate (amount : UInt8) : UInt32 := 96 + (if amount > 0 then amount.toUInt32 * 9 else 0)

def closeText (bufSz : UInt32) (buf : Bytes) (off : Int32) : Except Overrun (Bytes × Int32) := do
  if off < bufSz.toInt32 - 2 then
    let (buf, off) ← storeChar buf off ']'
    let (buf, off) ← storeChar buf off '\x7d'
    let buf ← copy buf (index off) [0] 1
    pure (buf, off)
  else pure (buf, off)

def shownRegs (lib : ModbusLib) (f : ModbusFrame) : Option Bytes :=
  if lib.isErrorFrame f = false ∧ (lib.frameData f).amount > 0 then (lib.frameData f).regs else none

def putElements (lib : ModbusLib) (f : ModbusFrame) (bufSz : UInt32) (st : Bytes × Int32) :
    Except Overrun (Bytes × Int32) :=
  let d := lib.frameData f
  match shownRegs lib f with
  | some regs => (List.range d.amount.toNat).foldlM (putElement bufSz regs d.size) st
  | none => pure st

/-- What format_and_send_mb_response makes of a block of the estimated size. -/
def formatBlock (lib : ModbusLib) (f : ModbusFrame) (block : Bytes) :
    Except Overrun (Bytes × Int32) := do
  let d := lib.frameData f
  let bufSz := estimate d.amount
  let isErr := if lib.isErrorFrame f then 1 else 0
  let (buf, off) ← snprintf block 0 bufSz (bytes (responseHeader f.ucAddr.toNat
    (f.ucFunc &&& ~~~lib.modbusErrorFlag).toNat d.code.toNat f.usRegAddr.toNat d.amount.toNat isErr))
  let (buf, off) ← putElements lib f bufSz (buf, off)
  closeText bufSz buf off

def formattedText (heap : Heap) (lib : ModbusLib) (f : ModbusFrame) :
    Except Overrun (Option Bytes) :=
  match heap.malloc (estimate (lib.frameData f).amount) with
  | none => pure none
  | some block => do
    let (buf, off) ← formatBlock lib f block
    if buf.length < index off then .error .read else pure (some (buf.take (index off)))

structure Stored (n : Nat) (buf : Bytes) (off : Int32) (text : Bytes) : Prop where
  size : buf.length = n
  front : buf.take text.length = text
  off : off = Int32.ofNat text.length

variable {n : Nat} {buf text : Bytes} {off : Int32} {bufSz : UInt32}

theorem index_ofNat {k : Nat} (hk : k < 2 ^ 31) : index (Int32.ofNat k) = k := by
  rw [index, Int32.toUInt32_ofNat', UInt32.toNat_ofNat']
  omega

theorem Stored.index (h : Stored n buf off text) (hn : n < 2 ^ 31) (hle : text.length ≤ n) :
    index off = text.length := by
  rw [h.off]
  exact index_ofNat (by omega)

theorem Stored.append (h : Stored n buf off text) (more : Bytes) {mem : Bytes}
    (hsize : mem.length = n) (hmem : mem.take (text.length + more.length) =
      buf.take text.length ++ more) :
    Stored n mem (off + Int32.ofNat more.length) (text ++ more) := by
  constructor
  · exact hsize
  · rw [List.length_append, hmem, h.front]
  · rw [h.off, List.length_append, Int32.ofNat_add]

theorem Stored.storeChar (h : Stored n buf off text) (hn : n < 2 ^ 31) (hfit : text.length < n)
    (c : Char) :
    ∃ buf', storeChar buf off c = .ok (buf', off + 1) ∧
      Stored n buf' (off + 1) (text ++ bytes [c]) := by
  have hsize := h.size
  obtain ⟨mem, hcopy, hlen, hmem⟩ : ∃ mem, copy buf text.length (bytes [c]) 1 = .ok mem ∧
      mem.length = buf.length ∧
      mem.take (text.length + 1) = buf.take text.length ++ (bytes [c]).take 1 :=
    copy_spec (Nat.le_refl 1) (by omega)
  refine ⟨mem, ?_, h.append (bytes [c]) (hlen.trans hsize) hmem⟩
  rw [ModbusBuffer.storeChar, h.index hn (by omega), hcopy]
  rfl

theorem Stored.snprintf (h : Stored n buf off text) (hn : n < 2 ^ 31) {m : UInt32}
    (hroom : text.length + m.toNat = n) (more : Bytes) (hfit : more.length < m.toNat) :
    ∃ buf', snprintf buf off m more = .ok (buf', Int32.ofNat more.length) ∧
      Stored n buf' (off + Int32.ofNat more.length) (text ++ more) := by
  have hsize := h.size
  have hne : ¬ m = 0 := by
    rintro rfl
    exact absurd hfit (Nat.not_lt_zero _)
  have htake : more.take (m.toNat - 1) = more := List.take_of_length_le (by omega)
  have hstored : (more ++ [0]).length = more.length + 1 := List.length_append
  obtain ⟨mem, hcopy, hlen, hmem⟩ :
      ∃ mem, copy buf text.length (more ++ [0]) (more ++ [0]).length = .ok mem ∧
        mem.length = buf.length ∧ mem.take (text.length + (more ++ [0]).length) =
          buf.take text.length ++ (more ++ [0]).take (more ++ [0]).length :=
    copy_spec (Nat.le_refl _) (by omega)
  have hfront : mem.take (text.length + more.length) = buf.take text.length ++ more := by
    have hlonger : text.length + more.length ≤ text.length + (more ++ [0]).length := by omega
    have hwhole : (buf.take text.length ++ more).length = text.length + more.length := by
      rw [List.length_append, List.length_take, Nat.min_eq_left (by omega)]
    rw [← Nat.min_eq_left hlonger, ← List.take_take, hmem, List.take_length, ← List.append_assoc]
    exact List.take_left' hwhole
  refine ⟨mem, ?_, h.append more (hlen.trans hsize) hfront⟩
  simp only [ModbusBuffer.snprintf, if_neg hne, htake, h.index hn (by omega), hcopy, bind,
    Except.bind, pure, Except.pure]

theorem Stored.before_end (h : Stored n buf off text) (hn : n < 2 ^ 31) (hsz : bufSz.toNat = n)
    {k : Nat} (hk : k ≤ n) (hlt : text.length < n - k) :
    off < bufSz.toInt32 - Int32.ofNat k := by
  have hint : bufSz.toInt32 = Int32.ofNat n := by
    rw [← hsz]
    exact (congrArg UInt32.toInt32 (UInt32.ofNat_toNat (x := bufSz))).symm
  rw [hint, ← Int32.ofNat_sub _ _ hk, h.off]
  exact (Int32.ofNat_lt_iff_lt (by omega) (by omega)).2 hlt

theorem Stored.room (h : Stored n buf off text) (hsz : bufSz.toNat = n) (hle : text.length ≤ n) :
    text.length + (bufSz - off.toUInt32).toNat = n := by
  have hbig := bufSz.toNat_lt
  have hoff : off.toUInt32 = UInt32.ofNat text.length := by
    rw [h.off, Int32.toUInt32_ofNat']
  rw [hoff, ← UInt32.ofNat_toNat (x := bufSz), ← UInt32.ofNat_sub (by omega),
    UInt32.toNat_ofNat']
  omega

theorem load_ok {regs : Bytes} {i : Nat} (hi : i < regs.length) :
    load regs i = .ok (regs.getD i 0) := by
  simp only [load, List.getD_eq_getElem?_getD, List.getElem?_eq_getElem hi, Option.getD_some]

theorem word_toNat (lo hi : UInt8) :
    (lo.toUInt16 ||| (hi.toUInt16 <<< 8)).toNat = lo.toNat + 256 * hi.toNat := by
  have hlo := lo.toNat_lt
  have hhi := hi.toNat_lt
  have h8 : (8 : UInt16).toNat % 16 = 8 := rfl
  have hshift : (hi.toNat <<< 8) % 2 ^ 16 = 2 ^ 8 * hi.toNat := by
    rw [Nat.shiftLeft_eq, Nat.mul_comm]
    omega
  rw [UInt16.toNat_or, UInt16.toNat_shiftLeft, UInt8.toNat_toUInt16, UInt8.toNat_toUInt16, h8,
    hshift, Nat.or_comm, ← Nat.two_pow_add_eq_or_of_lt hlo]
  omega

theorem element_ok {regs : Bytes} {size : UInt8} {amount i : Nat} (hsize : size = 1 ∨ size = 2)
    (hregs : amount * size.toNat ≤ regs.length) (hi : i < amount) :
    element regs size i = .ok (regValue regs size i) := by
  rcases hsize with rfl | rfl
  · have h1 : (1 : UInt8).toNat = 1 := rfl
    rw [h1] at hregs
    rw [element, if_neg (by decide), load_ok (by omega), regValue, if_neg (by decide)]
    rfl
  · have h2 : (2 : UInt8).toNat = 2 := rfl
    rw [h2] at hregs
    rw [element, if_pos rfl, load_ok (by omega), load_ok (by omega), regValue, if_pos rfl,
      ← word_toNat]
    rfl

theorem Stored.separate (h : Stored n buf off text) (hn : n < 2 ^ 31) (hsz : bufSz.toNat = n)
    (hfit : text.length < n - 1) (i : Nat) :
    ∃ buf' off', separate bufSz buf off i = .ok (buf', off') ∧
      Stored n buf' off' (text ++ bytes (if i = 0 then [] else [','])) := by
  by_cases hi : i = 0
  · refine ⟨buf, off, if_neg (by omega), ?_⟩
    have hsame : text ++ bytes [] = text := List.append_nil text
    rw [if_pos hi, hsame]
    exact h
  · obtain ⟨buf', hstore, h'⟩ := h.storeChar hn (by omega) ','
    refine ⟨buf', off + 1, ?_, ?_⟩
    · rw [ModbusBuffer.separate, if_pos ⟨by omega, h.before_end hn hsz (k := 1) (by omega) hfit⟩,
        hstore]
    · rw [if_neg hi]
      exact h'

theorem Stored.putElement {head : List Char} {regs : Bytes} {size : UInt8} {i : Nat}
    (h : Stored n buf off (bytes (head ++ commas (regValues regs size i))))
    (hn : n < 2 ^ 31) (hsz : bufSz.toNat = n) (hfit : head.length + 6 * (i + 1) < n)
    (hload : element regs size i = .ok (regValue regs size i)) :
    ∃ buf' off', putElement bufSz regs size (buf, off) i = .ok (buf', off') ∧
      Stored n buf' off' (bytes (head ++ commas (regValues regs size (i + 1)))) := by
  have hlen := regValues_commas_length regs size i
  have hdec := decimal_length (by omega) (regValue_lt regs size i)
  have hsep : (if i = 0 then [] else [',']).length ≤ 1 := by
    split <;> simp
  obtain ⟨buf₁, off₁, hfirst, h₁⟩ := h.separate hn hsz
    (by rw [bytes_length, List.length_append]; omega) i
  rw [← bytes_append] at h₁
  have hlen₁ : (bytes (head ++ commas (regValues regs size i) ++
      (if i = 0 then [] else [',']))).length ≤ head.length + 6 * i + 1 := by
    simp only [bytes_length, List.length_append]
    omega
  have hroom := h₁.room hsz (by omega)
  obtain ⟨buf₂, hprint, h₂⟩ := h₁.snprintf hn hroom (bytes (decimal (regValue regs size i)))
    (by rw [bytes_length]; omega)
  refine ⟨buf₂, off₁ + Int32.ofNat (bytes (decimal (regValue regs size i))).length, ?_, ?_⟩
  · simp only [ModbusBuffer.putElement, hfirst, hload, hprint, bind, Except.bind, pure, Except.pure]
  · rw [← bytes_append, List.append_assoc, List.append_assoc, ← regValues_snoc] at h₂
    exact h₂

theorem Stored.foldElements {head : List Char} {regs : Bytes} {size : UInt8}
    (h : Stored n buf off (bytes head)) (hn : n < 2 ^ 31) (hsz : bufSz.toNat = n) (amount : Nat)
    (hfit : head.length + 6 * amount < n)
    (hload : ∀ i < amount, element regs size i = .ok (regValue regs size i)) :
    ∃ buf' off',
      (List.range amount).foldlM (ModbusBuffer.putElement bufSz regs size) (buf, off) =
        .ok (buf', off') ∧
      Stored n buf' off' (bytes (head ++ commas (regValues regs size amount))) := by
  induction amount with
  | zero =>
      refine ⟨buf, off, rfl, ?_⟩
      have hnone : head ++ commas (regValues regs size 0) = head := List.append_nil head
      rw [hnone]
      exact h
  | succ amount ih =>
      obtain ⟨buf₁, off₁, hloop, h₁⟩ := ih (by omega) (fun i hi => hload i (by omega))
      obtain ⟨buf₂, off₂, hlast, h₂⟩ := h₁.putElement hn hsz hfit (hload amount (by omega))
      refine ⟨buf₂, off₂, ?_, h₂⟩
      rw [List.range_succ, List.foldlM_append, hloop]
      simp only [bind, Except.bind, List.foldlM_cons, List.foldlM_nil, hlast, pure, Except.pure]

theorem Stored.closeText {text : List Char} (h : Stored n buf off (bytes text)) (hn : n < 2 ^ 31)
    (hsz : bufSz.toNat = n) (hfit : text.length < n - 2) :
    ∃ buf' off', closeText bufSz buf off = .ok (buf', off') ∧
      Stored n buf' off' (bytes (text ++ [']', '\x7d'])) ∧
      buf'[text.length + 2]? = some 0 := by
  obtain ⟨buf₁, hstore₁, h₁⟩ := h.storeChar hn (by rw [bytes_length]; omega) ']'
  rw [← bytes_append] at h₁
  obtain ⟨buf₂, hstore₂, h₂⟩ := h₁.storeChar hn
    (by rw [bytes_length, List.length_append, List.length_singleton]; omega) '\x7d'
  rw [← bytes_append, List.append_assoc] at h₂
  have hlen : (bytes (text ++ ([']'] ++ ['\x7d']))).length = text.length + 2 := by
    rw [bytes_length, List.length_append]
    rfl
  have hsize := h₂.size
  have hcut : (buf₂.take (text.length + 2)).length = text.length + 2 := by
    rw [List.length_take, Nat.min_eq_left (by omega)]
  have hcopy : copy buf₂ (text.length + 2) [0] 1 =
      .ok (buf₂.take (text.length + 2) ++ [0] ++ buf₂.drop (text.length + 2 + 1)) :=
    copy_ok (Nat.le_refl 1) (by omega)
  have hroom : off < bufSz.toInt32 - 2 :=
    h.before_end hn hsz (k := 2) (by omega) (by rw [bytes_length]; exact hfit)
  refine ⟨buf₂.take (text.length + 2) ++ [0] ++ buf₂.drop (text.length + 2 + 1), off + 1 + 1, ?_,
    ⟨?_, ?_, h₂.off⟩, ?_⟩
  · rw [ModbusBuffer.closeText, if_pos hroom]
    simp only [hstore₁, hstore₂, h₂.index hn (by omega), hlen, hcopy, bind, Except.bind, pure,
      Except.pure]
  · simp only [List.length_append, List.length_drop, List.length_take, List.length_singleton]
    omega
  · rw [← List.singleton_append, hlen, List.append_assoc, List.take_left' hcut, ← hlen, h₂.front]
  · rw [List.append_assoc, List.getElem?_append_right (by omega), hcut, Nat.sub_self]
    rfl

/-- What the library promises of a frame's data: elements of one or two bytes,
with the memory they need. -/
def Backed (d : FrameData) : Prop :=
  ∀ regs, d.regs = some regs → (d.size = 1 ∨ d.size = 2) ∧ d.amount.toNat * d.size.toNat ≤ regs.length

theorem estimate_toNat (amount : UInt8) : (estimate amount).toNat = 96 + 9 * amount.toNat := by
  have hlt := amount.toNat_lt
  have h9 : (9 : UInt32).toNat = 9 := rfl
  have h96 : (96 : UInt32).toNat = 96 := rfl
  by_cases hpos : amount > 0
  · rw [estimate, if_pos hpos, UInt32.toNat_add, UInt32.toNat_mul, UInt8.toNat_toUInt32, h9, h96]
    omega
  · have hzero : amount.toNat = 0 := by
      rw [gt_iff_lt, UInt8.lt_iff_toNat_lt] at hpos
      exact Nat.eq_zero_of_not_pos hpos
    rw [estimate, if_neg hpos, hzero]
    rfl

theorem element_backed {lib : ModbusLib} {f : ModbusFrame} {regs : Bytes}
    (h : Backed (lib.frameData f)) (hregs : shownRegs lib f = some regs) :
    ∀ i < (lib.frameData f).amount.toNat, element regs (lib.frameData f).size i =
      .ok (regValue regs (lib.frameData f).size i) := by
  intro i hi
  rw [shownRegs] at hregs
  split at hregs
  · obtain ⟨hsize, hlen⟩ := h regs hregs
    exact element_ok hsize hlen hi
  · cases hregs

theorem responseData_shown (lib : ModbusLib) (f : ModbusFrame) :
    responseData lib f = (shownRegs lib f).elim []
      (fun regs => regValues regs (lib.frameData f).size (lib.frameData f).amount.toNat) := by
  rw [responseData, shownRegs]
  cases hregs : (lib.frameData f).regs with
  | none => rw [ite_self, Option.elim_none]
  | some regs =>
      cases herr : lib.isErrorFrame f with
      | true => rfl
      | false =>
          by_cases hpos : (lib.frameData f).amount > 0
          · rw [if_pos ⟨rfl, hpos⟩]
            rfl
          · have hzero : (lib.frameData f).amount.toNat = 0 := by
              rw [gt_iff_lt, UInt8.lt_iff_toNat_lt] at hpos
              exact Nat.eq_zero_of_not_pos hpos
            rw [if_neg (fun h => hpos h.2), hzero]
            rfl

theorem responseData_length (lib : ModbusLib) (f : ModbusFrame) :
    (commas (responseData lib f)).length ≤ 6 * (lib.frameData f).amount.toNat := by
  rw [responseData_shown]
  cases shownRegs lib f with
  | none => exact Nat.zero_le _
  | some regs => exact regValues_commas_length _ _ _

theorem Stored.putElements {lib : ModbusLib} {f : ModbusFrame} {head : List Char}
    (h : Stored n buf off (bytes head)) (hn : n < 2 ^ 31) (hsz : bufSz.toNat = n)
    (hback : Backed (lib.frameData f)) (hfit : head.length + 6 * (lib.frameData f).amount.toNat < n) :
    ∃ buf' off', putElements lib f bufSz (buf, off) = .ok (buf', off') ∧
      Stored n buf' off' (bytes (head ++ commas (responseData lib f))) := by
  rw [responseData_shown, ModbusBuffer.putElements]
  cases hregs : shownRegs lib f with
  | none =>
      refine ⟨buf, off, rfl, ?_⟩
      have hnone : head ++ commas [] = head := List.append_nil head
      rw [Option.elim_none, hnone]
      exact h
  | some regs => exact h.foldElements hn hsz _ hfit (element_backed hback hregs)

theorem formatBlock_stored {lib : ModbusLib} {f : ModbusFrame} {block : Bytes}
    (hback : Backed (lib.frameData f))
    (hblock : block.length = (estimate (lib.frameData f).amount).toNat) :
    ∃ buf off, formatBlock lib f block = .ok (buf, off) ∧
      Stored block.length buf off (bytes (responseText lib f)) ∧
      (responseText lib f).length < block.length ∧
      buf[(responseText lib f).length]? = some 0 := by
  have hest := estimate_toNat (lib.frameData f).amount
  have hamount := (lib.frameData f).amount.toNat_lt
  have hdata := responseData_length lib f
  have herr : (if lib.isErrorFrame f then 1 else 0) = (lib.isErrorFrame f).toNat := by
    cases lib.isErrorFrame f <;> rfl
  have hhead := header_length f.ucAddr.toNat_lt (f.ucFunc &&& ~~~lib.modbusErrorFlag).toNat_lt
    (lib.frameData f).code.toNat_lt f.usRegAddr.toNat_lt hamount
    (show (lib.isErrorFrame f).toNat < 10 by cases lib.isErrorFrame f <;> decide)
  rw [responseText, formatBlock, herr]
  generalize responseHeader _ _ _ _ _ _ = head at hhead ⊢
  have hempty : Stored block.length block 0 [] := ⟨rfl, List.take_zero, rfl⟩
  obtain ⟨buf₁, hprint, h₁⟩ := hempty.snprintf (by omega) (m := estimate (lib.frameData f).amount)
    (by rw [List.length_nil, hblock]; omega) (bytes head) (by rw [bytes_length]; omega)
  rw [List.nil_append, Int32.zero_add] at h₁
  obtain ⟨buf₂, off₂, hloop, h₂⟩ := h₁.putElements (by omega) hblock.symm hback (by omega)
  have hlen : (head ++ commas (responseData lib f)).length < block.length - 2 := by
    rw [List.length_append]
    omega
  obtain ⟨buf₃, off₃, hclose, h₃, hzero⟩ := h₂.closeText (by omega) hblock.symm hlen
  rw [← List.append_assoc]
  have hwhole : (head ++ commas (responseData lib f) ++ [']', '\x7d']).length =
      (head ++ commas (responseData lib f)).length + 2 := List.length_append
  refine ⟨buf₃, off₃, ?_, h₃, by omega, by rw [hwhole]; exact hzero⟩
  simp only [hprint, hloop, hclose, bind, Except.bind]

def response (lib : ModbusLib) (f : ModbusFrame) : Value :=
  .object [(['A', 'D', 'R'], .number f.ucAddr.toNat),
    (['F', 'N'], .number (f.ucFunc &&& ~~~lib.modbusErrorFlag).toNat),
    (['C', 'V'], .number (lib.frameData f).code.toNat),
    (['R', 'A'], .number f.usRegAddr.toNat),
    (['R', 'C'], .number (lib.frameData f).amount.toNat),
    (['E', 'R', 'R'], .number (lib.isErrorFrame f).toNat),
    (['R', 'D'], .array ((responseData lib f).map (fun v : Nat => Value.number v)))]

theorem commas_joined (ns : List Nat) : commas ns = joined (ns.map decimal) := by
  induction ns with
  | nil => rfl
  | cons n ns ih =>
      cases ns with
      | nil => rfl
      | cons m ms =>
          rw [commas, ih]
          rfl

theorem Reads.numbers (ns : List Nat) :
    Reads ('[' :: commas ns ++ [']']) (.array (ns.map (fun v : Nat => Value.number v))) := by
  have h := Reads.array (ns.map (fun v => (decimal v, Value.number v))) (fun pair hpair => by
    obtain ⟨v, -, rfl⟩ := List.mem_map.1 hpair
    exact Reads.decimal v)
  rw [List.map_map, List.map_map] at h
  rw [commas_joined]
  exact h

def responseEntries (lib : ModbusLib) (f : ModbusFrame) : List (List Char × List Char × Value) :=
  [(['A', 'D', 'R'], decimal f.ucAddr.toNat, .number f.ucAddr.toNat),
    (['F', 'N'], decimal (f.ucFunc &&& ~~~lib.modbusErrorFlag).toNat,
      .number (f.ucFunc &&& ~~~lib.modbusErrorFlag).toNat),
    (['C', 'V'], decimal (lib.frameData f).code.toNat, .number (lib.frameData f).code.toNat),
    (['R', 'A'], decimal f.usRegAddr.toNat, .number f.usRegAddr.toNat),
    (['R', 'C'], decimal (lib.frameData f).amount.toNat, .number (lib.frameData f).amount.toNat),
    (['E', 'R', 'R'], decimal (lib.isErrorFrame f).toNat, .number (lib.isErrorFrame f).toNat),
    (['R', 'D'], '[' :: commas (responseData lib f) ++ [']'],
      .array ((responseData lib f).map (fun v : Nat => Value.number v)))]

theorem reads_response (lib : ModbusLib) (f : ModbusFrame) :
    Reads (responseText lib f) (response lib f) := by
  have hreads : ∀ entry ∈ responseEntries lib f, Plain entry.1 ∧ Reads entry.2.1 entry.2.2 := by
    simp only [responseEntries, List.forall_mem_cons, Reads.decimal, Reads.numbers, and_true]
    simp only [List.not_mem_nil, false_implies, implies_true, and_true]
    decide
  have h := Reads.object (responseEntries lib f) (List.cons_ne_nil _ _) hreads
  have htext : '\x7b' :: joined ((responseEntries lib f).map
      (fun entry => memberText (entry.1, entry.2.1))) ++ ['\x7d'] = responseText lib f := by
    simp [responseEntries, joined, memberText, responseText, responseHeader, key]
  rw [htext] at h
  exact h

theorem isJson_response (lib : ModbusLib) (f : ModbusFrame) :
    IsJson (bytes (responseText lib f)) (response lib f) :=
  ⟨responseText lib f, utf8_ascii (ascii_responseText lib f), (reads_response lib f).read⟩

theorem formattedText_ok {heap : Heap} {lib : ModbusLib} {f : ModbusFrame} {block : Bytes}
    (hback : Backed (lib.frameData f))
    (hblock : heap.malloc (estimate (lib.frameData f).amount) = some block) :
    formattedText heap lib f = .ok (some (bytes (responseText lib f))) := by
  have hest := estimate_toNat (lib.frameData f).amount
  have hamount := (lib.frameData f).amount.toNat_lt
  have hsize := heap.size _ _ hblock
  obtain ⟨buf, off, hformat, hstored, hfit, -⟩ := formatBlock_stored hback hsize
  have hoff := hstored.index (by omega) (by rw [bytes_length]; omega)
  have hbuf := hstored.size
  have hfront := hstored.front
  rw [bytes_length] at hoff hfront
  simp only [formattedText, hblock, hformat, bind, Except.bind, hoff]
  rw [if_neg (by omega), hfront]
  rfl

/-- The buffer of the task's transaction holds the same text. -/
theorem formattedText_formatMbResponse {heap : Heap} {lib : ModbusLib} {f : ModbusFrame}
    {block : Bytes} (hback : Backed (lib.frameData f))
    (hblock : heap.malloc (estimate (lib.frameData f).amount) = some block) :
    formattedText heap lib f = .ok (some (bytes ((formatMbResponse lib f).buf.take
      (formatMbResponse lib f).off))) := by
  rw [(formatMbResponse_holds lib f).take]
  exact formattedText_ok hback hblock

/-- Whatever block the heap returns, the reply is a whole JSON text of the
frame, and the block has room for it and its terminator. -/
theorem response_complete (heap : Heap) (lib : ModbusLib) (f : ModbusFrame) {block : Bytes}
    (hback : Backed (lib.frameData f))
    (hblock : heap.malloc (estimate (lib.frameData f).amount) = some block) :
    ∃ buf data, formatBlock lib f block = .ok (buf, Int32.ofNat data.length) ∧
      formattedText heap lib f = .ok (some data) ∧
      buf.length = block.length ∧ buf.take (data.length + 1) = data ++ [0] ∧
      IsJson data (response lib f) := by
  obtain ⟨buf, off, hformat, hstored, -, hzero⟩ :=
    formatBlock_stored hback (heap.size _ _ hblock)
  refine ⟨buf, bytes (responseText lib f), ?_, formattedText_ok hback hblock, hstored.size, ?_,
    isJson_response lib f⟩
  · rw [hformat, hstored.off]
  · rw [List.take_add_one, hstored.front, bytes_length, hzero]
    rfl

def twoWords : ModbusFrame := ⟨1, 3, 10, 2, 0, 4, some [2, 1, 255, 255]⟩

theorem response_complete_words : ∃ buf data,
    formatBlock wordLib twoWords (List.replicate 114 0) = .ok (buf, Int32.ofNat data.length) ∧
    formattedText cleanHeap wordLib twoWords = .ok (some data) ∧
    buf.length = (List.replicate 114 0).length ∧ buf.take (data.length + 1) = data ++ [0] ∧
    IsJson data (.object [(['A', 'D', 'R'], .number 1), (['F', 'N'], .number 3),
      (['C', 'V'], .number 0), (['R', 'A'], .number 10), (['R', 'C'], .number 2),
      (['E', 'R', 'R'], .number 0), (['R', 'D'], .array [.number 258, .number 65535])]) := by
  have hback : Backed (wordLib.frameData twoWords) := by
    intro regs hregs
    obtain rfl : [2, 1, 255, 255] = regs := Option.some.inj hregs
    exact ⟨Or.inr rfl, by decide⟩
  exact response_complete cleanHeap wordLib twoWords hback rfl

end WirelessGateway.ModbusBuffer
