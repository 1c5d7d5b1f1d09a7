import WirelessGateway.Lib.Checksum
import WirelessGateway.SlaveFrame

namespace WirelessGateway.SlaveFrame

open Lib.Checksum

def crcTail (crc : UInt16) : Frame := [(crc &&& 0xFF).toUInt8, (crc >>> 8).toUInt8]

def crcWord (lo hi : UInt8) : UInt16 := lo.toUInt16 ||| (hi.toUInt16 <<< 8)

def flipBit (frame : Frame) (i : Nat) (k : Fin 8) : Frame :=
  frame.set i (frame.getD i 0 ^^^ (1 <<< UInt8.ofNat k))

example : flipBit [1, 0xFF] 1 7 = [1, 0x7F] := by decide

variable {f frame : Frame} {i : Nat}

section Words

theorem crcWord_toNat (lo hi : UInt8) : (crcWord lo hi).toNat = hi.toNat * 256 + lo.toNat := by
  have hlo := lo.toNat_lt
  have hhi := hi.toNat_lt
  have hor := Nat.shiftLeft_add_eq_or_of_lt (show lo.toNat < 2 ^ 8 from hlo) hi.toNat
  have hshift : (hi.toUInt16 <<< 8).toNat = hi.toNat * 256 := by
    rw [UInt16.toNat_shiftLeft, UInt8.toNat_toUInt16]
    exact (congrArg (fun n => n % 65536) (Nat.shiftLeft_eq hi.toNat 8)).trans
      (Nat.mod_eq_of_lt (by omega))
  rw [crcWord, UInt16.toNat_or, hshift, UInt8.toNat_toUInt16, Nat.or_comm]
  rw [Nat.shiftLeft_eq] at hor
  exact hor.symm

theorem low_toNat (crc : UInt16) : (crc &&& 0xFF).toUInt8.toNat = crc.toNat % 256 := by
  have hmask : crc.toNat &&& 255 = crc.toNat % 256 := Nat.and_two_pow_sub_one_eq_mod crc.toNat 8
  rw [UInt16.toNat_toUInt8, UInt16.toNat_and]
  exact (congrArg (fun n => n % 256) hmask).trans (Nat.mod_mod _ _)

theorem high_toNat (crc : UInt16) : (crc >>> 8).toUInt8.toNat = crc.toNat / 256 := by
  have hcrc := crc.toNat_lt
  have hshift : (crc >>> 8).toNat = crc.toNat / 256 := by
    rw [UInt16.toNat_shiftRight]
    exact Nat.shiftRight_eq_div_pow crc.toNat 8
  rw [UInt16.toNat_toUInt8, hshift]
  omega

theorem crcWord_tail (crc : UInt16) : crcWord (crc &&& 0xFF).toUInt8 (crc >>> 8).toUInt8 = crc := by
  apply UInt16.toNat_inj.1
  rw [crcWord_toNat, low_toNat, high_toNat]
  omega

theorem crcTail_word (lo hi : UInt8) : crcTail (crcWord lo hi) = [lo, hi] := by
  have hlt := lo.toNat_lt
  have hlo : (crcWord lo hi &&& 0xFF).toUInt8 = lo := by
    apply UInt8.toNat_inj.1
    rw [low_toNat, crcWord_toNat]
    omega
  have hhi : (crcWord lo hi >>> 8).toUInt8 = hi := by
    apply UInt8.toNat_inj.1
    rw [high_toNat, crcWord_toNat]
    omega
  rw [crcTail, hlo, hhi]

theorem crcTail_length (crc : UInt16) : (crcTail crc).length = 2 := rfl

theorem crcTail_injective : Function.Injective crcTail := by
  intro crc crc' h
  injection h with hlo htail
  injection htail with hhi
  rw [← crcWord_tail crc, ← crcWord_tail crc', hlo, hhi]

end Words

section Detection

theorem crcBit_toBitVec (crc : UInt16) : (crcBit crc).toBitVec = shift 0xA001#16 crc.toBitVec := by
  have hbit : crc &&& 1 = 0 ↔ crc.toBitVec.getLsbD 0 = false := by
    rw [← UInt16.toBitVec_inj, UInt16.toBitVec_and]
    change crc.toBitVec &&& 1#16 = 0#16 ↔ _
    rw [BitVec.and_one_eq_setWidth_ofBool_getLsbD]
    cases crc.toBitVec.getLsbD 0 <;> decide
  rw [crcBit, shift]
  cases h : crc.toBitVec.getLsbD 0 with
  | false =>
      rw [if_neg (not_not.2 (hbit.2 h))]
      rfl
  | true =>
      rw [if_pos (fun h0 => Bool.false_ne_true ((hbit.1 h0).symm.trans h))]
      rfl

theorem crcByte_toBitVec (crc : UInt16) (byte : UInt8) :
    (crcByte crc byte).toBitVec = absorb 0xA001#16 8 crc.toBitVec byte.toBitVec := by
  have hbits : Function.Semiconj UInt16.toBitVec crcBit (shift 0xA001#16) := crcBit_toBitVec
  rw [crcByte, absorb, hbits.iterate_right 8, UInt16.toBitVec_xor]
  rfl

theorem crcByte_lossless : Lossless crcByte := by
  have h : Lossless (absorb (v := 8) 0xA001#16 8) := absorb_lossless (by decide) (by decide) 8
  constructor
  · intro byte crc crc' heq
    have hvec := congrArg UInt16.toBitVec heq
    dsimp only at hvec
    rw [crcByte_toBitVec, crcByte_toBitVec] at hvec
    exact UInt16.toBitVec_inj.1 (h.sum byte.toBitVec hvec)
  · intro crc byte byte' heq
    have hvec := congrArg UInt16.toBitVec heq
    rw [crcByte_toBitVec, crcByte_toBitVec] at hvec
    exact UInt8.toBitVec_inj.1 (h.symbol crc.toBitVec hvec)

theorem appendCrc_eq (f : Frame) : appendCrc f = encode crcByte crcTail 0xFFFF f := rfl

theorem checkCrc_append (hf : f ≠ []) (lo hi : UInt8) :
    checkCrc (f ++ [lo, hi]) = decide (crc16 f = crcWord lo hi) := by
  have hlen : (f ++ [lo, hi]).length = f.length + 2 := List.length_append
  have hpos := List.length_pos_iff.2 hf
  have hlo : (f ++ [lo, hi]).getD f.length 0 = lo := by simp
  have hhi : (f ++ [lo, hi]).getD (f.length + 1) 0 = hi := by
    simp
  rw [checkCrc, hlen, if_neg (by omega), Nat.add_sub_cancel, List.take_left, hlo]
  have hlast : f.length + 2 - 1 = f.length + 1 := rfl
  rw [hlast, hhi, crcWord]

theorem checkCrc_appendCrc (hf : f ≠ []) : checkCrc (appendCrc f) = true := by
  rw [appendCrc, checkCrc_append hf, crcWord_tail]
  exact decide_eq_true rfl

theorem appendCrc_of_check (h : checkCrc frame = true) : ∃ f, f ≠ [] ∧ frame = appendCrc f := by
  have hlen := checkCrc_length h
  have htwo : (frame.drop (frame.length - 2)).length = 2 := by
    rw [List.length_drop]
    omega
  obtain ⟨lo, hi, htail⟩ := List.length_eq_two.1 htwo
  have hf : frame.take (frame.length - 2) ≠ [] := by
    rw [← List.length_pos_iff, List.length_take]
    omega
  have hsplit : frame = frame.take (frame.length - 2) ++ [lo, hi] := by
    rw [← htail, List.take_append_drop]
  rw [hsplit, checkCrc_append hf] at h
  refine ⟨frame.take (frame.length - 2), hf, hsplit.trans ?_⟩
  rw [← crcTail_word lo hi, ← of_decide_eq_true h]
  rfl

theorem flipBit_ne (hi : i < frame.length) (k : Fin 8) : flipBit frame i k ≠ frame := by
  have hmask : ∀ k : Fin 8, (1 : UInt8) <<< UInt8.ofNat k ≠ 0 := by decide
  intro heq
  have hbyte := congrArg (fun l => l.getD i 0) heq
  simp only [flipBit, List.getD_eq_getElem?_getD, List.getElem?_set_self hi, Option.getD_some] at hbyte
  exact hmask k ((UInt8.xor_right_inj _).1 (hbyte.trans UInt8.xor_zero.symm))

/-- A change of one bit is detected, in the data as in the CRC. -/
theorem checkCrc_flipBit (hi : i < (appendCrc f).length) (k : Fin 8) :
    checkCrc (flipBit (appendCrc f) i k) = false := by
  by_contra h
  obtain ⟨g, -, hg⟩ := appendCrc_of_check (Bool.not_eq_false _ ▸ h)
  have hset := hg.symm
  rw [flipBit, appendCrc_eq, appendCrc_eq] at hset
  have hcode := crcByte_lossless.set_encode crcTail_length crcTail_injective hset
  exact flipBit_ne hi k (hg.trans hcode)

end Detection

end WirelessGateway.SlaveFrame
