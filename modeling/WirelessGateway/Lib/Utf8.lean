import Mathlib.Data.List.Basic

namespace WirelessGateway.Lib.Utf8

def utf8 (text : List Char) : List UInt8 := text.flatMap String.utf8EncodeChar

theorem utf8_cons (c : Char) (text : List Char) :
    utf8 (c :: text) = String.utf8EncodeChar c ++ utf8 text := rfl

theorem utf8_append (a b : List Char) : utf8 (a ++ b) = utf8 a ++ utf8 b := List.flatMap_append

theorem encode_ascii {c : Char} (h : c.toNat < 128) :
    String.utf8EncodeChar c = [UInt8.ofNat c.toNat] := by
  have hle : c.val.toNat ≤ 0x7f := Nat.le_of_lt_succ h
  rw [String.utf8EncodeChar, if_pos hle]
  rfl

theorem utf8_cons_ascii {c : Char} (h : c.toNat < 128) (text : List Char) :
    utf8 (c :: text) = UInt8.ofNat c.toNat :: utf8 text := by
  rw [utf8_cons, encode_ascii h]
  rfl

theorem utf8_ascii {text : List Char} (h : ∀ c ∈ text, c.toNat < 128) :
    utf8 text = text.map (fun c => UInt8.ofNat c.toNat) := by
  induction text with
  | nil => rfl
  | cons c text ih =>
      rw [utf8_cons_ascii (h c List.mem_cons_self),
        ih (fun d hd => h d (List.mem_cons_of_mem _ hd)), List.map_cons]

theorem encode_small {c : Char} {b : UInt8} (hb : b ∈ String.utf8EncodeChar c) (hsmall : b < 128) :
    c.toNat < 128 := by
  by_contra hbig
  have hnot : ¬ c.val.toNat ≤ 0x7f := fun hle => hbig (Nat.lt_succ_of_le hle)
  have hlt : b.toNat < 128 := UInt8.lt_iff_toNat_lt.1 hsmall
  rw [String.utf8EncodeChar, if_neg hnot] at hb
  have hbyte : ∀ k, 128 ≤ k → k < 256 → b ≠ UInt8.ofNat k := by
    rintro k hk hk' rfl
    rw [UInt8.toNat_ofNat'] at hlt
    omega
  split at hb
  · simp only [List.mem_cons, List.not_mem_nil, or_false] at hb
    rcases hb with hb | hb
    · exact hbyte _ (by omega) (by omega) hb
    · exact hbyte _ (by omega) (by omega) hb
  · split at hb
    · simp only [List.mem_cons, List.not_mem_nil, or_false] at hb
      rcases hb with hb | hb | hb
      · exact hbyte _ (by omega) (by omega) hb
      · exact hbyte _ (by omega) (by omega) hb
      · exact hbyte _ (by omega) (by omega) hb
    · simp only [List.mem_cons, List.not_mem_nil, or_false] at hb
      rcases hb with hb | hb | hb | hb
      · exact hbyte _ (by omega) (by omega) hb
      · exact hbyte _ (by omega) (by omega) hb
      · exact hbyte _ (by omega) (by omega) hb
      · exact hbyte _ (by omega) (by omega) hb

theorem utf8_head {text : List Char} {c : Char} {data : List UInt8}
    (h : utf8 text = String.utf8EncodeChar c ++ data) :
    ∃ rest, text = c :: rest ∧ utf8 rest = data := by
  cases text with
  | nil =>
      have hnil := (List.append_eq_nil_iff.1 h.symm).1
      exact absurd hnil String.utf8EncodeChar_ne_nil
  | cons d text =>
      rw [utf8_cons] at h
      have hbytes := congrArg List.toByteArray h
      rw [List.toByteArray_append, List.toByteArray_append] at hbytes
      have hd := ByteArray.utf8DecodeChar?_utf8EncodeChar_append (b := (utf8 text).toByteArray)
        (c := d)
      rw [hbytes, ByteArray.utf8DecodeChar?_utf8EncodeChar_append, Option.some.injEq] at hd
      subst hd
      exact ⟨text, rfl, List.append_cancel_left h⟩

theorem utf8_front {front text : List Char} {data : List UInt8}
    (h : utf8 text = utf8 front ++ data) : ∃ rest, text = front ++ rest ∧ utf8 rest = data := by
  induction front generalizing text with
  | nil => exact ⟨text, rfl, h⟩
  | cons c front ih =>
      rw [utf8_cons, List.append_assoc] at h
      obtain ⟨rest, rfl, hrest⟩ := utf8_head h
      obtain ⟨rest', rfl, hdata⟩ := ih hrest
      exact ⟨rest', rfl, hdata⟩

theorem utf8_injective {a b : List Char} (h : utf8 a = utf8 b) : a = b := by
  obtain ⟨rest, rfl, hrest⟩ := utf8_front (h.trans (List.append_nil _).symm)
  cases rest with
  | nil => exact List.append_nil b
  | cons c rest =>
      rw [utf8_cons, List.append_eq_nil_iff] at hrest
      exact absurd hrest.1 String.utf8EncodeChar_ne_nil

/-- A byte below 128 is a character of its own, and parts the text. -/
theorem utf8_split {text : List Char} : ∀ {s rest : List UInt8} {c : Char}, c.toNat < 128 →
    utf8 text = s ++ UInt8.ofNat c.toNat :: rest →
      ∃ a b, text = a ++ c :: b ∧ utf8 a = s ∧ utf8 b = rest := by
  induction text with
  | nil =>
      intro s rest c _ h
      exact absurd h.symm (by simp [utf8])
  | cons d text ih =>
      intro s rest c hc h
      rw [utf8_cons] at h
      rcases List.append_eq_append_iff.1 h with ⟨s', rfl, hs'⟩ | ⟨e, he, hrest⟩
      · obtain ⟨a, b, rfl, rfl, rfl⟩ := ih hc hs'
        exact ⟨d :: a, b, rfl, rfl, rfl⟩
      · cases e with
        | nil =>
            rw [List.append_nil] at he
            obtain ⟨a, b, rfl, ha, rfl⟩ := ih (s := []) hc hrest.symm
            refine ⟨d :: a, b, rfl, ?_, rfl⟩
            rw [utf8_cons, ha, List.append_nil, he]
        | cons x e =>
            obtain ⟨rfl, htail⟩ := List.cons.inj hrest
            have hsmall : UInt8.ofNat c.toNat < 128 := by
              rw [UInt8.lt_iff_toNat_lt, UInt8.toNat_ofNat']
              have h128 : (128 : UInt8).toNat = 128 := rfl
              omega
            have hd := encode_small (c := d) (by rw [he]; simp) hsmall
            rw [encode_ascii hd] at he
            cases s with
            | nil =>
                obtain ⟨hcode, hnil⟩ := List.cons.inj he
                have hval := congrArg UInt8.toNat hcode
                rw [UInt8.toNat_ofNat', UInt8.toNat_ofNat'] at hval
                have hdc : d = c := Char.toNat_inj.1 (by omega)
                subst hdc
                refine ⟨[], text, rfl, rfl, ?_⟩
                rw [htail, ← hnil]
                rfl
            | cons y s =>
                obtain ⟨-, hnil⟩ := List.cons.inj he
                cases s <;> cases hnil

end WirelessGateway.Lib.Utf8
