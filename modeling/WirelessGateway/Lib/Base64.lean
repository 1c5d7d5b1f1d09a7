import Mathlib.Data.List.Basic

namespace WirelessGateway.Lib.Base64

def digit (d : Nat) : UInt8 :=
  if d < 26 then UInt8.ofNat (d + 65)
  else if d < 52 then UInt8.ofNat (d + 71)
  else if d < 62 then UInt8.ofNat (d - 4)
  else if d = 62 then 43
  else 47

def value (b : UInt8) : Option Nat :=
  if 65 ≤ b ∧ b ≤ 90 then some (b.toNat - 65)
  else if 97 ≤ b ∧ b ≤ 122 then some (b.toNat - 71)
  else if 48 ≤ b ∧ b ≤ 57 then some (b.toNat + 4)
  else if b = 43 then some 62
  else if b = 47 then some 63
  else none

def pad : UInt8 := 61

def inAlphabet (b : UInt8) : Bool := (value b).isSome || b == pad

def encode : List UInt8 → List UInt8
  | [] => []
  | [a] => [digit (a.toNat / 4), digit (a.toNat % 4 * 16), pad, pad]
  | [a, b] => [digit (a.toNat / 4), digit (a.toNat % 4 * 16 + b.toNat / 16),
      digit (b.toNat % 16 * 4), pad]
  | a :: b :: c :: rest => digit (a.toNat / 4) :: digit (a.toNat % 4 * 16 + b.toNat / 16) ::
      digit (b.toNat % 16 * 4 + c.toNat / 64) :: digit (c.toNat % 64) :: encode rest

def byte₁ (w x : Nat) : UInt8 := UInt8.ofNat (w * 4 + x / 16)
def byte₂ (x y : Nat) : UInt8 := UInt8.ofNat (x % 16 * 16 + y / 4)
def byte₃ (y z : Nat) : UInt8 := UInt8.ofNat (y % 4 * 64 + z)

/-- Decodes a text of whole quanta, of which the last one may be padded. -/
def decode : List UInt8 → Option (List UInt8)
  | [] => some []
  | w :: x :: y :: z :: rest =>
    if rest = [] ∧ y = pad ∧ z = pad then do
      let w ← value w
      let x ← value x
      pure [byte₁ w x]
    else if rest = [] ∧ z = pad then do
      let w ← value w
      let x ← value x
      let y ← value y
      pure [byte₁ w x, byte₂ x y]
    else do
      let w ← value w
      let x ← value x
      let y ← value y
      let z ← value z
      let rest ← decode rest
      pure (byte₁ w x :: byte₂ x y :: byte₃ y z :: rest)
  | _ => none

theorem value_digit {d : Nat} (h : d < 64) : value (digit d) = some d := by
  have hall : ∀ d : Fin 64, value (digit d.val) = some d.val := by decide
  exact hall ⟨d, h⟩

theorem digit_ne_pad {d : Nat} (h : d < 64) : digit d ≠ pad := by
  have hall : ∀ d : Fin 64, digit d.val ≠ pad := by decide
  exact hall ⟨d, h⟩

theorem value_inAlphabet {b : UInt8} {d : Nat} (h : value b = some d) : inAlphabet b = true := by
  simp [inAlphabet, h]

theorem byte₁_eq (a : UInt8) {r : Nat} (hr : r < 16) :
    byte₁ (a.toNat / 4) (a.toNat % 4 * 16 + r) = a := by
  have ha := a.toNat_lt
  rw [byte₁, ← UInt8.toNat_inj, UInt8.toNat_ofNat']
  omega

theorem byte₂_eq (b : UInt8) (k : Nat) {r : Nat} (hr : r < 4) :
    byte₂ (k * 16 + b.toNat / 16) (b.toNat % 16 * 4 + r) = b := by
  have hb := b.toNat_lt
  rw [byte₂, ← UInt8.toNat_inj, UInt8.toNat_ofNat']
  omega

theorem byte₃_eq (c : UInt8) (k : Nat) : byte₃ (k * 4 + c.toNat / 64) (c.toNat % 64) = c := by
  have hc := c.toNat_lt
  rw [byte₃, ← UInt8.toNat_inj, UInt8.toNat_ofNat']
  omega

/-- Standard base64 gives every text of bytes back. -/
theorem decode_encode (bs : List UInt8) : decode (encode bs) = some bs := by
  induction bs using encode.induct with
  | case1 => rfl
  | case2 a =>
      have ha := a.toNat_lt
      have h₁ := byte₁_eq a (r := 0) (by omega)
      rw [Nat.add_zero] at h₁
      simp [encode, decode, value_digit (d := a.toNat / 4) (by omega),
        value_digit (d := a.toNat % 4 * 16) (by omega), h₁]
  | case3 a b =>
      have ha := a.toNat_lt
      have hb := b.toNat_lt
      have h₁ := byte₁_eq a (r := b.toNat / 16) (by omega)
      have h₂ := byte₂_eq b (a.toNat % 4) (r := 0) (by omega)
      rw [Nat.add_zero] at h₂
      simp [encode, decode, value_digit (d := a.toNat / 4) (by omega),
        value_digit (d := a.toNat % 4 * 16 + b.toNat / 16) (by omega),
        value_digit (d := b.toNat % 16 * 4) (by omega),
        digit_ne_pad (d := b.toNat % 16 * 4) (by omega), h₁, h₂]
  | case4 a b c rest ih =>
      have ha := a.toNat_lt
      have hb := b.toNat_lt
      have hc := c.toNat_lt
      have h₁ := byte₁_eq a (r := b.toNat / 16) (by omega)
      have h₂ := byte₂_eq b (a.toNat % 4) (r := c.toNat / 64) (by omega)
      have h₃ := byte₃_eq c (b.toNat % 16)
      simp [encode, decode, value_digit (d := a.toNat / 4) (by omega),
        value_digit (d := a.toNat % 4 * 16 + b.toNat / 16) (by omega),
        value_digit (d := b.toNat % 16 * 4 + c.toNat / 64) (by omega),
        value_digit (d := c.toNat % 64) (by omega), digit_ne_pad (d := c.toNat % 64) (by omega), ih,
        h₁, h₂, h₃]

theorem decode_inAlphabet {text bs : List UInt8} (h : decode text = some bs) :
    ∀ b ∈ text, inAlphabet b = true := by
  have hpad : inAlphabet pad = true := by decide
  induction text using decode.induct generalizing bs with
  | case1 => simp
  | case2 w x y z rest hc =>
      obtain ⟨rfl, rfl, rfl⟩ := hc
      simp only [decode, and_self, if_true, Option.bind_eq_bind, Option.bind_eq_some_iff] at h
      obtain ⟨dw, hw, dx, hx, -⟩ := h
      simp only [List.forall_mem_cons]
      exact ⟨value_inAlphabet hw, value_inAlphabet hx, hpad, hpad, by simp⟩
  | case3 w x y z rest hn hc =>
      obtain ⟨rfl, rfl⟩ := hc
      rw [decode, if_neg hn, if_pos ⟨rfl, rfl⟩] at h
      simp only [Option.bind_eq_bind, Option.bind_eq_some_iff] at h
      obtain ⟨dw, hw, dx, hx, dy, hy, -⟩ := h
      simp only [List.forall_mem_cons]
      exact ⟨value_inAlphabet hw, value_inAlphabet hx, value_inAlphabet hy, hpad, by simp⟩
  | case4 w x y z rest hn hn' ih =>
      simp only [decode, hn, hn', if_false, Option.bind_eq_bind, Option.bind_eq_some_iff] at h
      obtain ⟨dw, hw, dx, hx, dy, hy, dz, hz, ds, hs, -⟩ := h
      simp only [List.forall_mem_cons]
      exact ⟨value_inAlphabet hw, value_inAlphabet hx, value_inAlphabet hy, value_inAlphabet hz,
        ih hs⟩
  | case5 text h₁ h₂ =>
      have hnone : decode text = none := by
        unfold decode
        split
        · exact absurd rfl h₁
        · exact absurd rfl (h₂ _ _ _ _ _)
        · rfl
      rw [hnone] at h
      cases h

end WirelessGateway.Lib.Base64
