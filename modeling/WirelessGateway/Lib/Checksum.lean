import Mathlib.Data.List.Basic
import Mathlib.Logic.Function.Iterate

namespace WirelessGateway.Lib.Checksum

section Coding

variable {σ β : Type} {step : σ → β → σ} {tail : σ → List β} {start s : σ} {l f g : List β} {i : Nat} {b : β}

/-- A step that loses nothing of the sum before it, and nothing of the symbol. -/
structure Lossless (step : σ → β → σ) : Prop where
  sum : ∀ b, Function.Injective (fun s => step s b)
  symbol : ∀ s, Function.Injective (step s)

theorem Lossless.foldl_sum (h : Lossless step) (l : List β) :
    Function.Injective (fun s => l.foldl step s) := by
  induction l with
  | nil => exact Function.injective_id
  | cons b l ih => exact ih.comp (h.sum b)

theorem Lossless.foldl_set (h : Lossless step)
    (heq : (l.set i b).foldl step s = l.foldl step s) : l.set i b = l := by
  induction l generalizing s i with
  | nil => rfl
  | cons c l ih =>
      cases i with
      | zero =>
          have hsum := h.foldl_sum l heq
          exact congrArg (fun d => d :: l) (h.symbol s hsum)
      | succ i => exact congrArg (List.cons c) (ih heq)

def encode (step : σ → β → σ) (tail : σ → List β) (start : σ) (f : List β) : List β :=
  f ++ tail (f.foldl step start)

/-- No code word is another one with one symbol changed. -/
theorem Lossless.set_encode (h : Lossless step) {n : Nat} (hlen : ∀ s, (tail s).length = n)
    (htail : Function.Injective tail)
    (heq : encode step tail start g = (encode step tail start f).set i b) :
    encode step tail start g = encode step tail start f := by
  have hfg : g.length = f.length := by
    have hlengths := congrArg List.length heq
    simp only [encode, List.length_set, List.length_append, hlen] at hlengths
    omega
  suffices hdata : g = f by rw [hdata]
  rw [encode, encode, List.set_append] at heq
  split at heq
  · obtain ⟨hdata, hsum⟩ := List.append_inj heq (by rw [hfg, List.length_set])
    rw [hdata] at hsum
    exact hdata.trans (h.foldl_set (htail hsum))
  · exact (List.append_inj heq hfg).1

end Coding

section Register

variable {v w : Nat} {p x y : BitVec w}

/-- One step of a shift register with feedback, lowest bit first. -/
def shift (p x : BitVec w) : BitVec w := if x.getLsbD 0 then (x >>> 1) ^^^ p else x >>> 1

def absorb (p : BitVec w) (n : Nat) (x : BitVec w) (b : BitVec v) : BitVec w :=
  (shift p)^[n] (x ^^^ b.setWidth w)

theorem shift_msb (hp : p.msb = true) : (shift p x).msb = x.getLsbD 0 := by
  have hshift : (x >>> 1).msb = false := by simp
  rw [shift]
  split
  · rename_i hbit
    rw [BitVec.msb_xor, hshift, hp, hbit]
    rfl
  · rename_i hbit
    rw [hshift, Bool.eq_false_iff.2 hbit]

theorem eq_of_shiftRight (hbit : x.getLsbD 0 = y.getLsbD 0) (hshift : x >>> 1 = y >>> 1) : x = y := by
  apply BitVec.eq_of_getLsbD_eq
  intro i _
  cases i with
  | zero => exact hbit
  | succ i =>
      have hi := congrArg (fun z => BitVec.getLsbD z i) hshift
      simp only [BitVec.getLsbD_ushiftRight] at hi
      rwa [Nat.add_comm] at hi

theorem shift_injective (hp : p.msb = true) : Function.Injective (shift p) := by
  intro x y h
  have hbit : x.getLsbD 0 = y.getLsbD 0 := by
    rw [← shift_msb hp, ← shift_msb hp, h]
  refine eq_of_shiftRight hbit ?_
  rw [shift, shift, hbit] at h
  split at h
  · exact (BitVec.xor_left_inj p).1 h
  · exact h

theorem setWidth_injective (h : v ≤ w) :
    Function.Injective (fun b : BitVec v => b.setWidth w) := by
  intro b c heq
  have hback := congrArg (fun z => BitVec.setWidth v z) heq
  simpa [BitVec.setWidth_setWidth_of_le, h] using hback

theorem absorb_lossless (hp : p.msb = true) (h : v ≤ w) (n : Nat) :
    Lossless (absorb (v := v) p n) where
  sum b := by
    intro x y heq
    exact (BitVec.xor_left_inj _).1 ((shift_injective hp).iterate n heq)
  symbol x := by
    intro b c heq
    exact setWidth_injective h ((BitVec.xor_right_inj x).1 ((shift_injective hp).iterate n heq))

end Register

end WirelessGateway.Lib.Checksum
