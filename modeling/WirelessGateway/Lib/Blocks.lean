import Mathlib.Data.List.Basic

namespace WirelessGateway.Lib.Blocks

variable {α : Type*} {n k : Nat} {data : List α}

/-- The k-th block of n elements, counted from 1. -/
def block (n : Nat) (data : List α) (k : Nat) : List α := (data.drop (n * (k - 1))).take n

/-- The block that ends a transfer is the first one that is not full. -/
def lastBlock (n : Nat) (data : List α) : Nat := data.length / n + 1

theorem block_succ (n : Nat) (data : List α) (k : Nat) :
    block n data (k + 1) = (data.drop (n * k)).take n := rfl

theorem block_length (n : Nat) (data : List α) (k : Nat) :
    (block n data k).length = min n (data.length - n * (k - 1)) := by
  rw [block, List.length_take, List.length_drop]

theorem block_length_le (n : Nat) (data : List α) (k : Nat) : (block n data k).length ≤ n :=
  List.length_take_le _ _

theorem take_append_block (n : Nat) (data : List α) (k : Nat) :
    data.take (n * k) ++ block n data (k + 1) = data.take (n * (k + 1)) := by
  rw [block_succ, Nat.mul_succ, List.take_add]

theorem lt_lastBlock_iff (hn : 0 < n) : k < lastBlock n data ↔ n * k ≤ data.length := by
  rw [lastBlock, Nat.lt_succ_iff, Nat.le_div_iff_mul_le hn, Nat.mul_comm]

theorem block_length_lt_iff (hn : 0 < n) (hk : 0 < k) :
    (block n data k).length < n ↔ lastBlock n data ≤ k := by
  obtain ⟨j, rfl⟩ : ∃ j, k = j + 1 := ⟨k - 1, by omega⟩
  have h : j + 1 < lastBlock n data ↔ n * (j + 1) ≤ data.length := lt_lastBlock_iff hn
  rw [block_length, Nat.add_sub_cancel]
  rw [Nat.mul_succ] at h
  constructor
  · intro hlt
    by_contra hle
    have := h.1 (Nat.lt_of_not_le hle)
    omega
  · intro hle
    have : ¬ n * j + n ≤ data.length := fun hl => Nat.not_lt_of_le hle (h.2 hl)
    omega

theorem take_of_lastBlock_le (hn : 0 < n) (hk : lastBlock n data ≤ k) : data.take (n * k) = data := by
  apply List.take_of_length_le
  have h : k < lastBlock n data ↔ n * k ≤ data.length := lt_lastBlock_iff hn
  have : ¬ n * k ≤ data.length := fun hl => Nat.not_lt_of_le hk (h.2 hl)
  omega

theorem block_eq_nil_iff (hn : 0 < n) : block n data k = [] ↔ data.length ≤ n * (k - 1) := by
  rw [← List.length_eq_zero_iff, block_length]
  omega

/-- Two numbers of blocks that are told apart by what is left of them modulo N. -/
def Near (N j k : Nat) : Prop := j < k + N ∧ k < j + N

theorem Near.eq_of_mod {N j k : Nat} (h : Near N j k) (hmod : j % N = k % N) : j = k := by
  obtain ⟨hj, hk⟩ := h
  have hjk := Nat.sub_mod_eq_zero_of_mod_eq hmod
  have hkj := Nat.sub_mod_eq_zero_of_mod_eq hmod.symm
  rw [Nat.mod_eq_of_lt (by omega)] at hjk hkj
  omega

end WirelessGateway.Lib.Blocks
