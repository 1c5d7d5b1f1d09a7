import Mathlib.Data.List.Chain

namespace WirelessGateway.Lib.Ranges

structure Range where
  s : Nat
  n : Nat
  deriving DecidableEq

def Range.Has (r : Range) (x : Nat) : Prop := r.s ≤ x ∧ x < r.s + r.n

/-- Ranges in increasing order that cover a set of numbers and nothing else, and
that are cut only at a gap or at their largest size. -/
structure Plan (limit : Nat) (xs : List Nat) (rs : List Range) : Prop where
  sized : ∀ r ∈ rs, 1 ≤ r.n ∧ r.n ≤ limit
  apart : rs.Pairwise (fun r r' => r.s + r.n ≤ r'.s)
  covers : ∀ x, x ∈ xs ↔ ∃ r ∈ rs, r.Has x
  maximal : rs.IsChain (fun r r' => r.s + r.n < r'.s ∨ r.n = limit)

variable {limit : Nat} {xs ys : List Nat} {rs : List Range} {r : Range} {a : Nat}

theorem Plan.single (hlimit : 1 ≤ limit) (a : Nat) : Plan limit [a] [⟨a, 1⟩] where
  sized := by simpa using hlimit
  apart := List.pairwise_singleton _ _
  covers := by
    intro x
    simp only [List.mem_singleton, exists_eq_left, Range.Has]
    omega
  maximal := List.isChain_singleton _

theorem Plan.perm (h : Plan limit xs rs) (hxs : ∀ x, x ∈ xs ↔ x ∈ ys) : Plan limit ys rs where
  sized := h.sized
  apart := h.apart
  covers := fun x => (hxs x).symm.trans (h.covers x)
  maximal := h.maximal

theorem Plan.extend (h : Plan limit xs (rs ++ [r])) (ha : a = r.s + r.n) (hn : r.n < limit) :
    Plan limit (xs ++ [a]) (rs ++ [⟨r.s, r.n + 1⟩]) where
  sized := by
    intro r' hr'
    rcases List.mem_append.1 hr' with hr' | hr'
    · exact h.sized r' (List.mem_append_left _ hr')
    · rw [List.mem_singleton.1 hr']
      exact ⟨Nat.le_add_left _ _, hn⟩
  apart := by
    have hp := List.pairwise_append.1 h.apart
    exact List.pairwise_append.2 ⟨hp.1, List.pairwise_singleton _ _, by simpa using hp.2.2⟩
  covers := by
    intro x
    have hx := h.covers x
    simp only [List.mem_append, List.mem_singleton, or_and_right, exists_or, exists_eq_left,
      Range.Has] at hx ⊢
    rw [hx]
    have hpos := (h.sized r (by simp)).1
    constructor
    · rintro ((hold | hlast) | rfl)
      · exact Or.inl hold
      · exact Or.inr (by omega)
      · exact Or.inr (by omega)
    · rintro (hold | hlast)
      · exact Or.inl (Or.inl hold)
      · by_cases hnew : x = a
        · exact Or.inr hnew
        · exact Or.inl (Or.inr (by omega))
  maximal := by
    have hc := List.isChain_append.1 h.maximal
    exact List.isChain_append.2 ⟨hc.1, List.isChain_singleton _, by simpa using hc.2.2⟩

theorem Plan.cut (h : Plan limit xs (rs ++ [r])) (ha : r.s + r.n ≤ a)
    (hcut : r.s + r.n < a ∨ r.n = limit) :
    Plan limit (xs ++ [a]) (rs ++ [r] ++ [⟨a, 1⟩]) where
  sized := by
    intro r' hr'
    rcases List.mem_append.1 hr' with hr' | hr'
    · exact h.sized r' hr'
    · have hlast := h.sized r (by simp)
      rw [List.mem_singleton.1 hr']
      exact ⟨Nat.le_refl _, Nat.le_trans hlast.1 hlast.2⟩
  apart := by
    refine List.pairwise_append.2 ⟨h.apart, List.pairwise_singleton _ _, ?_⟩
    intro r' hr' q hq
    rw [List.mem_singleton.1 hq]
    rcases List.mem_append.1 hr' with hr' | hr'
    · have hbefore := (List.pairwise_append.1 h.apart).2.2 r' hr' r (by simp)
      exact Nat.le_trans hbefore (Nat.le_trans (Nat.le_add_right _ _) ha)
    · rw [List.mem_singleton.1 hr']
      exact ha
  covers := by
    intro x
    have hx := h.covers x
    simp only [List.mem_append, List.mem_singleton, or_and_right, exists_or, exists_eq_left,
      Range.Has] at hx ⊢
    rw [hx]
    have hone : (a ≤ x ∧ x < a + 1) ↔ x = a := by omega
    rw [hone]
  maximal := by
    refine List.isChain_append.2 ⟨h.maximal, List.isChain_singleton _, ?_⟩
    simpa using hcut

end WirelessGateway.Lib.Ranges
