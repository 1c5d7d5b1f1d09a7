import Mathlib.Data.List.Nodup
import Mathlib.Data.List.Perm.Subperm
import Mathlib.Logic.Function.Basic

namespace WirelessGateway.Lib.Ownership

/-- The buffers are numbered as they are allocated. A place holds a pointer to
one of them, or a null pointer. -/
structure Heap (κ : Type*) where
  next : Nat
  freed : List Nat
  holds : κ → Option Nat

variable {κ : Type*} {h : Heap κ} {k k' : κ} {b : Nat}

def Heap.empty : Heap κ := ⟨0, [], fun _ => none⟩

/-- No buffer is freed twice, and every buffer is either freed or held in
exactly one place. -/
structure Owned (h : Heap κ) : Prop where
  once : h.freed.Nodup
  freed : ∀ b ∈ h.freed, b < h.next
  live : ∀ k b, h.holds k = some b → b < h.next ∧ b ∉ h.freed
  unique : ∀ k k' b, h.holds k = some b → h.holds k' = some b → k = k'
  kept : ∀ b, b < h.next → b ∈ h.freed ∨ ∃ k, h.holds k = some b

theorem Owned.empty : Owned (.empty : Heap κ) where
  once := .nil
  freed b hb := by cases hb
  live k b hb := by cases hb
  unique k k' b hb := by cases hb
  kept b hb := absurd hb (Nat.not_lt_zero b)

theorem Owned.owner (ho : Owned h) (hb : b < h.next) (hfree : b ∉ h.freed) :
    ∃! k, h.holds k = some b := by
  obtain ⟨k, hk⟩ := (ho.kept b hb).resolve_left hfree
  exact ⟨k, hk, fun k' hk' => ho.unique k' k b hk' hk⟩

def Heap.live (h : Heap κ) : List Nat := (List.range h.next).filter (fun b => !h.freed.contains b)

theorem mem_live : b ∈ h.live ↔ b < h.next ∧ b ∉ h.freed := by
  simp [Heap.live]

theorem Owned.live_length_le (ho : Owned h) {ks : List κ}
    (hks : ∀ k b, h.holds k = some b → k ∈ ks) : h.live.length ≤ ks.length := by
  have hnodup : h.live.Nodup := List.nodup_range.filter _
  have hsub : h.live ⊆ ks.filterMap h.holds := by
    intro b hb
    obtain ⟨hlt, hfree⟩ := mem_live.1 hb
    obtain ⟨k, hk⟩ := (ho.kept b hlt).resolve_left hfree
    exact List.mem_filterMap.2 ⟨k, hks k b hk, hk⟩
  exact Nat.le_trans (hnodup.subperm hsub).length_le (List.length_filterMap_le _ _)

variable [DecidableEq κ]

def Heap.alloc (h : Heap κ) (k : κ) : Heap κ :=
  { h with next := h.next + 1, holds := Function.update h.holds k (some h.next) }

def Heap.free (h : Heap κ) (k : κ) : Heap κ :=
  { h with freed := h.freed ++ (h.holds k).toList, holds := Function.update h.holds k none }

def Heap.frees (h : Heap κ) (ks : List κ) : Heap κ := ks.foldl Heap.free h

def Heap.move (h : Heap κ) (k k' : κ) : Heap κ :=
  { h with holds := Function.update (Function.update h.holds k none) k' (h.holds k) }

/-- A place ends, and what it holds is not freed. -/
def Heap.lose (h : Heap κ) (k : κ) : Heap κ := { h with holds := Function.update h.holds k none }

section Holds

@[simp] theorem alloc_holds_self (h : Heap κ) (k : κ) : (h.alloc k).holds k = some h.next :=
  Function.update_self ..

theorem alloc_holds_ne (hk : k' ≠ k) : (h.alloc k).holds k' = h.holds k' :=
  Function.update_of_ne hk _ _

@[simp] theorem free_holds_self (h : Heap κ) (k : κ) : (h.free k).holds k = none :=
  Function.update_self ..

theorem free_holds_ne (hk : k' ≠ k) : (h.free k).holds k' = h.holds k' :=
  Function.update_of_ne hk _ _

@[simp] theorem lose_holds_self (h : Heap κ) (k : κ) : (h.lose k).holds k = none :=
  Function.update_self ..

theorem lose_holds_ne (hk : k' ≠ k) : (h.lose k).holds k' = h.holds k' :=
  Function.update_of_ne hk _ _

@[simp] theorem move_holds_target (h : Heap κ) (k k' : κ) : (h.move k k').holds k' = h.holds k :=
  Function.update_self ..

theorem move_holds_source (hk : k ≠ k') : (h.move k k').holds k = none :=
  (Function.update_of_ne hk _ _).trans (Function.update_self ..)

theorem move_holds_ne {j : κ} (hk : j ≠ k) (hk' : j ≠ k') : (h.move k k').holds j = h.holds j :=
  (Function.update_of_ne hk' _ _).trans (Function.update_of_ne hk _ _)

theorem frees_holds (h : Heap κ) (ks : List κ) (k : κ) :
    (h.frees ks).holds k = if k ∈ ks then none else h.holds k := by
  induction ks generalizing h with
  | nil => rfl
  | cons j ks ih =>
      have hstep : (h.frees (j :: ks)).holds k = ((h.free j).frees ks).holds k := rfl
      rw [hstep, ih]
      by_cases hkj : k = j
      · simp [hkj]
      · simp [hkj, free_holds_ne hkj]

end Holds

theorem Owned.alloc (ho : Owned h) (hk : h.holds k = none) : Owned (h.alloc k) := by
  have hcases : ∀ j b, (h.alloc k).holds j = some b →
      (j = k ∧ b = h.next) ∨ (j ≠ k ∧ h.holds j = some b) := by
    intro j b hj
    by_cases hjk : j = k
    · rw [hjk, alloc_holds_self, Option.some.injEq] at hj
      exact .inl ⟨hjk, hj.symm⟩
    · exact .inr ⟨hjk, alloc_holds_ne hjk ▸ hj⟩
  refine ⟨ho.once, fun b hb => Nat.lt_succ_of_lt (ho.freed b hb), fun j b hj => ?_,
    fun i j b hi hj => ?_, fun b hb => ?_⟩
  · rcases hcases j b hj with ⟨-, rfl⟩ | ⟨-, hj⟩
    · exact ⟨Nat.lt_succ_self _, fun hfree => Nat.lt_irrefl _ (ho.freed _ hfree)⟩
    · exact ⟨Nat.lt_succ_of_lt (ho.live j b hj).1, (ho.live j b hj).2⟩
  · rcases hcases i b hi with ⟨rfl, rfl⟩ | ⟨-, hold⟩
    · rcases hcases j _ hj with ⟨rfl, -⟩ | ⟨-, hold⟩
      · rfl
      · exact absurd (ho.live j _ hold).1 (Nat.lt_irrefl _)
    · rcases hcases j b hj with ⟨rfl, rfl⟩ | ⟨-, hold'⟩
      · exact absurd (ho.live i _ hold).1 (Nat.lt_irrefl _)
      · exact ho.unique i j b hold hold'
  · rcases Nat.lt_succ_iff_lt_or_eq.1 hb with hb | rfl
    · rcases ho.kept b hb with hfree | ⟨j, hj⟩
      · exact .inl hfree
      · refine .inr ⟨j, (alloc_holds_ne ?_).trans hj⟩
        rintro rfl
        rw [hk] at hj
        cases hj
    · exact .inr ⟨k, alloc_holds_self h k⟩

theorem Owned.free (ho : Owned h) (k : κ) : Owned (h.free k) := by
  have hcases : ∀ j b, (h.free k).holds j = some b → j ≠ k ∧ h.holds j = some b := by
    intro j b hj
    have hjk : j ≠ k := by
      rintro rfl
      rw [free_holds_self] at hj
      cases hj
    exact ⟨hjk, free_holds_ne hjk ▸ hj⟩
  have hmem : ∀ b, b ∈ (h.free k).freed ↔ b ∈ h.freed ∨ h.holds k = some b := by
    simp [Heap.free]
  refine ⟨?_, fun b hb => ?_, fun j b hj => ?_, fun i j b hi hj => ?_, fun b hb => ?_⟩
  · refine List.nodup_append.2 ⟨ho.once, ?_, fun b hb c hc => ?_⟩
    · cases h.holds k <;> simp
    · rw [Option.mem_toList] at hc
      rintro rfl
      exact (ho.live k b hc).2 hb
  · rcases (hmem b).1 hb with hb | hb
    · exact ho.freed b hb
    · exact (ho.live k b hb).1
  · obtain ⟨hjk, hj⟩ := hcases j b hj
    refine ⟨(ho.live j b hj).1, fun hfree => ?_⟩
    rcases (hmem b).1 hfree with hfree | hfree
    · exact (ho.live j b hj).2 hfree
    · exact hjk (ho.unique j k b hj hfree)
  · exact ho.unique i j b (hcases i b hi).2 (hcases j b hj).2
  · rcases ho.kept b hb with hfree | ⟨j, hj⟩
    · exact .inl ((hmem b).2 (.inl hfree))
    · by_cases hjk : j = k
      · exact .inl ((hmem b).2 (.inr (hjk ▸ hj)))
      · exact .inr ⟨j, (free_holds_ne hjk).trans hj⟩

theorem Owned.frees (ho : Owned h) (ks : List κ) : Owned (h.frees ks) := by
  induction ks generalizing h with
  | nil => exact ho
  | cons k ks ih => exact ih (ho.free k)

theorem owned_lose_iff (ho : Owned h) : Owned (h.lose k) ↔ h.holds k = none := by
  constructor
  · intro ho'
    cases hk : h.holds k with
    | none => rfl
    | some b =>
        obtain ⟨hb, hfree⟩ := ho.live k b hk
        obtain ⟨j, hj⟩ := (ho'.kept b hb).resolve_left hfree
        by_cases hjk : j = k
        · rw [hjk, lose_holds_self] at hj
          cases hj
        · exact absurd (ho.unique j k b (lose_holds_ne hjk ▸ hj) hk) hjk
  · intro hk
    have hsame : h.lose k = h := by
      simp [Heap.lose, ← hk]
    rw [hsame]
    exact ho

theorem Owned.move (ho : Owned h) (hne : k ≠ k') (hk : h.holds k' = none) : Owned (h.move k k') := by
  -- seen from the new heap, the places k and k' have changed their roles
  have hcases : ∀ j b, (h.move k k').holds j = some b → ∃ i, h.holds i = some b ∧
      ((j = k' ∧ i = k) ∨ (j ≠ k ∧ j ≠ k' ∧ i = j)) := by
    intro j b hj
    by_cases hjk' : j = k'
    · exact ⟨k, by rwa [hjk', move_holds_target] at hj, .inl ⟨hjk', rfl⟩⟩
    · have hjk : j ≠ k := by
        rintro rfl
        rw [move_holds_source hne] at hj
        cases hj
      exact ⟨j, by rwa [move_holds_ne hjk hjk'] at hj, .inr ⟨hjk, hjk', rfl⟩⟩
  refine ⟨ho.once, ho.freed, fun j b hj => ?_, fun i j b hi hj => ?_, fun b hb => ?_⟩
  · obtain ⟨i, hi, -⟩ := hcases j b hj
    exact ho.live i b hi
  · obtain ⟨i', hi', hi⟩ := hcases i b hi
    obtain ⟨j', hj', hj⟩ := hcases j b hj
    have heq := ho.unique i' j' b hi' hj'
    rcases hi with ⟨rfl, rfl⟩ | ⟨hik, -, rfl⟩
    · rcases hj with ⟨rfl, -⟩ | ⟨hjk, -, rfl⟩
      · rfl
      · exact absurd heq.symm hjk
    · rcases hj with ⟨rfl, rfl⟩ | ⟨-, -, rfl⟩
      · exact absurd heq hik
      · exact heq
  · rcases ho.kept b hb with hfree | ⟨j, hj⟩
    · exact .inl hfree
    · by_cases hjk : j = k
      · exact .inr ⟨k', (move_holds_target h k k').trans (hjk ▸ hj)⟩
      · refine .inr ⟨j, (move_holds_ne hjk ?_).trans hj⟩
        rintro rfl
        rw [hk] at hj
        cases hj

end WirelessGateway.Lib.Ownership
