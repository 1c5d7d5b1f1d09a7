import Mathlib.Data.List.Nodup
import Mathlib.Data.List.Perm.Basic

namespace WirelessGateway.Lib.Linked

variable {α ε : Type} [DecidableEq α]

def after (x : α) : List α → List α
  | [] => []
  | y :: ys => if y = x then ys else after x ys

def before (x : α) : List α → List α
  | [] => []
  | y :: ys => if y = x then [] else y :: before x ys

/-- Scans a list with a predicate that may touch invalid memory. -/
def findFirst (p : α → Except ε Bool) : List α → Except ε (Option α)
  | [] => pure none
  | x :: xs => do
    if ← p x then pure (some x) else findFirst p xs

theorem before_append_after {x : α} {l : List α} (h : x ∈ l) : before x l ++ x :: after x l = l := by
  induction l with
  | nil => simp at h
  | cons y ys ih =>
      by_cases hy : y = x
      · simp [before, after, hy]
      · have hx : x ∈ ys := (List.mem_cons.1 h).resolve_left (Ne.symm hy)
        simp [before, after, hy, ih hx]

theorem mem_of_mem_after {x y : α} {l : List α} (h : y ∈ after x l) : y ∈ l := by
  induction l with
  | nil => simp [after] at h
  | cons z zs ih =>
      by_cases hz : z = x
      · exact List.mem_cons_of_mem _ (by simpa [after, hz] using h)
      · exact List.mem_cons_of_mem _ (ih (by simpa [after, hz] using h))

theorem mem_of_mem_before {x y : α} {l : List α} (h : y ∈ before x l) : y ∈ l := by
  induction l with
  | nil => simp [before] at h
  | cons z zs ih =>
      by_cases hz : z = x
      · simp [before, hz] at h
      · rcases List.mem_cons.1 (by simpa [before, hz] using h) with rfl | h
        · simp
        · exact List.mem_cons_of_mem _ (ih h)

theorem not_mem_before (x : α) (l : List α) : x ∉ before x l := by
  induction l with
  | nil => simp [before]
  | cons z zs ih =>
      by_cases hz : z = x
      · simp [before, hz]
      · simp [before, hz, ih, Ne.symm hz]

theorem not_mem_after {x : α} {l : List α} (h : l.Nodup) : x ∉ after x l := by
  induction l with
  | nil => simp [after]
  | cons z zs ih =>
      rw [List.nodup_cons] at h
      by_cases hz : z = x
      · simpa [after, hz] using hz ▸ h.1
      · simpa [after, hz] using ih h.2

theorem ne_of_mem_after {x y : α} {l : List α} (hl : l.Nodup) (h : y ∈ after x l) : y ≠ x := by
  rintro rfl
  exact not_mem_after hl h

theorem mem_iff_before_after {x y : α} {l : List α} (h : x ∈ l) :
    y ∈ l ↔ y ∈ before x l ∨ y = x ∨ y ∈ after x l := by
  rw [← List.mem_cons, ← List.mem_append, before_append_after h]

theorem before_head {x : α} {l : List α} (h : l.head? = some x) : before x l = [] := by
  cases l with
  | nil => simp at h
  | cons y ys => simp [before, show y = x by simpa using h]

theorem before_erase_after {x y : α} {l : List α} (hn : l.Nodup) (hx : x ∈ l)
    (hy : y ∈ after x l) : before y (l.erase x) = before x l ++ before y (after x l) := by
  induction l with
  | nil => simp at hx
  | cons z zs ih =>
      rw [List.nodup_cons] at hn
      by_cases hz : z = x
      · subst hz
        simp [before, after]
      · have hx' : x ∈ zs := (List.mem_cons.1 hx).resolve_left (Ne.symm hz)
        simp only [after, hz, if_false] at hy ⊢
        have hzy : z ≠ y := by
          rintro rfl
          exact hn.1 (mem_of_mem_after hy)
        rw [List.erase_cons_tail (by simpa using hz)]
        simp [before, hz, hzy, ih hn.2 hx' hy]

theorem before_erase_head {x y : α} {l : List α} (hn : l.Nodup) (hx : x ∈ l)
    (hy : (after x l).head? = some y) : before y (l.erase x) = before x l := by
  rw [before_erase_after hn hx (List.mem_of_mem_head? hy), before_head hy, List.append_nil]

theorem find?_before {g : α → Bool} {y z : α} {l : List α} (h : l.find? g = some y)
    (hz : z ∈ before y l) : g z = false := by
  induction l with
  | nil => simp at h
  | cons a as ih =>
      cases ha : g a with
      | true =>
          rw [List.find?_cons, ha] at h
          simp [before, Option.some.inj h] at hz
      | false =>
          rw [List.find?_cons, ha] at h
          by_cases hay : a = y
          · simp [before, hay] at hz
          · simp only [before, hay, if_false, List.mem_cons] at hz
            rcases hz with rfl | hz
            · exact ha
            · exact ih h hz

theorem before_next {x y : α} {l : List α} (hn : l.Nodup) (hx : x ∈ l)
    (hy : (after x l).head? = some y) : before y l = before x l ++ [x] := by
  induction l with
  | nil => simp at hx
  | cons z zs ih =>
      rw [List.nodup_cons] at hn
      by_cases hz : z = x
      · subst hz
        simp only [after, if_true] at hy
        have hzy : z ≠ y := by
          rintro rfl
          exact hn.1 (List.mem_of_mem_head? hy)
        simp [before, hzy, before_head hy]
      · have hx' : x ∈ zs := (List.mem_cons.1 hx).resolve_left (Ne.symm hz)
        simp only [after, hz, if_false] at hy
        have hzy : z ≠ y := by
          rintro rfl
          exact hn.1 (mem_of_mem_after (List.mem_of_mem_head? hy))
        simp [before, hz, hzy, ih hn.2 hx' hy]

omit [DecidableEq α] in
theorem findFirst_ok {p : α → Except ε Bool} {q : α → Bool} {l : List α}
    (h : ∀ x ∈ l, p x = .ok (q x)) : findFirst p l = .ok (l.find? q) := by
  induction l with
  | nil => rfl
  | cons x xs ih =>
      have hx := h x (by simp)
      have hxs := ih (fun y hy => h y (by simp [hy]))
      cases hq : q x with
      | true => simp only [findFirst, hx, hq, List.find?_cons]; rfl
      | false => simp only [findFirst, hx, hq, List.find?_cons]; exact hxs

variable {l k : List α} {x y : α}

theorem perm_cons_erase_both (h : (l ++ k).Nodup) (hx : x ∈ l ++ k) :
    (l ++ k).Perm (x :: (l.erase x ++ k.erase x)) := by
  obtain ⟨-, -, hlk⟩ := List.nodup_append.1 h
  by_cases hl : x ∈ l
  · have hk : x ∉ k := fun hk => hlk x hl x hk rfl
    rw [List.erase_of_not_mem hk]
    exact (List.perm_cons_erase hl).append_right k
  · have hk : x ∈ k := (List.mem_append.1 hx).resolve_left hl
    rw [List.erase_of_not_mem hl]
    exact ((List.perm_cons_erase hk).append_left l).trans List.perm_middle

theorem perm_toLast_right (h : (l ++ k).Nodup) (hx : x ∈ l ++ k) :
    (l.erase x ++ (k.erase x ++ [x])).Perm (l ++ k) := by
  rw [← List.append_assoc]
  exact (List.perm_append_singleton x _).trans (perm_cons_erase_both h hx).symm

theorem perm_toLast_left (h : (l ++ k).Nodup) (hx : x ∈ l ++ k) :
    ((l.erase x ++ [x]) ++ k.erase x).Perm (l ++ k) := by
  rw [List.append_assoc]
  exact List.perm_middle.trans (perm_cons_erase_both h hx).symm

theorem nodup_erase_both (h : (l ++ k).Nodup) : (l.erase x ++ k.erase x).Nodup := by
  by_cases hx : x ∈ l ++ k
  · exact (List.nodup_cons.1 ((perm_cons_erase_both h hx).nodup_iff.1 h)).2
  · rw [List.mem_append, not_or] at hx
    rwa [List.erase_of_not_mem hx.1, List.erase_of_not_mem hx.2]

theorem mem_erase_both (h : (l ++ k).Nodup) :
    y ∈ l.erase x ++ k.erase x ↔ y ≠ x ∧ y ∈ l ++ k := by
  obtain ⟨hl, hk, -⟩ := List.nodup_append.1 h
  rw [List.mem_append, hl.mem_erase_iff, hk.mem_erase_iff, List.mem_append, ← and_or_left]

theorem mem_before_of_mem_after (hn : l.Nodup) (h : y ∈ after x l) : x ∈ before y l := by
  induction l with
  | nil => simp [after] at h
  | cons z zs ih =>
      rw [List.nodup_cons] at hn
      by_cases hz : z = x
      · subst hz
        simp only [after, if_true] at h
        have hzy : z ≠ y := fun he => hn.1 (he ▸ h)
        simp [before, hzy]
      · simp only [after, hz, if_false] at h
        have hzy : z ≠ y := fun he => hn.1 (he ▸ mem_of_mem_after h)
        simp [before, hzy, ih hn.2 h]

/-- Behind an item come its successor and what is behind that one, whether the
item itself is still linked or not. -/
theorem after_head (hn : l.Nodup) (hy : (after x l).head? = some y) :
    after x l = y :: after y l ∧ after y (l.erase x) = after y l := by
  induction l with
  | nil => simp [after] at hy
  | cons z zs ih =>
      rw [List.nodup_cons] at hn
      by_cases hz : z = x
      · subst hz
        simp only [after, if_true] at hy ⊢
        have hzy : z ≠ y := fun he => hn.1 (he ▸ List.mem_of_mem_head? hy)
        rw [List.erase_cons_head, if_neg hzy]
        refine ⟨?_, rfl⟩
        cases zs with
        | nil => simp at hy
        | cons w ws =>
            obtain rfl : w = y := by simpa using hy
            simp [after]
      · simp only [after, hz, if_false] at hy ⊢
        have hzy : z ≠ y := fun he => hn.1 (he ▸ mem_of_mem_after (List.mem_of_mem_head? hy))
        rw [List.erase_cons_tail (by simpa using hz)]
        simpa [after, hzy] using ih hn.2 hy

theorem mem_before_erase {z : α} (hxy : x ≠ y) (h : z ∈ before y (l.erase x)) : z ∈ before y l := by
  induction l with
  | nil => exact h
  | cons a as ih =>
      by_cases ha : a = x
      · subst ha
        rw [List.erase_cons_head] at h
        simpa [before, hxy] using .inr h
      · rw [List.erase_cons_tail (by simpa using ha)] at h
        by_cases hy : a = y
        · simp [before, hy] at h
        · simp only [before, hy, if_false, List.mem_cons] at h ⊢
          exact h.imp_right ih

omit [DecidableEq α] in
theorem find?_true (l : List α) : l.find? (fun _ => true) = l.head? := by
  cases l <;> rfl

/-- The items that a cursor into a list has still to visit. -/
def ahead : Option α → List α → List α
  | some i, l => i :: after i l
  | none, _ => []

theorem ahead_head (l : List α) : ahead l.head? l = l := by
  cases l with
  | nil => rfl
  | cons y ys => simp [ahead, after]

theorem after_append_cons (h : x ∉ l) : after x (l ++ x :: k) = k := by
  induction l with
  | nil => simp [after]
  | cons y ys ih =>
      rw [List.mem_cons, not_or] at h
      simp [after, Ne.symm h.1, ih h.2]

theorem after_filter {f : α → Bool} (hf : f x = true) : after x (l.filter f) = (after x l).filter f := by
  induction l with
  | nil => rfl
  | cons y ys ih =>
      by_cases hy : y = x
      · subst hy
        simp [after, hf]
      · cases hfy : f y <;> simp [after, hy, hfy, ih]

theorem ahead_filter (hn : l.Nodup) (hx : x ∈ l) (f : α → Bool) :
    ahead ((after x l).filter f).head? (l.filter f) = (after x l).filter f := by
  have hl := before_append_after hx
  have hfl : l.filter f = (before x l ++ [x]).filter f ++ (after x l).filter f := by
    rw [← List.filter_append]
    congr 1
    simpa using hl.symm
  cases hfa : (after x l).filter f with
  | nil => rfl
  | cons i is =>
      have hi : i ∉ (before x l ++ [x]).filter f := by
        have hnf := hn.filter f
        rw [hfl, hfa] at hnf
        exact fun hm => (List.nodup_append.1 hnf).2.2 i hm i (by simp) rfl
      rw [List.head?_cons, hfl, hfa, ahead, after_append_cons hi]

theorem nodup_after (hn : l.Nodup) : (after x l).Nodup := by
  by_cases hx : x ∈ l
  · rw [← before_append_after hx] at hn
    exact (List.nodup_cons.1 (List.nodup_append.1 hn).2.1).2
  · have hnil : after x l = [] := by
      induction l with
      | nil => rfl
      | cons y ys ih =>
          rw [List.mem_cons, not_or] at hx
          simp only [after, Ne.symm hx.1, if_false]
          exact ih (List.nodup_cons.1 hn).2 hx.2
    rw [hnil]
    exact List.nodup_nil

end WirelessGateway.Lib.Linked
