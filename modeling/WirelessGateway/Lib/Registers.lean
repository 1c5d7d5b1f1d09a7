import Mathlib.Data.List.Basic
import Mathlib.Logic.Function.Basic

namespace WirelessGateway.Lib.Registers

variable {α β : Type} {n : Nat}

def put (r : Fin n → α) (addr : Nat) (w : α) : Fin n → α := fun a => if a.val = addr then w else r a

/-- Stores words from an address on. What lies behind the last register is
dropped. -/
def store (r : Fin n → α) : Nat → List α → Fin n → α
  | _, [] => r
  | addr, w :: ws => store (put r addr w) (addr + 1) ws

def load (r : Fin n → α) (default : α) (addr count : Nat) : List α :=
  (List.range count).map (fun i => if h : addr + i < n then r ⟨addr + i, h⟩ else default)

def Updated (r r' : Fin n → α) (addr : Nat) (ws : List α) : Prop :=
  ∀ a : Fin n, r' a = if addr ≤ a.val then (ws[a.val - addr]?).getD (r a) else r a

theorem store_updated (r : Fin n → α) (addr : Nat) (ws : List α) :
    Updated r (store r addr ws) addr ws := by
  induction ws generalizing r addr with
  | nil =>
      intro a
      simp [store]
  | cons w ws ih =>
      intro a
      rw [store, ih (put r addr w) (addr + 1) a, put]
      rcases Nat.lt_trichotomy a.val addr with hlt | heq | hgt
      · rw [if_neg (by omega), if_neg (by omega), if_neg (by omega)]
      · rw [if_neg (by omega), if_pos heq, if_pos (by omega), heq, Nat.sub_self]
        rfl
      · obtain ⟨k, hk⟩ : ∃ k, a.val - addr = k + 1 := ⟨a.val - addr - 1, by omega⟩
        have hk' : a.val - (addr + 1) = k := by omega
        rw [if_pos (by omega), if_neg (by omega), if_pos (by omega), hk, hk',
          List.getElem?_cons_succ]

theorem Updated.map {r r' : Fin n → α} {addr : Nat} {ws : List α} (h : Updated r r' addr ws)
    (f : α → β) : Updated (fun a => f (r a)) (fun a => f (r' a)) addr (ws.map f) := by
  intro a
  dsimp only
  rw [h a, List.getElem?_map]
  split
  · cases ws[a.val - addr]? <;> rfl
  · rfl

theorem load_length (r : Fin n → α) (default : α) (addr count : Nat) :
    (load r default addr count).length = count := by
  rw [load, List.length_map, List.length_range]

theorem mem_load {r : Fin n → α} {default w : α} {addr count : Nat} (hfit : addr + count ≤ n) :
    w ∈ load r default addr count ↔
      ∃ a : Fin n, addr ≤ a.val ∧ a.val < addr + count ∧ r a = w := by
  constructor
  · intro h
    obtain ⟨i, hi, hw⟩ := List.mem_map.1 h
    have hi := List.mem_range.1 hi
    rw [dif_pos (by omega)] at hw
    exact ⟨⟨addr + i, by omega⟩, Nat.le_add_right _ _, by simpa using hi, hw⟩
  · rintro ⟨a, hle, hlt, rfl⟩
    have ha : addr + (a.val - addr) = a.val := by omega
    refine List.mem_map.2 ⟨a.val - addr, List.mem_range.2 (by omega), ?_⟩
    simp only [ha, Fin.is_lt, Fin.eta, dite_true]

theorem store_getElem {r : Fin n → α} {addr i : Nat} {ws : List α} (a : Fin n) (ha : a.val = addr + i)
    (hi : i < ws.length) : store r addr ws a = ws[i] := by
  have hsub : a.val - addr = i := by omega
  rw [store_updated r addr ws a, if_pos (by omega), hsub, List.getElem?_eq_getElem hi, Option.getD_some]

theorem store_of_ne {r : Fin n → α} {addr : Nat} {ws : List α} (a : Fin n)
    (ha : a.val < addr ∨ addr + ws.length ≤ a.val) : store r addr ws a = r a := by
  rw [store_updated r addr ws a]
  split
  · rw [List.getElem?_eq_none (by omega), Option.getD_none]
  · rfl

theorem load_getElem? (r : Fin n → α) (default : α) {addr count i : Nat} (hi : i < count)
    (hfit : addr + i < n) : (load r default addr count)[i]? = some (r ⟨addr + i, hfit⟩) := by
  rw [load, List.getElem?_map, List.getElem?_range hi, Option.map_some, dif_pos hfit]

theorem load_eq_iff {r : Fin n → α} {default : α} {addr : Nat} {ws : List α}
    (hfit : addr + ws.length ≤ n) : load r default addr ws.length = ws ↔
      ∀ i (hi : i < ws.length), r ⟨addr + i, by omega⟩ = ws[i] := by
  constructor
  · intro h i hi
    have hload := load_getElem? r default hi (by omega : addr + i < n)
    rw [h, List.getElem?_eq_getElem hi] at hload
    exact (Option.some.inj hload).symm
  · intro h
    apply List.ext_getElem?
    intro i
    by_cases hi : i < ws.length
    · rw [load_getElem? r default hi (by omega), List.getElem?_eq_getElem hi, h i hi]
    · rw [List.getElem?_eq_none (by rw [load_length]; omega), List.getElem?_eq_none (by omega)]

theorem load_store (r : Fin n → α) (default : α) {addr : Nat} {ws : List α} (hfit : addr + ws.length ≤ n) :
    load (store r addr ws) default addr ws.length = ws :=
  (load_eq_iff hfit).2 (fun _ hi => store_getElem _ rfl hi)

/-- Storing what is there already changes nothing, and nothing else does. -/
theorem store_eq_self_iff {r : Fin n → α} (default : α) {addr : Nat} {ws : List α}
    (hfit : addr + ws.length ≤ n) : store r addr ws = r ↔ load r default addr ws.length = ws := by
  constructor
  · intro h
    rw [← h]
    exact load_store r default hfit
  · intro h
    funext a
    by_cases ha : a.val < addr ∨ addr + ws.length ≤ a.val
    · exact store_of_ne a ha
    · have hat : a.val = addr + (a.val - addr) := by omega
      have hi : a.val - addr < ws.length := by omega
      have hword := (load_eq_iff hfit).1 h (a.val - addr) hi
      rw [store_getElem a hat hi, ← hword]
      exact congrArg r (Fin.ext hat.symm)

theorem load_congr {r r' : Fin n → α} (default : α) {addr count : Nat}
    (h : ∀ a : Fin n, addr ≤ a.val → a.val < addr + count → r a = r' a) :
    load r default addr count = load r' default addr count := by
  refine List.map_congr_left ?_
  intro i hi
  have hi := List.mem_range.1 hi
  split
  · exact h _ (Nat.le_add_right _ _) (by simpa using hi)
  · rfl

end WirelessGateway.Lib.Registers
