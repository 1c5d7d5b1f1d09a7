import Mathlib.Data.List.Basic
import WirelessGateway.Lib.Region

namespace WirelessGateway.Lib.CString

open Lib.Region

variable {α : Type} [DecidableEq α] (nul : α)

def strlen : List α → Except Overrun Nat
  | [] => .error .read
  | x :: mem => if x = nul then .ok 0 else (strlen mem).map (· + 1)

/-- The distance to the first c, if it comes before the terminator. -/
def strchr (c : α) : List α → Except Overrun (Option Nat)
  | [] => .error .read
  | x :: mem =>
    if x = c then .ok (some 0)
    else if x = nul then .ok none
    else (strchr c mem).map (Option.map (· + 1))

def strcpy (dst : List α) (off : Nat) (src : List α) : Except Overrun (List α) := do
  let n ← strlen nul src
  copy dst off src (n + 1)

/-- The copy is cut to the size, of which the terminator takes one. The source
is read to its end all the same. -/
def strlcpy (dst : List α) (off : Nat) (src : List α) (size : Nat) :
    Except Overrun (List α) := do
  let n ← strlen nul src
  if size = 0 then pure dst
  else
    let dst ← copy dst off src (min n (size - 1))
    copy dst (off + min n (size - 1)) [nul] 1

/-- The text that a %s, or a call that takes a name, reads from a region. -/
def text (mem : List α) : Except Overrun (List α) := do
  let n ← strlen nul mem
  pure (mem.take n)

variable {nul}

theorem strlen_append {s : List α} (h : nul ∉ s) (rest : List α) :
    strlen nul (s ++ nul :: rest) = .ok s.length := by
  induction s with
  | nil => simp [strlen]
  | cons x s ih =>
      rw [List.mem_cons, not_or] at h
      obtain ⟨hx, hs⟩ := h
      rw [List.cons_append, strlen, if_neg (Ne.symm hx), ih hs]
      rfl

theorem text_append {s : List α} (h : nul ∉ s) (rest : List α) :
    text nul (s ++ nul :: rest) = .ok s := by
  simp [text, strlen_append h, bind, Except.bind, pure, Except.pure]

theorem strchr_skip {c : α} {s : List α} (hc : c ∉ s) (h : nul ∉ s) (mem : List α) :
    strchr nul c (s ++ mem) = (strchr nul c mem).map (Option.map (· + s.length)) := by
  induction s with
  | nil => cases hm : strchr nul c mem <;> simp [hm, Except.map]
  | cons x s ih =>
      rw [List.mem_cons, not_or] at h hc
      obtain ⟨hx, hs⟩ := h
      obtain ⟨hcx, hcs⟩ := hc
      rw [List.cons_append, strchr, if_neg (Ne.symm hcx), if_neg (Ne.symm hx), ih hcs hs]
      cases hm : strchr nul c mem with
      | error e => rfl
      | ok found => cases found <;> simp [Except.map, Nat.add_assoc]

theorem strchr_found {c : α} {s : List α} (hc : c ∉ s) (h : nul ∉ s) (mem : List α) :
    strchr nul c (s ++ c :: mem) = .ok (some s.length) := by
  rw [strchr_skip hc h, strchr, if_pos rfl]
  simp [Except.map]

theorem strchr_absent {c : α} {s : List α} (hc : c ∉ s) (h : nul ∉ s) (hnul : nul ≠ c)
    (rest : List α) : strchr nul c (s ++ nul :: rest) = .ok none := by
  rw [strchr_skip hc h, strchr, if_neg hnul, if_pos rfl]
  rfl

theorem strchr_append {c : α} {s : List α} (h : nul ∉ s) (hnul : nul ≠ c) (rest : List α) :
    strchr nul c (s ++ nul :: rest) =
      .ok (if c ∈ s then some (s.takeWhile (fun x => decide (x ≠ c))).length else none) := by
  by_cases hc : c ∈ s
  · obtain ⟨front, back, rfl, hfront⟩ := List.eq_append_cons_of_mem hc
    have hnone : ∀ x ∈ front, decide (x ≠ c) = true := by
      intro x hx
      exact decide_eq_true (fun he => hfront (he ▸ hx))
    rw [if_pos hc, List.append_assoc, List.cons_append,
      strchr_found hfront (fun hn => h (List.mem_append_left _ hn)),
      List.takeWhile_append_of_pos hnone]
    simp
  · rw [if_neg hc, strchr_absent hc h hnul]

theorem strcpy_append {dst s : List α} {off : Nat} (h : nul ∉ s)
    (hfit : off + s.length + 1 ≤ dst.length) (rest : List α) :
    strcpy nul dst off (s ++ nul :: rest) =
      .ok (dst.take off ++ s ++ nul :: dst.drop (off + s.length + 1)) := by
  simp only [strcpy, strlen_append h, bind, Except.bind]
  rw [copy_ok (by simp) (by omega)]
  simp [List.take_append, List.take_of_length_le, Nat.add_assoc]

theorem strlcpy_append {s : List α} (dst : List α) (off size : Nat) (h : nul ∉ s) (hsize : 0 < size)
    (hfit : off + min s.length (size - 1) + 1 ≤ dst.length) (rest : List α) :
    strlcpy nul dst off (s ++ nul :: rest) size =
      .ok (dst.take off ++ s.take (size - 1) ++
        nul :: dst.drop (off + min s.length (size - 1) + 1)) := by
  have htake : (s ++ nul :: rest).take (min s.length (size - 1)) = s.take (size - 1) := by
    rw [List.take_append_of_le_length (by omega), List.take_eq_take_iff]
    omega
  have hoff : (dst.take off).length = off := by
    rw [List.length_take]
    omega
  have hlen : (dst.take off ++ s.take (size - 1)).length = off + min s.length (size - 1) := by
    rw [List.length_append, hoff, List.length_take]
    omega
  simp only [strlcpy, strlen_append h, bind, Except.bind, if_neg (by omega : ¬ size = 0)]
  rw [copy_ok (by rw [List.length_append]; omega) (by omega), htake]
  dsimp only
  rw [copy_ok (by simp) (by rw [List.length_append, hlen, List.length_drop]; omega)]
  rw [List.take_left' hlen, List.drop_append, List.drop_of_length_le (by rw [hlen]; omega), hlen]
  simp

theorem strlcpy_length {dst src mem : List α} {off size : Nat}
    (h : strlcpy nul dst off src size = .ok mem) : mem.length = dst.length := by
  simp only [strlcpy, bind, Except.bind] at h
  split at h
  · cases h
  · split at h
    · cases h
      rfl
    · split at h
      · cases h
      · rename_i hfirst
        exact (copy_length h).trans (copy_length hfirst)

theorem text_ok {mem s : List α} (h : text nul mem = .ok s) :
    nul ∉ s ∧ ∃ rest, mem = s ++ nul :: rest := by
  induction mem generalizing s with
  | nil => cases h
  | cons x mem ih =>
      by_cases hx : x = nul
      · rw [text, strlen, if_pos hx] at h
        cases h
        rw [hx]
        exact ⟨List.not_mem_nil, mem, rfl⟩
      · rw [text, strlen, if_neg hx] at h
        cases hlen : strlen nul mem with
        | error o =>
            rw [hlen] at h
            cases h
        | ok n =>
            rw [hlen] at h
            cases h
            obtain ⟨hfree, rest, hrest⟩ := ih (s := mem.take n) (by rw [text, hlen]; rfl)
            refine ⟨?_, rest, ?_⟩
            · rw [List.take_succ_cons, List.mem_cons, not_or]
              exact ⟨fun he => hx he.symm, hfree⟩
            · rw [List.take_succ_cons, List.cons_append, ← hrest]

end WirelessGateway.Lib.CString
