import Mathlib.Algebra.Group.Int.Defs
import Mathlib.Algebra.Group.Nat.Defs
import Mathlib.Data.List.TakeDrop

namespace WirelessGateway.Lib.Text

def decimal (n : Nat) : List Char := Nat.toDigits 10 n

/-- The low hexadecimal digits of a number, in the width that printf is given. -/
def hexDigits : Nat → Nat → List Char
  | 0, _ => []
  | k + 1, n => hexDigits k (n / 16) ++ [Nat.digitChar (n % 16)]

def commas : List Nat → List Char
  | [] => []
  | [n] => decimal n
  | n :: m :: ns => decimal n ++ ',' :: commas (m :: ns)

def expect (lit text : List Char) : Option (List Char) :=
  if lit.isPrefixOf text then some (text.drop lit.length) else none

def readNat (text : List Char) : Option (Nat × List Char) :=
  if (text.takeWhile Char.isDigit).isEmpty then none
  else some (Nat.ofDigitChars 10 (text.takeWhile Char.isDigit) 0, text.dropWhile Char.isDigit)

def readNats (close : List Char) : Nat → List Char → Option (List Nat × List Char)
  | 0, text => (expect close text).map (fun rest => ([], rest))
  | n + 1, text => match readNat text with
    | none => (expect close text).map (fun rest => ([], rest))
    | some (k, ',' :: rest) => (readNats close n rest).map (fun (ks, rest) => (k :: ks, rest))
    | some (k, rest) => (expect close rest).map (fun rest => ([k], rest))

def Stops (text : List Char) : Prop := ∀ c ∈ text.head?, c.isDigit = false

theorem expect_append (lit rest : List Char) : expect lit (lit ++ rest) = some rest := by
  simp [expect]

theorem decimal_isDigit {n : Nat} {c : Char} (h : c ∈ decimal n) : c.isDigit = true :=
  Nat.isDigit_of_mem_toDigits (by omega) (by omega) h

theorem decimal_ne_nil (n : Nat) : decimal n ≠ [] := Nat.toDigits_ne_nil

theorem decimal_length {n k : Nat} (hk : 0 < k) (h : n < 10 ^ k) : (decimal n).length ≤ k :=
  (Nat.length_toDigits_le_iff (by omega) hk).2 h

theorem takeWhile_stops {rest : List Char} (h : Stops rest) : rest.takeWhile Char.isDigit = [] := by
  cases rest with
  | nil => rfl
  | cons c cs => simp [h c (by simp)]

theorem dropWhile_stops {rest : List Char} (h : Stops rest) :
    rest.dropWhile Char.isDigit = rest := by
  cases rest with
  | nil => rfl
  | cons c cs => simp [h c (by simp)]

theorem readNat_decimal (n : Nat) {rest : List Char} (h : Stops rest) :
    readNat (decimal n ++ rest) = some (n, rest) := by
  have hdig : ∀ c ∈ decimal n, c.isDigit = true := fun c hc => decimal_isDigit hc
  have htake : (decimal n ++ rest).takeWhile Char.isDigit = decimal n := by
    rw [List.takeWhile_append_of_pos hdig, takeWhile_stops h, List.append_nil]
  have hdrop : (decimal n ++ rest).dropWhile Char.isDigit = rest := by
    rw [List.dropWhile_append_of_pos hdig, dropWhile_stops h]
  rw [readNat, htake, hdrop, if_neg (by simpa using decimal_ne_nil n)]
  simp [decimal]

theorem readNat_stops {text : List Char} (h : Stops text) : readNat text = none := by
  rw [readNat, takeWhile_stops h]
  rfl

@[simp] theorem stops_cons_iff {c : Char} {cs : List Char} :
    Stops (c :: cs) ↔ c.isDigit = false := by
  simp [Stops]

theorem stops_cons {c : Char} {cs : List Char} (h : c.isDigit = false) : Stops (c :: cs) :=
  stops_cons_iff.2 h

theorem stops_append {close rest : List Char} (h : Stops close) (hne : close ≠ []) :
    Stops (close ++ rest) := by
  cases close with
  | nil => exact absurd rfl hne
  | cons c cs => exact stops_cons (h c (by simp))

/-- What was written with commas is read back, up to the text that ends it. -/
theorem readNats_commas (close : List Char) (hc : Stops close) (hne : close ≠ [])
    (hcomma : close.head? ≠ some ',') (ns : List Nat) {n : Nat} (hn : ns.length ≤ n)
    (rest : List Char) :
    readNats close n (commas ns ++ (close ++ rest)) = some (ns, rest) := by
  have hstop : Stops (close ++ rest) := stops_append hc hne
  induction n generalizing ns with
  | zero =>
      rw [List.length_eq_zero_iff.1 (Nat.le_zero.1 hn)]
      simp [readNats, commas, expect_append]
  | succ n ih =>
      match ns with
      | [] => simp [readNats, commas, readNat_stops hstop, expect_append]
      | [k] =>
          have hread : readNat (commas [k] ++ (close ++ rest)) = some (k, close ++ rest) :=
            readNat_decimal k hstop
          have hnot : ∀ cs, close ++ rest ≠ ',' :: cs := by
            intro cs h
            cases close with
            | nil => exact hne rfl
            | cons c cs' =>
                rw [List.cons_append, List.cons.injEq] at h
                simp [h.1] at hcomma
          rw [readNats, hread]
          split
          next h => cases h
          next k' cs h =>
            rw [Option.some.injEq, Prod.mk.injEq] at h
            exact absurd h.2 (hnot cs)
          next k' cs _ h =>
            rw [Option.some.injEq, Prod.mk.injEq] at h
            rw [← h.1, ← h.2, expect_append]
            rfl
      | k :: m :: ks =>
          have hsep : Stops (',' :: (commas (m :: ks) ++ (close ++ rest))) := stops_cons (by decide)
          have hread : readNat (commas (k :: m :: ks) ++ (close ++ rest)) =
              some (k, ',' :: (commas (m :: ks) ++ (close ++ rest))) := by
            rw [commas, List.append_assoc, List.cons_append]
            exact readNat_decimal k hsep
          have hn' : (m :: ks).length ≤ n := by
            simp only [List.length_cons] at hn ⊢
            omega
          rw [readNats, hread]
          simp only [ih (m :: ks) hn', Option.map_some]

theorem commas_length {k : Nat} (hk : 0 < k) (ns : List Nat) (h : ∀ n ∈ ns, n < 10 ^ k) :
    (commas ns).length ≤ (k + 1) * ns.length := by
  induction ns with
  | nil => simp [commas]
  | cons n ns ih =>
      have hd := decimal_length hk (h n (by simp))
      have ih := ih (fun m hm => h m (by simp [hm]))
      cases ns with
      | nil => simp only [commas, List.length_cons, List.length_nil]; omega
      | cons m ms =>
          simp only [commas, List.length_append, List.length_cons] at ih ⊢
          rw [Nat.mul_add (k + 1), Nat.mul_one]
          omega

theorem le_commas_length (ns : List Nat) : ns.length ≤ (commas ns).length := by
  induction ns with
  | nil => simp
  | cons n ns ih =>
      have hpos := List.length_pos_iff.2 (decimal_ne_nil n)
      cases ns with
      | nil => exact hpos
      | cons m ms =>
          simp only [commas, List.length_append, List.length_cons] at ih ⊢
          omega

theorem commas_snoc (n : Nat) (ns : List Nat) :
    commas (ns ++ [n]) = commas ns ++ ((if ns = [] then [] else [',']) ++ decimal n) := by
  induction ns with
  | nil => simp [commas]
  | cons m ms ih =>
      cases ms with
      | nil => simp [commas]
      | cons k ks =>
          simp only [List.cons_append, commas, reduceCtorEq, if_false] at ih ⊢
          rw [ih]
          simp

end WirelessGateway.Lib.Text
