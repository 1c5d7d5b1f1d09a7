import Mathlib.Algebra.Field.Rat
import Mathlib.Data.List.Basic
import WirelessGateway.Lib.Text
import WirelessGateway.Lib.Utf8

namespace WirelessGateway.Lib.Json

open Lib.Text Lib.Utf8

/-- The values of RFC 8259. The members of an object are kept in order, with
every name as often as it stands there. -/
inductive Value
  | null
  | bool (b : Bool)
  | number (n : ℚ)
  | string (s : List Char)
  | array (items : List Value)
  | object (fields : List (List Char × Value))

def member (fields : List (List Char × Value)) (name : List Char) : Option Value :=
  (fields.find? (fun field => decide (field.1 = name))).map Prod.snd

@[simp] theorem member_self (name : List Char) (v : Value) (fields : List (List Char × Value)) :
    member ((name, v) :: fields) name = some v := by
  simp [member]

theorem member_other {name other : List Char} (h : name ≠ other) (v : Value)
    (fields : List (List Char × Value)) :
    member ((name, v) :: fields) other = member fields other := by
  simp [member, h]

def isSpace (c : Char) : Bool := c = ' ' || c = '\t' || c = '\n' || c = '\r'

def skip (text : List Char) : List Char := text.dropWhile isSpace

def hexDigit (c : Char) : Option Nat :=
  if c.isDigit then some (c.toNat - 48)
  else if 97 ≤ c.toNat ∧ c.toNat ≤ 102 then some (c.toNat - 87)
  else if 65 ≤ c.toNat ∧ c.toNat ≤ 70 then some (c.toNat - 55)
  else none

def hexNumber : List Char → Option (Nat × List Char)
  | a :: b :: c :: d :: rest => do
    let a ← hexDigit a
    let b ← hexDigit b
    let c ← hexDigit c
    let d ← hexDigit d
    some (((a * 16 + b) * 16 + c) * 16 + d, rest)
  | _ => none

def surrogate (high : Nat) : List Char → Option (Char × List Char)
  | '\\' :: 'u' :: rest => do
    let (low, rest) ← hexNumber rest
    if 0xDC00 ≤ low ∧ low < 0xE000 then
      some (Char.ofNat (0x10000 + (high - 0xD800) * 0x400 + (low - 0xDC00)), rest)
    else none
  | _ => none

def unicode (text : List Char) : Option (Char × List Char) := do
  let (unit, rest) ← hexNumber text
  if 0xD800 ≤ unit ∧ unit < 0xDC00 then surrogate unit rest
  else if 0xDC00 ≤ unit ∧ unit < 0xE000 then none
  else some (Char.ofNat unit, rest)

def simpleEscape (c : Char) : Option Char :=
  if c = '"' ∨ c = '\\' ∨ c = '/' then some c
  else if c = 'b' then some '\x08'
  else if c = 'f' then some '\x0c'
  else if c = 'n' then some '\n'
  else if c = 'r' then some '\r'
  else if c = 't' then some '\t'
  else none

def escape : List Char → Option (Char × List Char)
  | [] => none
  | e :: rest => if e = 'u' then unicode rest else (simpleEscape e).map (fun c => (c, rest))

def char : List Char → Option (Char × List Char)
  | [] => none
  | c :: rest =>
    if c = '\\' then escape rest
    else if c = '"' ∨ c.toNat < 32 then none
    else some (c, rest)

def chars : Nat → List Char → Option (List Char × List Char)
  | 0, _ => none
  | n + 1, text =>
    if text.head? = some '"' then some ([], text.tail)
    else do
      let (c, rest) ← char text
      let (s, rest) ← chars n rest
      some (c :: s, rest)

def stringBody (text : List Char) : Option (List Char × List Char) := chars (text.length + 1) text

def fraction (text : List Char) : Option (List Char × List Char) :=
  if text.head? = some '.' then
    if (text.tail.takeWhile Char.isDigit).isEmpty then none
    else some (text.tail.takeWhile Char.isDigit, text.tail.dropWhile Char.isDigit)
  else some ([], text)

def signed (text : List Char) : Int × List Char :=
  if text.head? = some '-' then (-1, text.tail)
  else if text.head? = some '+' then (1, text.tail)
  else (1, text)

def exponent (text : List Char) : Option (Int × List Char) :=
  if text.head? = some 'e' ∨ text.head? = some 'E' then
    let (sign, text) := signed text.tail
    (readNat text).map (fun (n, rest) => (sign * n, rest))
  else some (0, text)

def number (text : List Char) : Option (Value × List Char) := do
  let negative := text.head? = some '-'
  let text := if negative then text.tail else text
  let int := text.takeWhile Char.isDigit
  if int = [] ∨ (int.head? = some '0' ∧ 1 < int.length) then none
  else
    let (frac, text) ← fraction (text.dropWhile Char.isDigit)
    let (exp, text) ← exponent text
    let digits := Nat.ofDigitChars 10 (int ++ frac) 0
    some (.number ((if negative then -1 else 1) * digits / 10 ^ frac.length * (10 : ℚ) ^ exp), text)

def literal (lit : List Char) (v : Value) (text : List Char) : Option (Value × List Char) :=
  (expect lit text).map (fun rest => (v, rest))

def items (value : List Char → Option (Value × List Char)) :
    Nat → List Char → Option (List Value × List Char)
  | 0, _ => none
  | n + 1, text => do
    let (v, rest) ← value text
    match skip rest with
    | ',' :: rest => do
      let (vs, rest) ← items value n rest
      some (v :: vs, rest)
    | ']' :: rest => some ([v], rest)
    | _ => none

def members (value : List Char → Option (Value × List Char)) :
    Nat → List Char → Option (List (List Char × Value) × List Char)
  | 0, _ => none
  | n + 1, text => do
    let rest ← expect ['"'] (skip text)
    let (name, rest) ← stringBody rest
    let rest ← expect [':'] (skip rest)
    let (v, rest) ← value rest
    match skip rest with
    | ',' :: rest => do
      let (fields, rest) ← members value n rest
      some ((name, v) :: fields, rest)
    | '\x7d' :: rest => some ([(name, v)], rest)
    | _ => none

/-- A value and the text behind it. The first number bounds how deep values are
nested, and how many of them an array or an object has. -/
def value : Nat → List Char → Option (Value × List Char)
  | 0, _ => none
  | fuel + 1, text =>
    match skip text with
    | [] => none
    | c :: rest =>
      if c = '"' then (stringBody rest).map (fun (s, rest) => (.string s, rest))
      else if c = '[' then
        if (skip rest).head? = some ']' then some (.array [], (skip rest).tail)
        else (items (value fuel) fuel rest).map (fun (vs, rest) => (.array vs, rest))
      else if c = '\x7b' then
        if (skip rest).head? = some '\x7d' then some (.object [], (skip rest).tail)
        else (members (value fuel) fuel rest).map (fun (fields, rest) => (.object fields, rest))
      else if c = 't' then literal ['r', 'u', 'e'] (.bool true) rest
      else if c = 'f' then literal ['a', 'l', 's', 'e'] (.bool false) rest
      else if c = 'n' then literal ['u', 'l', 'l'] .null rest
      else number (c :: rest)

def read (text : List Char) : Option Value :=
  match value (text.length + 1) text with
  | some (v, rest) => if skip rest = [] then some v else none
  | none => none

example : (read ['[', '1', ',', ' ', '"', '\\', 'n', '"', ']']).isSome = true := by decide

/-- A text that stands in a string as it is. -/
def Plain (s : List Char) : Prop := ∀ c ∈ s, 32 ≤ c.toNat ∧ c ≠ '"' ∧ c ≠ '\\'

instance (s : List Char) : Decidable (Plain s) :=
  List.decidableBAll _ s

def Ends (rest : List Char) : Prop := ∀ c ∈ rest.head?, c = ',' ∨ c = ']' ∨ c = '\x7d'

/-- A text that is read as a value, wherever it stands. -/
def Reads (text : List Char) (v : Value) : Prop :=
  ∀ fuel rest, text.length < fuel → Ends rest → value fuel (text ++ rest) = some (v, rest)

section Strings

def Coded (u : List Char) : Prop := ∀ c ∈ u, c ≠ '"' ∧ c ≠ ','

/-- The text between the quotation marks, and the string that it stands for. -/
inductive Token : List Char → List Char → Prop
  | nil : Token [] []
  | raw {c : Char} {t s : List Char} (hc : 32 ≤ c.toNat ∧ c ≠ '"' ∧ c ≠ '\\')
      (ht : Token t s) : Token (c :: t) (c :: s)
  | simple {e c : Char} {t s : List Char} (he : simpleEscape e = some c)
      (ht : Token t s) : Token ('\\' :: e :: t) (c :: s)
  | unicode {c : Char} {u t s : List Char} (hu : Coded u) (ht : Token t s) :
      Token ('\\' :: 'u' :: (u ++ t)) (c :: s)

theorem hexDigit_coded {c : Char} (h : (hexDigit c).isSome = true) : c ≠ '"' ∧ c ≠ ',' := by
  constructor
  · rintro rfl
    exact absurd h (by decide)
  · rintro rfl
    exact absurd h (by decide)

theorem hexNumber_coded {text rest : List Char} {n : Nat}
    (h : hexNumber text = some (n, rest)) : ∃ u, text = u ++ rest ∧ Coded u := by
  unfold hexNumber at h
  split at h
  · rename_i a b c d rest'
    simp only [Option.bind_eq_bind, Option.bind_eq_some_iff, Option.some.injEq,
      Prod.mk.injEq] at h
    obtain ⟨a', ha, b', hb, c', hc, d', hd, -, rfl⟩ := h
    refine ⟨[a, b, c, d], rfl, ?_⟩
    intro x hx
    simp only [List.mem_cons, List.not_mem_nil, or_false] at hx
    rcases hx with rfl | rfl | rfl | rfl
    · exact hexDigit_coded (by rw [ha]; rfl)
    · exact hexDigit_coded (by rw [hb]; rfl)
    · exact hexDigit_coded (by rw [hc]; rfl)
    · exact hexDigit_coded (by rw [hd]; rfl)
  · cases h

theorem Coded.append {u v : List Char} (hu : Coded u) (hv : Coded v) : Coded (u ++ v) := by
  intro c hc
  rcases List.mem_append.1 hc with hc | hc
  · exact hu c hc
  · exact hv c hc

theorem Coded.escape {u : List Char} (hu : Coded u) : Coded ('\\' :: 'u' :: u) := by
  intro c hc
  rcases List.mem_cons.1 hc with rfl | hc
  · decide
  · rcases List.mem_cons.1 hc with rfl | hc
    · decide
    · exact hu c hc

theorem surrogate_coded {text rest : List Char} {high : Nat} {c : Char}
    (h : surrogate high text = some (c, rest)) : ∃ u, text = u ++ rest ∧ Coded u := by
  unfold surrogate at h
  split at h
  · rename_i text'
    simp only [Option.bind_eq_bind, Option.bind_eq_some_iff] at h
    obtain ⟨⟨low, rest'⟩, hlow, h⟩ := h
    obtain ⟨u, rfl, hu⟩ := hexNumber_coded hlow
    split at h
    · rw [Option.some.injEq, Prod.mk.injEq] at h
      obtain ⟨-, rfl⟩ := h
      exact ⟨'\\' :: 'u' :: u, rfl, hu.escape⟩
    · cases h
  · cases h

theorem unicode_coded {text rest : List Char} {c : Char} (h : unicode text = some (c, rest)) :
    ∃ u, text = u ++ rest ∧ Coded u := by
  simp only [Json.unicode, Option.bind_eq_bind, Option.bind_eq_some_iff] at h
  obtain ⟨⟨unit, rest'⟩, hunit, h⟩ := h
  obtain ⟨u, rfl, hu⟩ := hexNumber_coded hunit
  split at h
  · obtain ⟨v, rfl, hv⟩ := surrogate_coded h
    exact ⟨u ++ v, (List.append_assoc _ _ _).symm, hu.append hv⟩
  · split at h
    · cases h
    · rw [Option.some.injEq, Prod.mk.injEq] at h
      obtain ⟨-, rfl⟩ := h
      exact ⟨u, rfl, hu⟩

theorem char_token {text rest : List Char} {c : Char} (h : char text = some (c, rest)) :
    ∃ u, text = u ++ rest ∧ ∀ t s, Token t s → Token (u ++ t) (c :: s) := by
  cases text with
  | nil => cases h
  | cons b text =>
      rw [Json.char] at h
      by_cases hb : b = '\\'
      · rw [if_pos hb] at h
        subst hb
        cases text with
        | nil => cases h
        | cons e text =>
            rw [escape] at h
            split at h
            · rename_i he
              subst he
              obtain ⟨u, rfl, hu⟩ := unicode_coded h
              exact ⟨'\\' :: 'u' :: u, rfl, fun t s ht => by simpa using Token.unicode hu ht⟩
            · obtain ⟨c', hc', heq⟩ := Option.map_eq_some_iff.1 h
              cases heq
              exact ⟨['\\', e], rfl, fun t s ht => Token.simple hc' ht⟩
      · rw [if_neg hb] at h
        split at h
        · cases h
        · rename_i hplain
          rw [not_or] at hplain
          cases h
          exact ⟨[c], rfl, fun t s ht => Token.raw ⟨by omega, hplain.1, hb⟩ ht⟩

theorem chars_token {n : Nat} {text s rest : List Char} (h : chars n text = some (s, rest)) :
    ∃ t, text = t ++ '"' :: rest ∧ Token t s := by
  induction n generalizing text s with
  | zero => cases h
  | succ n ih =>
      rw [chars] at h
      split at h
      · rename_i hhead
        cases h
        cases text with
        | nil => cases hhead
        | cons b text =>
            rw [List.head?_cons, Option.some.injEq] at hhead
            exact ⟨[], by rw [hhead]; rfl, Token.nil⟩
      · simp only [Option.bind_eq_bind, Option.bind_eq_some_iff] at h
        obtain ⟨⟨c, rest'⟩, hc, ⟨s', rest''⟩, hs, heq⟩ := h
        cases heq
        obtain ⟨u, rfl, hu⟩ := char_token hc
        obtain ⟨t, rfl, ht⟩ := ih hs
        exact ⟨u ++ t, (List.append_assoc _ _ _).symm, hu t s' ht⟩

/-- A string is no longer than its token, and as long only where nothing is
escaped. -/
theorem Token.length_le {t s : List Char} (h : Token t s) :
    s.length ≤ t.length ∧ (s.length = t.length → Plain t ∧ t = s) := by
  induction h with
  | nil => exact ⟨Nat.le_refl _, fun _ => ⟨by simp [Plain], rfl⟩⟩
  | raw hc ht ih =>
      refine ⟨Nat.succ_le_succ ih.1, fun heq => ?_⟩
      obtain ⟨hplain, rfl⟩ := ih.2 (Nat.succ.inj heq)
      refine ⟨?_, rfl⟩
      intro x hx
      rcases List.mem_cons.1 hx with rfl | hx
      · exact hc
      · exact hplain x hx
  | simple he ht ih =>
      simp only [List.length_cons]
      exact ⟨by omega, fun heq => by omega⟩
  | unicode hu ht ih =>
      simp only [List.length_cons, List.length_append]
      exact ⟨by omega, fun heq => by omega⟩

theorem Token.quote {t s : List Char} (h : Token t s) :
    ∀ a b, t = a ++ '"' :: b → a.getLast? = some '\\' := by
  induction h with
  | nil =>
      intro a b heq
      cases a <;> cases heq
  | raw hc ht ih =>
      intro a b heq
      cases a with
      | nil =>
          cases heq
          exact absurd rfl hc.2.1
      | cons x a =>
          cases heq
          have hlast := ih a b rfl
          rw [List.getLast?_cons, hlast]
          rfl
  | simple he ht ih =>
      intro a b heq
      rcases a with _ | ⟨x, _ | ⟨y, a⟩⟩
      · cases heq
      · cases heq
        rfl
      · cases heq
        have hlast := ih a b rfl
        rw [List.getLast?_cons, List.getLast?_cons, hlast]
        rfl
  | @unicode c u t s hu ht ih =>
      intro a b heq
      rcases a with _ | ⟨x, _ | ⟨y, a⟩⟩
      · cases heq
      · cases heq
      · simp only [List.cons_append, List.cons.injEq] at heq
        obtain ⟨rfl, rfl, heq⟩ := heq
        rcases List.append_eq_append_iff.1 heq with ⟨d, rfl, hd⟩ | ⟨d, hd, hq⟩
        · have hlast := ih d b hd
          rw [List.getLast?_cons, List.getLast?_cons, List.getLast?_append, hlast]
          rfl
        · cases d with
          | nil =>
              rw [List.append_nil] at hd
              subst hd
              have hlast := ih [] b hq.symm
              cases hlast
          | cons z d =>
              cases hq
              exact absurd rfl (hu '"' (by simp [hd])).1

theorem Token.comma {t s : List Char} (h : Token t s) :
    t.getLast? = some ',' → s.getLast? = some ',' := by
  induction h with
  | nil => exact id
  | raw hc ht ih =>
      intro hlast
      cases ht with
      | nil => exact hlast
      | raw | simple | unicode =>
          rw [List.getLast?_cons_cons] at hlast
          rw [List.getLast?_cons, ih hlast]
          rfl
  | @simple e c t s he ht ih =>
      intro hlast
      cases ht with
      | nil =>
          have hcomma : e = ',' := Option.some.inj hlast
          rw [hcomma] at he
          cases he
      | raw | simple | unicode =>
          rw [List.getLast?_cons_cons, List.getLast?_cons_cons] at hlast
          rw [List.getLast?_cons, ih hlast]
          rfl
  | @unicode c u t s hu ht ih =>
      intro hlast
      have hsplit : '\\' :: 'u' :: (u ++ t) = ('\\' :: 'u' :: u) ++ t := rfl
      rw [hsplit, List.getLast?_append] at hlast
      cases hend : t.getLast? with
      | none =>
          rw [hend, Option.none_or] at hlast
          exact absurd rfl (hu.escape ',' (List.mem_of_getLast? hlast)).2
      | some x =>
          rw [hend, Option.some_or] at hlast
          rw [List.getLast?_cons, ih (hend.trans hlast)]
          rfl

theorem Token.at_quote {t v front after rest : List Char} (ht : Token t v)
    (hlen : front.length ≤ v.length) (h : front ++ '"' :: after = t ++ '"' :: rest) :
    (t = front ∧ v = front ∧ Plain front ∧ rest = after) ∨
      ∃ u, t = front ++ '"' :: u ∧ after = u ++ '"' :: rest := by
  obtain ⟨hle, heq⟩ := ht.length_le
  have hsame : t = front → v = front ∧ Plain front ∧ rest = after := by
    rintro rfl
    obtain ⟨hplain, rfl⟩ := heq (by omega)
    exact ⟨rfl, hplain, (List.cons.inj (List.append_cancel_left h)).2.symm⟩
  rcases List.append_eq_append_iff.1 h with ⟨c, hc, hrest⟩ | ⟨c, hc, hrest⟩
  · cases c with
    | nil =>
        rw [List.append_nil] at hc
        exact Or.inl ⟨hc, hsame hc⟩
    | cons d c =>
        obtain ⟨rfl, hafter⟩ := List.cons.inj hrest
        exact Or.inr ⟨c, hc, hafter⟩
  · have hnil : c = [] := by
      rw [← List.length_eq_zero_iff]
      have := congrArg List.length hc
      rw [List.length_append] at this
      omega
    rw [hnil, List.append_nil] at hc
    exact Or.inl ⟨hc.symm, hsame hc.symm⟩

theorem chars_plain {s : List Char} (h : Plain s) (rest : List Char) :
    ∀ {n : Nat}, s.length < n → chars n (s ++ '"' :: rest) = some (s, rest) := by
  induction s with
  | nil =>
      intro n hn
      obtain ⟨n, rfl⟩ : ∃ m, n = m + 1 := ⟨n - 1, by rw [List.length_nil] at hn; omega⟩
      rw [chars]
      rfl
  | cons c s ih =>
      intro n hn
      rw [List.length_cons] at hn
      obtain ⟨n, rfl⟩ : ∃ m, n = m + 1 := ⟨n - 1, by omega⟩
      obtain ⟨hc, hquote, hback⟩ := h c List.mem_cons_self
      have hchar : char (c :: (s ++ '"' :: rest)) = some (c, s ++ '"' :: rest) := by
        rw [Json.char, if_neg hback, if_neg (by rw [not_or]; exact ⟨hquote, by omega⟩)]
      have hrest := ih (fun d hd => h d (List.mem_cons_of_mem _ hd)) (n := n) (by omega)
      rw [List.cons_append, chars, if_neg (by simpa using hquote), hchar]
      simp only [Option.bind_eq_bind, Option.bind_some, hrest]

theorem stringBody_plain {s : List Char} (h : Plain s) (rest : List Char) :
    stringBody (s ++ '"' :: rest) = some (s, rest) := by
  apply chars_plain h
  simp only [List.length_append, List.length_cons]
  omega

end Strings

section Reading

theorem skip_of_not_space {c : Char} {text : List Char} (h : isSpace c = false) :
    skip (c :: text) = c :: text := by
  rw [skip, List.dropWhile_cons, h]
  rfl

theorem decimal_cons (n : Nat) :
    ∃ d ds, decimal n = d :: ds ∧ d.isDigit = true ∧ (ds = [] ∨ d ≠ '0') := by
  induction n using Nat.strong_induction_on with
  | _ n ih =>
      by_cases hn : n < 10
      · refine ⟨n.digitChar, [], ?_, ?_, Or.inl rfl⟩
        · rw [decimal, Nat.toDigits_of_lt_base hn]
        · rw [Nat.isDigit_digitChar, decide_eq_true hn]
      · obtain ⟨d, ds, hd, hdig, hzero⟩ := ih (n / 10) (by omega)
        rw [decimal] at hd
        refine ⟨d, ds ++ [(n % 10).digitChar], ?_, hdig, Or.inr ?_⟩
        · rw [decimal, Nat.toDigits_of_base_le (by omega) (by omega), hd]
          rfl
        · rcases hzero with hnil | hne
          · intro h0
            have hval := Nat.ofDigitChars_ten_toDigits (n := n / 10)
            rw [hd, hnil, h0] at hval
            have hzero : Nat.ofDigitChars 10 ['0'] 0 = 0 := rfl
            omega
          · exact hne

theorem isDigit_not_mark {d : Char} (h : d.isDigit = true) :
    isSpace d = false ∧ d ≠ '"' ∧ d ≠ '[' ∧ d ≠ '\x7b' ∧ d ≠ 't' ∧ d ≠ 'f' ∧ d ≠ 'n' ∧ d ≠ '-' := by
  refine ⟨?_, ?_, ?_, ?_, ?_, ?_, ?_, ?_⟩
  · rw [isSpace, Bool.or_eq_false_iff, Bool.or_eq_false_iff, Bool.or_eq_false_iff]
    refine ⟨⟨⟨?_, ?_⟩, ?_⟩, ?_⟩ <;>
    · apply decide_eq_false
      rintro rfl
      exact absurd h (by decide)
  all_goals
    rintro rfl
    exact absurd h (by decide)

theorem Ends.stops {rest : List Char} (h : Ends rest) : Stops rest := by
  intro c hc
  rcases h c hc with rfl | rfl | rfl <;> decide

theorem Ends.head {rest : List Char} (h : Ends rest) :
    rest.head? ≠ some '.' ∧ rest.head? ≠ some 'e' ∧ rest.head? ≠ some 'E' := by
  refine ⟨?_, ?_, ?_⟩ <;>
  · intro hhead
    have hc := h _ hhead
    simp at hc

theorem number_decimal (n : Nat) {rest : List Char} (h : Ends rest) :
    number (decimal n ++ rest) = some (.number n, rest) := by
  obtain ⟨d, ds, hd, hdig, hzero⟩ := decimal_cons n
  obtain ⟨hdot, he, hE⟩ := h.head
  have hmark := isDigit_not_mark hdig
  have htake : (decimal n ++ rest).takeWhile Char.isDigit = decimal n := by
    rw [List.takeWhile_append_of_pos (fun c hc => decimal_isDigit hc), takeWhile_stops h.stops,
      List.append_nil]
  have hdrop : (decimal n ++ rest).dropWhile Char.isDigit = rest := by
    rw [List.dropWhile_append_of_pos (fun c hc => decimal_isDigit hc), dropWhile_stops h.stops]
  have hneg : ¬ (decimal n ++ rest).head? = some '-' := by
    rw [hd]
    simpa using hmark.2.2.2.2.2.2.2
  have hint : ¬ (decimal n = [] ∨ ((decimal n).head? = some '0' ∧ 1 < (decimal n).length)) := by
    rw [hd]
    rcases hzero with rfl | hne
    · simp
    · simp [hne]
  have hval : Nat.ofDigitChars 10 (decimal n) 0 = n := Nat.ofDigitChars_ten_toDigits
  simp only [number, hneg, if_false, htake, hdrop, if_neg hint, fraction, if_neg hdot, exponent,
    if_neg (by rw [not_or]; exact ⟨he, hE⟩ : ¬ (rest.head? = some 'e' ∨ rest.head? = some 'E')),
    Option.bind_eq_bind, Option.bind_some, List.append_nil, hval]
  simp

theorem Reads.decimal (n : Nat) : Reads (decimal n) (.number n) := by
  intro fuel rest hfuel hrest
  obtain ⟨d, ds, hd, hdig, -⟩ := decimal_cons n
  obtain ⟨hspace, hquote, hopen, hbrace, ht, hf, hn, -⟩ := isDigit_not_mark hdig
  obtain ⟨fuel, rfl⟩ : ∃ m, fuel = m + 1 := ⟨fuel - 1, by omega⟩
  have hnumber := number_decimal n hrest
  rw [hd, List.cons_append] at hnumber ⊢
  rw [value, skip_of_not_space hspace]
  dsimp only
  rw [if_neg hquote, if_neg hopen, if_neg hbrace, if_neg ht, if_neg hf, if_neg hn, hnumber]

theorem Reads.string {s : List Char} (h : Plain s) : Reads ('"' :: s ++ ['"']) (.string s) := by
  intro fuel rest hfuel hrest
  obtain ⟨fuel, rfl⟩ : ∃ m, fuel = m + 1 := ⟨fuel - 1, by omega⟩
  have hbody := stringBody_plain h rest
  rw [List.append_assoc, List.singleton_append, List.cons_append, value,
    skip_of_not_space (by decide)]
  dsimp only
  rw [if_pos rfl, hbody]
  rfl

def joined : List (List Char) → List Char
  | [] => []
  | [text] => text
  | text :: next :: texts => text ++ ',' :: joined (next :: texts)

def memberText (entry : List Char × List Char) : List Char := '"' :: entry.1 ++ '"' :: ':' :: entry.2

theorem memberText_append (name text more : List Char) :
    memberText (name, text) ++ more = memberText (name, text ++ more) := by
  simp [memberText]

theorem length_joined (texts : List (List Char)) : texts.length ≤ (joined texts).length + 1 := by
  induction texts with
  | nil => simp
  | cons text texts ih =>
      cases texts with
      | nil => simp
      | cons next texts =>
          simp only [joined, List.length_append, List.length_cons] at ih ⊢
          omega

theorem ends_cons {c : Char} (h : c = ',' ∨ c = ']' ∨ c = '\x7d') (rest : List Char) :
    Ends (c :: rest) := by
  intro d hd
  rw [List.head?_cons, Option.mem_some_iff] at hd
  exact hd ▸ h

theorem items_joined {fuel : Nat} (pairs : List (List Char × Value)) (hne : pairs ≠ [])
    (hreads : ∀ pair ∈ pairs, Reads pair.1 pair.2) (rest : List Char) :
    ∀ {n : Nat}, pairs.length ≤ n → (joined (pairs.map Prod.fst)).length < fuel →
      items (value fuel) n (joined (pairs.map Prod.fst) ++ ']' :: rest) =
        some (pairs.map Prod.snd, rest) := by
  induction pairs with
  | nil => exact absurd rfl hne
  | cons pair pairs ih =>
      intro n hn hfuel
      rw [List.length_cons] at hn
      obtain ⟨n, rfl⟩ : ∃ m, n = m + 1 := ⟨n - 1, by omega⟩
      have hpair := hreads pair List.mem_cons_self
      cases pairs with
      | nil =>
          have hv := hpair fuel (']' :: rest) hfuel (ends_cons (.inr (.inl rfl)) rest)
          simp only [List.map_cons, List.map_nil, joined, items, hv, Option.bind_eq_bind,
            Option.bind_some, skip_of_not_space (by decide : isSpace ']' = false)]
      | cons next pairs =>
          simp only [List.map_cons, joined, List.length_append, List.length_cons] at hfuel
          have hv := hpair fuel (',' :: (joined ((next :: pairs).map Prod.fst) ++ ']' :: rest))
            (by omega) (ends_cons (.inl rfl) _)
          have hrest := ih (by simp) (fun p hp => hreads p (List.mem_cons_of_mem _ hp))
            (n := n) (by rw [List.length_cons] at hn ⊢; omega)
            (by simp only [List.map_cons]; omega)
          simp only [List.map_cons] at hv hrest
          simp only [List.map_cons, joined, List.append_assoc, List.cons_append, items, hv,
            Option.bind_eq_bind, Option.bind_some,
            skip_of_not_space (by decide : isSpace ',' = false), hrest]

theorem Reads.not_bracket {text : List Char} {v : Value} (h : Reads text v) {rest : List Char}
    (hrest : Ends rest) : (skip (text ++ rest)).head? ≠ some ']' := by
  intro hhead
  have hv := h (text.length + 1) rest (by omega) hrest
  rw [value] at hv
  cases hskip : skip (text ++ rest) with
  | nil =>
      rw [hskip] at hhead
      cases hhead
  | cons c cs =>
      rw [hskip, List.head?_cons, Option.some.injEq] at hhead
      rw [hskip, hhead] at hv
      cases hv

theorem Reads.array (pairs : List (List Char × Value))
    (hreads : ∀ pair ∈ pairs, Reads pair.1 pair.2) :
    Reads ('[' :: joined (pairs.map Prod.fst) ++ [']']) (.array (pairs.map Prod.snd)) := by
  intro fuel rest hfuel hrest
  obtain ⟨fuel, rfl⟩ : ∃ m, fuel = m + 1 := ⟨fuel - 1, by omega⟩
  rw [List.append_assoc, List.singleton_append, List.cons_append, value,
    skip_of_not_space (by decide)]
  dsimp only
  rw [if_neg (by decide), if_pos rfl]
  simp only [List.length_append, List.length_cons, List.length_nil] at hfuel
  cases pairs with
  | nil =>
      have hclose : skip (joined (([] : List (List Char × Value)).map Prod.fst) ++ ']' :: rest) =
          ']' :: rest := skip_of_not_space (by decide)
      rw [hclose, if_pos List.head?_cons]
      rfl
  | cons pair pairs =>
      have hlen := length_joined ((pair :: pairs).map Prod.fst)
      rw [List.length_map] at hlen
      have hitems := items_joined (pair :: pairs) (by simp) hreads rest (n := fuel) (by omega)
        (by omega : _ < fuel)
      have hfirst : (skip (joined ((pair :: pairs).map Prod.fst) ++ ']' :: rest)).head? ≠
          some ']' := by
        have hpair := hreads pair List.mem_cons_self
        cases pairs with
        | nil => exact hpair.not_bracket (ends_cons (.inr (.inl rfl)) rest)
        | cons next pairs =>
            simp only [List.map_cons, joined, List.append_assoc, List.cons_append]
            exact hpair.not_bracket (ends_cons (.inl rfl) _)
      rw [if_neg hfirst, hitems]
      rfl

theorem expect_cons (c : Char) (rest : List Char) : expect [c] (c :: rest) = some rest :=
  expect_append [c] rest

section Members

variable {parse : List Char → Option (Value × List Char)} {name text rest rest' : List Char}
variable {v : Value} {fields : List (List Char × Value)} {n : Nat}

theorem members_comma (hname : Plain name) (hv : parse text = some (v, ',' :: rest))
    (hrest : members parse n rest = some (fields, rest')) :
    members parse (n + 1) (memberText (name, text)) = some ((name, v) :: fields, rest') := by
  rw [members, memberText, List.cons_append, skip_of_not_space (by decide), expect_cons]
  simp only [Option.bind_eq_bind, Option.bind_some, stringBody_plain hname,
    skip_of_not_space (by decide : isSpace ':' = false), expect_cons, hv,
    skip_of_not_space (by decide : isSpace ',' = false), hrest]

theorem members_close (hname : Plain name) (hv : parse text = some (v, '\x7d' :: rest)) :
    members parse (n + 1) (memberText (name, text)) = some ([(name, v)], rest) := by
  rw [members, memberText, List.cons_append, skip_of_not_space (by decide), expect_cons]
  simp only [Option.bind_eq_bind, Option.bind_some, stringBody_plain hname,
    skip_of_not_space (by decide : isSpace ':' = false), expect_cons, hv,
    skip_of_not_space (by decide : isSpace '\x7d' = false)]

theorem members_some (hname : Plain name)
    (h : members parse (n + 1) (memberText (name, text)) = some (fields, rest')) :
    ∃ v rest, parse text = some (v, rest) ∧
      ((∃ rest'' fields', skip rest = ',' :: rest'' ∧
          members parse n rest'' = some (fields', rest') ∧ fields = (name, v) :: fields') ∨
        (skip rest = '\x7d' :: rest' ∧ fields = [(name, v)])) := by
  rw [members, memberText, List.cons_append, skip_of_not_space (by decide), expect_cons] at h
  simp only [Option.bind_eq_bind, Option.bind_some, stringBody_plain hname,
    skip_of_not_space (by decide : isSpace ':' = false), expect_cons,
    Option.bind_eq_some_iff] at h
  obtain ⟨⟨v, rest⟩, hv, h⟩ := h
  refine ⟨v, rest, hv, ?_⟩
  split at h
  · rename_i rest'' hskip
    obtain ⟨⟨fields', rest3⟩, hmembers, heq⟩ := Option.bind_eq_some_iff.1 h
    cases heq
    exact Or.inl ⟨rest'', fields', hskip, hmembers, rfl⟩
  · rename_i rest'' hskip
    cases h
    exact Or.inr ⟨hskip, rfl⟩
  · cases h

end Members

theorem members_joined {fuel : Nat} (entries : List (List Char × List Char × Value))
    (hne : entries ≠ [])
    (hreads : ∀ entry ∈ entries, Plain entry.1 ∧ Reads entry.2.1 entry.2.2) (rest : List Char) :
    ∀ {n : Nat}, entries.length ≤ n →
      (joined (entries.map (fun entry => memberText (entry.1, entry.2.1)))).length < fuel →
      members (value fuel) n
        (joined (entries.map (fun entry => memberText (entry.1, entry.2.1))) ++ '\x7d' :: rest) =
        some (entries.map (fun entry => (entry.1, entry.2.2)), rest) := by
  induction entries with
  | nil => exact absurd rfl hne
  | cons entry entries ih =>
      intro n hn hfuel
      rw [List.length_cons] at hn
      obtain ⟨n, rfl⟩ : ∃ m, n = m + 1 := ⟨n - 1, by omega⟩
      obtain ⟨hname, hentry⟩ := hreads entry List.mem_cons_self
      cases entries with
      | nil =>
          simp only [List.map_cons, List.map_nil, joined, memberText, List.length_append,
            List.length_cons] at hfuel
          have hv := hentry fuel ('\x7d' :: rest) (by omega) (ends_cons (.inr (.inr rfl)) rest)
          simp only [List.map_cons, List.map_nil, joined, memberText_append]
          exact members_close hname hv
      | cons next entries =>
          simp only [List.map_cons, joined, memberText, List.length_append,
            List.length_cons] at hfuel
          have hv := hentry fuel
            (',' :: (joined ((next :: entries).map (fun e => memberText (e.1, e.2.1))) ++
              '\x7d' :: rest)) (by omega) (ends_cons (.inl rfl) _)
          have hrest := ih (by simp) (fun e he => hreads e (List.mem_cons_of_mem _ he))
            (n := n) (by rw [List.length_cons] at hn ⊢; omega)
            (by simp only [List.map_cons, memberText]; omega)
          simp only [List.map_cons] at hv hrest
          simp only [List.map_cons, joined, memberText_append, List.append_assoc, List.cons_append]
          exact members_comma hname hv hrest

theorem Reads.object (entries : List (List Char × List Char × Value)) (hne : entries ≠ [])
    (hreads : ∀ entry ∈ entries, Plain entry.1 ∧ Reads entry.2.1 entry.2.2) :
    Reads ('\x7b' :: joined (entries.map (fun entry => memberText (entry.1, entry.2.1))) ++
        ['\x7d'])
      (.object (entries.map (fun entry => (entry.1, entry.2.2)))) := by
  intro fuel rest hfuel hrest
  obtain ⟨fuel, rfl⟩ : ∃ m, fuel = m + 1 := ⟨fuel - 1, by omega⟩
  have hlen := length_joined (entries.map (fun entry => memberText (entry.1, entry.2.1)))
  simp only [List.length_append, List.length_cons, List.length_nil, List.length_map] at hfuel hlen
  have hmembers := members_joined entries hne hreads rest (n := fuel) (by omega)
    (by omega : _ < fuel)
  have hfirst : (skip (joined (entries.map (fun entry => memberText (entry.1, entry.2.1))) ++
      '\x7d' :: rest)).head? ≠ some '\x7d' := by
    cases entries with
    | nil => exact absurd rfl hne
    | cons entry entries =>
        cases entries <;>
        · simp only [List.map_cons, List.map_nil, joined, memberText, List.append_assoc,
            List.cons_append]
          rw [skip_of_not_space (by decide)]
          simp
  rw [List.append_assoc, List.singleton_append, List.cons_append, value,
    skip_of_not_space (by decide)]
  dsimp only
  rw [if_neg (by decide), if_neg (by decide), if_pos rfl, if_neg hfirst, hmembers]
  rfl

theorem Reads.read {text : List Char} {v : Value} (h : Reads text v) : read text = some v := by
  have hv := h (text.length + 1) [] (by omega) (by simp [Ends])
  rw [List.append_nil] at hv
  rw [Json.read, hv]
  rfl

end Reading

theorem value_string {fuel : Nat} {text rest : List Char} {v : Value}
    (h : value fuel ('"' :: text) = some (v, rest)) :
    ∃ t s, v = .string s ∧ text = t ++ '"' :: rest ∧ Token t s := by
  cases fuel with
  | zero => cases h
  | succ fuel =>
      rw [value, skip_of_not_space (by decide)] at h
      dsimp only at h
      rw [if_pos rfl] at h
      obtain ⟨⟨s, rest'⟩, hbody, heq⟩ := Option.map_eq_some_iff.1 h
      cases heq
      obtain ⟨t, htext, ht⟩ := chars_token hbody
      exact ⟨t, s, rfl, htext, ht⟩

theorem member_string {fuel n : Nat} {name text rest' v : List Char}
    {fields : List (List Char × Value)} (hname : Plain name)
    (h : members (value fuel) n (memberText (name, '"' :: text)) = some (fields, rest'))
    (hv : member fields name = some (.string v)) :
    ∃ t rest, Token t v ∧ text = t ++ '"' :: rest ∧
      ∀ rest₁, skip rest = ',' :: rest₁ → ∃ n fields', members (value fuel) n rest₁ =
        some (fields', rest') ∧ fields = (name, .string v) :: fields' := by
  cases n with
  | zero => cases h
  | succ n =>
      obtain ⟨v₁, rest, hval, hmore⟩ := members_some hname h
      obtain ⟨t, s, rfl, htext, ht⟩ := value_string hval
      have hfirst : ∃ fields', fields = (name, .string s) :: fields' := by
        rcases hmore with ⟨_, fields', _, _, hf⟩ | ⟨_, hf⟩
        · exact ⟨fields', hf⟩
        · exact ⟨[], hf⟩
      obtain ⟨fields', rfl⟩ := hfirst
      rw [member_self, Option.some.injEq, Value.string.injEq] at hv
      subst hv
      refine ⟨t, rest, ht, htext, ?_⟩
      intro rest₁ hcomma
      rcases hmore with ⟨rest₂, fields₂, hskip, hmembers, hf⟩ | ⟨hbrace, -⟩
      · obtain ⟨-, rfl⟩ := List.cons.inj (hcomma.symm.trans hskip)
        exact ⟨n, fields₂, hmembers, hf⟩
      · exact absurd (List.cons.inj (hcomma.symm.trans hbrace)).1 (by decide)

theorem read_object {name text : List Char} {v : Value}
    (h : read ('\x7b' :: memberText (name, text)) = some v) :
    ∃ fuel fields rest, members (value fuel) fuel (memberText (name, text)) = some (fields, rest) ∧
      v = .object fields := by
  have hvalue : ∃ rest, value (('\x7b' :: memberText (name, text)).length + 1)
      ('\x7b' :: memberText (name, text)) = some (v, rest) := by
    rw [Json.read] at h
    split at h
    · rename_i v' rest hv
      split at h
      · obtain rfl := Option.some.inj h
        exact ⟨rest, hv⟩
      · cases h
    · cases h
  obtain ⟨rest, hv⟩ := hvalue
  have hfirst : (skip (memberText (name, text))).head? ≠ some '\x7d' := by
    rw [memberText, List.cons_append, skip_of_not_space (by decide)]
    simp
  rw [value, skip_of_not_space (by decide)] at hv
  dsimp only at hv
  rw [if_neg (by decide), if_neg (by decide), if_pos rfl, if_neg hfirst] at hv
  obtain ⟨⟨fields, rest'⟩, hmembers, heq⟩ := Option.map_eq_some_iff.1 hv
  cases heq
  exact ⟨_, fields, rest', hmembers, rfl⟩

def IsJson (data : List UInt8) (v : Value) : Prop := ∃ text, utf8 text = data ∧ read text = some v

end WirelessGateway.Lib.Json
