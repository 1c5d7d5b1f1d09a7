import Mathlib.Data.List.TakeWhile
import WirelessGateway.S111Slave

namespace WirelessGateway.S111Slave

open Lib.Registers SlaveFrame

section Purpose

def S111.code (d : S111) : Nat := (d.instr ⟨0, by decide⟩).toNat

def S111.params (d : S111) : List Nat := (List.ofFn d.instr).tail.map UInt16.toNat

def S111.read (d : S111) (addr count : Nat) : List Nat :=
  (load d.rb 0 addr count).map UInt16.toNat

def S111.result (d : S111) : Nat := (d.rb ⟨425, by decide⟩).toNat

def Instructs (start count : Nat) : Prop :=
  Writable start count ∧ start ≤ 300 ∧ 300 < start + count

instance (start count : Nat) : Decidable (Instructs start count) :=
  inferInstanceAs (Decidable (_ ∧ _ ∧ _))

def IsConfig (a : Nat) : Prop := (500 ≤ a ∧ a ≤ 802) ∨ (3000 ≤ a ∧ a ≤ 3001) ∨ (75 ≤ a ∧ a ≤ 83)

/-- What an instruction that fails must leave as it was. -/
structure Untouched (d d' : S111) : Prop where
  config : ∀ a : Fin size, IsConfig a.val → d'.rb a = d.rb a
  voltage : d'.voltage = d.voltage
  freq : d'.freq = d.freq
  wh : d'.wh = d.wh
  varh : d'.varh = d.varh
  vah : d'.vah = d.vah
  address : d'.address = d.address

/-- Where an instruction keeps its parameters, and in how many registers. -/
def place (code : Nat) : Nat × Nat :=
  if code = 1001 then (500, 7)
  else if code = 1010 then (550, 3)
  else if code = 1011 then (553, 3)
  else if code = 1020 then (600, 2)
  else if code = 1060 then (3000, 2)
  else if code = 1070 then (801, 1)
  else if code = 1071 then (802, 1)
  else if code = 1200 then (75, 4)
  else if code = 1210 then (80, 4)
  else (0, 0)

/-- The parameters that the registers stand for. The fields of a date share
registers, and stop bits are counted from 1 on. -/
def shown (code : Nat) (words : List Nat) : List Nat :=
  if code = 1200 then
    [param words 0, param words 1 / 256, param words 1 % 256, param words 2 / 256,
      param words 2 % 256, param words 3]
  else if code = 1210 then [param words 0, param words 1, param words 2, param words 3 + 1]
  else words

/-- Resets of all energies. -/
def ResetsEnergy (code : Nat) (params : List Nat) : Prop :=
  code = 1301 ∧ (param params 0 = 4 ∨ param params 0 = 5)

instance (code : Nat) (params : List Nat) : Decidable (ResetsEnergy code params) :=
  inferInstanceAs (Decidable (_ ∧ _))

/-- The reset of the tariff energies, which are the active energies of the only
tariff, resets these as well. -/
def ResetsTariff (code : Nat) (params : List Nat) : Prop :=
  code = 1301 ∧ (param params 0 = 3 ∨ param params 0 = 4 ∨ param params 0 = 5)

instance (code : Nat) (params : List Nat) : Decidable (ResetsTariff code params) :=
  inferInstanceAs (Decidable (_ ∧ _))

/-- All parameters of an instruction have been applied as they were given. -/
structure Applied (code : Nat) (params : List Nat) (d d' : S111) : Prop where
  registers : shown code (d'.read (place code).1 (place code).2) <+: params
  voltage : d'.voltage = if code = 1001 then (param params 2 : ℚ) else d.voltage
  freq : d'.freq = if code = 1001 then (param params 1 : ℚ) else d.freq
  wh : d'.wh = if ResetsTariff code params then fun _ => 0 else d.wh
  varh : d'.varh = if ResetsEnergy code params then fun _ => 0 else d.varh
  vah : d'.vah = if ResetsEnergy code params then fun _ => 0 else d.vah
  address : d'.address = if code = 1210 then (param params 0 : Int) else d.address

/-- An instruction is executed as a whole, or fails and changes nothing. -/
def Atomic (code : Nat) (params : List Nat) (d d' : S111) (result : Nat) : Prop :=
  (result ≠ 0 → Untouched d d') ∧ (result = 0 → Applied code params d d')

/-- A bad parameter stands behind good ones, and the registers do not hold the
good ones already. -/
def Halfway (valid : Nat → Bool) (d : S111) (addr : Nat) (vs : List Nat) : Prop :=
  vs.all valid = false ∧ d.read addr (vs.takeWhile valid).length ≠ vs.takeWhile valid

/-- The two instructions that check their parameters one by one meet a bad one
halfway. -/
def Torn (code : Nat) (params : List Nat) (d : S111) : Prop :=
  (code = 1010 ∧ Halfway (fun v => v = 0 || v = 1) d 550 (params.take 3)) ∨
    (code = 1011 ∧ Halfway (fun v => v ≤ 2) d 553 (params.take 3))

def maskedDate (params : List Nat) : Option DateTime :=
  datetime (param params 0) (max 1 (param params 1 &&& 0xFF)) (max 1 (param params 2 &&& 0xFF))
    (param params 3 &&& 0xFF) (param params 4 &&& 0xFF) (min 59 (param params 5 &&& 0xFF))

def OutOfRange (params : List Nat) : Prop :=
  param params 1 = 0 ∨ 255 < param params 1 ∨ param params 2 = 0 ∨ 255 < param params 2 ∨
    255 < param params 3 ∨ 255 < param params 4 ∨ 59 < param params 5

/-- A parameter that is not refused, and not applied either: a nominal voltage
of 0, a frequency other than 50 and 60, a mode above 1, a date that is changed
into one of the calendar, and the reset of the tariff energies. -/
def Altered (code : Nat) (params : List Nat) (d : S111) : Prop :=
  (code = 1001 ∧ param params 0 ≤ 5 ∧ (param params 2 = 0 ∧ d.voltage ≠ 0 ∨
    param params 1 ≠ 50 ∧ param params 1 ≠ 60 ∧ d.freq ≠ param params 1)) ∨
  ((code = 1060 ∨ code = 1070) ∧ 1 < param params 0) ∨
  (code = 1200 ∧ (maskedDate params).isSome = true ∧ OutOfRange params) ∨
  (code = 1301 ∧ param params 0 = 3 ∧ d.wh ≠ fun _ => 0)

end Purpose

variable {d d' d₁ d₂ d₃ : S111} {code addr start : Nat} {params words ws : List Nat}

@[simp]
theorem param_cons_zero (w : Nat) (ws : List Nat) : param (w :: ws) 0 = w := rfl

@[simp]
theorem param_cons_succ (w : Nat) (ws : List Nat) (i : Nat) : param (w :: ws) (i + 1) = param ws i := rfl

section Frames

def InConfig (addr count : Nat) : Prop := ∀ a, addr ≤ a → a < addr + count → IsConfig a

theorem inConfig_of_le {n count : Nat} (hle : count ≤ n)
    (hplace : (500 ≤ addr ∧ addr + n ≤ 803) ∨ (3000 ≤ addr ∧ addr + n ≤ 3002) ∨
      (75 ≤ addr ∧ addr + n ≤ 84)) : InConfig addr count := by
  intro a hle hlt
  rw [IsConfig]
  omega

theorem InConfig.takeWhile (h : InConfig addr ws.length) (valid : Nat → Bool) :
    InConfig addr (ws.takeWhile valid).length := by
  have hlen := (List.takeWhile_sublist (l := ws) valid).length_le
  exact fun a hle hlt => h a hle (Nat.lt_of_lt_of_le hlt (Nat.add_le_add_left hlen addr))

theorem Untouched.refl (d : S111) : Untouched d d := ⟨fun _ _ => rfl, rfl, rfl, rfl, rfl, rfl, rfl⟩

theorem Untouched.symm (h : Untouched d d') : Untouched d' d :=
  ⟨fun a ha => (h.config a ha).symm, h.voltage.symm, h.freq.symm, h.wh.symm, h.varh.symm, h.vah.symm,
    h.address.symm⟩

theorem Untouched.trans (h : Untouched d₁ d₂) (h' : Untouched d₂ d₃) : Untouched d₁ d₃ :=
  ⟨fun a ha => (h'.config a ha).trans (h.config a ha), h'.voltage.trans h.voltage,
    h'.freq.trans h.freq, h'.wh.trans h.wh, h'.varh.trans h.varh, h'.vah.trans h.vah,
    h'.address.trans h.address⟩

theorem untouched_set_iff : Untouched d (d.set addr ws) ↔
    ∀ a : Fin size, IsConfig a.val → (d.set addr ws).rb a = d.rb a :=
  ⟨fun h => h.config, fun h => ⟨h, rfl, rfl, rfl, rfl, rfl, rfl⟩⟩

theorem untouched_set (hlow : 84 ≤ addr) (hhigh : addr + ws.length ≤ 500) : Untouched d (d.set addr ws) := by
  refine untouched_set_iff.2 (fun a ha => store_of_ne a ?_)
  rw [List.length_map]
  rcases ha with ⟨hle, -⟩ | ⟨hle, -⟩ | ⟨-, hge⟩ <;> omega

theorem Untouched.read_eq {count : Nat} (h : Untouched d d') (hconfig : InConfig addr count) :
    d'.read addr count = d.read addr count := by
  rw [S111.read, S111.read]
  refine congrArg _ (load_congr 0 ?_)
  intro a hle hlt
  exact h.config a (hconfig a.val hle hlt)

theorem read_set (hfit : addr + ws.length ≤ size) (hlt : ∀ w ∈ ws, w < 65536) :
    (d.set addr ws).read addr ws.length = ws := by
  have hload : load (store d.rb addr (ws.map UInt16.ofNat)) 0 addr (ws.map UInt16.ofNat).length =
      ws.map UInt16.ofNat := load_store d.rb 0 (by rwa [List.length_map])
  rw [List.length_map] at hload
  rw [S111.read, S111.set, hload, words_toNat hlt]

theorem set_untouched_iff (hfit : addr + ws.length ≤ size) (hlt : ∀ w ∈ ws, w < 65536)
    (hconfig : InConfig addr ws.length) :
    Untouched d (d.set addr ws) ↔ d.read addr ws.length = ws := by
  constructor
  · intro h
    rw [← h.read_eq hconfig]
    exact read_set hfit hlt
  · intro h
    refine untouched_set_iff.2 (fun a _ => congrFun ?_ a)
    refine (store_eq_self_iff 0 (by rwa [List.length_map])).2 ?_
    rw [List.length_map]
    refine (List.map_injective_iff.2 (fun _ _ hw => UInt16.toNat_inj.1 hw)) ?_
    rw [words_toNat hlt]
    exact h

end Frames

section Outcomes

/-- An instruction that checks its parameters before it stores any. -/
def Outcome (code : Nat) (params : List Nat) (d : S111) (r : S111 × Nat) : Prop :=
  (r.2 = 0 ∧ (Applied code params d r.1 ↔ ¬ Altered code params d) ∧
      r.1.address = if code = 1210 then (param params 0 : Int) else d.address) ∨
    (r.2 ∈ [80, 81, 82] ∧ Untouched d r.1 ∧ ¬ Altered code params d)

theorem Outcome.atomic_iff {r : S111 × Nat} (h : Outcome code params d r) :
    Atomic code params d r.1 r.2 ↔ ¬ Altered code params d := by
  rcases h with ⟨hzero, happlied, -⟩ | ⟨hcode, huntouched, hkept⟩
  · rw [← happlied]
    exact ⟨fun h => h.2 hzero, fun h => ⟨fun hne => absurd hzero hne, fun _ => h⟩⟩
  · refine iff_of_true ⟨fun _ => huntouched, fun hzero => ?_⟩ hkept
    rw [hzero] at hcode
    exact absurd hcode (by decide)

theorem outcome_if {c : Prop} [Decidable c] {a b : S111 × Nat} (ha : c → Outcome code params d a)
    (hb : ¬ c → Outcome code params d b) : Outcome code params d (if c then a else b) := by
  by_cases h : c
  · rw [if_pos h]
    exact ha h
  · rw [if_neg h]
    exact hb h

theorem outcome_refused {result : Nat} (h : result ∈ [80, 81, 82]) (hkept : ¬ Altered code params d) :
    Outcome code params d (d, result) := Or.inr ⟨h, Untouched.refl d, hkept⟩

theorem param_lt (h : ∀ w ∈ params, w < 65536) (i : Nat) : param params i < 65536 := by
  rw [param, List.getD_eq_getElem?_getD]
  cases hi : params[i]? with
  | none => decide
  | some w => exact h w (List.mem_of_getElem? hi)

def Plain (code : Nat) : Prop := code ≠ 1001 ∧ code ≠ 1210 ∧ code ≠ 1301

instance (code : Nat) : Decidable (Plain code) := inferInstanceAs (Decidable (_ ∧ _))

theorem applied_block_iff (hcode : Plain code) (hplace : place code = (addr, ws.length))
    (hfit : addr + ws.length ≤ size) (hlt : ∀ w ∈ ws, w < 65536) :
    Applied code params d (d.set addr ws) ↔ shown code ws <+: params := by
  have hread := read_set (d := d) hfit hlt
  constructor
  · intro h
    have hregs := h.registers
    rwa [hplace, hread] at hregs
  · intro h
    refine ⟨?_, (if_neg hcode.1).symm, (if_neg hcode.1).symm, (if_neg (fun h => hcode.2.2 h.1)).symm,
      (if_neg (fun h => hcode.2.2 h.1)).symm, (if_neg (fun h => hcode.2.2 h.1)).symm,
      (if_neg hcode.2.1).symm⟩
    rwa [hplace, hread]

theorem outcome_block (addr : Nat) (ws : List Nat) (hcode : Plain code)
    (hplace : place code = (addr, ws.length)) (hfit : addr + ws.length ≤ size)
    (hlt : ∀ w ∈ ws, w < 65536)
    (hshown : shown code ws <+: params ↔ ¬ Altered code params d) :
    Outcome code params d (d.set addr ws, 0) :=
  Or.inl ⟨rfl, (applied_block_iff hcode hplace hfit hlt).trans hshown, (if_neg hcode.2.1).symm⟩

theorem take_lt (h : ∀ w ∈ params, w < 65536) (n : Nat) : ∀ w ∈ params.take n, w < 65536 :=
  fun w hw => h w (List.mem_of_mem_take hw)

theorem take_params {n : Nat} (h : n ≤ params.length) :
    params.take n = (List.range n).map (param params) := by
  apply List.ext_getElem?
  intro i
  rw [List.getElem?_take, List.getElem?_map]
  by_cases hi : i < n
  · rw [if_pos hi, List.getElem?_range hi, List.getElem?_eq_getElem (by omega), Option.map_some,
      param, List.getD_eq_getElem?_getD,
      List.getElem?_eq_getElem (by omega), Option.getD_some]
  · rw [if_neg hi, List.getElem?_eq_none (by rw [List.length_range]; omega)]
    rfl

theorem prefix_iff (h : ws.length ≤ params.length) :
    ws <+: params ↔ ws = (List.range ws.length).map (param params) := by
  rw [List.prefix_iff_eq_take, take_params h]

theorem outcome_zeroDrift (h : ∀ w ∈ params, w < 65536) (hlen : 7 ≤ params.length) :
    Outcome 1020 params d (zeroDrift d params) := by
  have hkept : ¬ Altered 1020 params d := by simp [Altered]
  rw [zeroDrift, if_neg (by omega)]
  apply outcome_if (fun _ => outcome_refused (by decide) hkept)
  intro _
  have htake : params.take 2 = [param params 0, param params 1] := take_params (by omega)
  refine outcome_block 600 [param params 0, param params 1] (by decide) rfl (by simp [size]) ?_ ?_
  · rw [← htake]
    exact take_lt h 2
  · exact iff_of_true (htake ▸ List.take_prefix 2 params) hkept

theorem altered_bit (h : code = 1060 ∨ code = 1070) : Altered code params d ↔ 1 < param params 0 := by
  rcases h with rfl | rfl
  · simp [Altered]
  · simp [Altered]

theorem outcome_demandParameters (h : ∀ w ∈ params, w < 65536) (hlen : 7 ≤ params.length) :
    Outcome 1060 params d (demandParameters d params) := by
  rw [demandParameters, if_neg (by omega), Nat.and_one_is_mod]
  refine outcome_block 3000 [param params 0 % 2, param params 1] (by decide) rfl (by simp [size]) ?_ ?_
  · have hp := param_lt h 1
    simp only [List.forall_mem_cons]
    exact ⟨by omega, hp, List.forall_mem_nil _⟩
  · rw [show shown 1060 [param params 0 % 2, param params 1] = [param params 0 % 2, param params 1] from rfl,
      prefix_iff (by simp; omega), altered_bit (Or.inl rfl)]
    change [param params 0 % 2, param params 1] = [param params 0, param params 1] ↔ _
    rw [List.cons_eq_cons, and_iff_left rfl]
    omega

theorem outcome_tariffMode (hlen : 7 ≤ params.length) : Outcome 1070 params d (tariffMode d params) := by
  rw [tariffMode, if_neg (by omega), Nat.and_one_is_mod]
  refine outcome_block 801 [param params 0 % 2] (by decide) rfl (by simp [size]) ?_ ?_
  · simp only [List.forall_mem_singleton]
    omega
  · rw [show shown 1070 [param params 0 % 2] = [param params 0 % 2] from rfl, prefix_iff (by simp; omega),
      altered_bit (Or.inr rfl)]
    change [param params 0 % 2] = [param params 0] ↔ _
    rw [List.cons_eq_cons, and_iff_left rfl]
    omega

theorem outcome_tariffSelection (h : ∀ w ∈ params, w < 65536) (hlen : 7 ≤ params.length) :
    Outcome 1071 params d (tariffSelection d params) := by
  have hkept : ¬ Altered 1071 params d := by simp [Altered]
  rw [tariffSelection, if_neg (by omega)]
  apply outcome_if (fun _ => outcome_refused (by decide) hkept)
  intro _
  have htake : params.take 1 = [param params 0] := take_params (by omega)
  refine outcome_block 802 [param params 0] (by decide) rfl (by simp [size]) ?_ ?_
  · rw [← htake]
    exact take_lt h 1
  · exact iff_of_true (htake ▸ List.take_prefix 1 params) hkept

theorem join_bytes (hi : Nat) {lo : Nat} (h : lo < 256) : (hi <<< 8) ||| lo = hi * 256 + lo := by
  rw [← Nat.shiftLeft_add_eq_or_of_lt (show lo < 2 ^ 8 from h), Nat.shiftLeft_eq]

theorem u32_words {hi lo : Nat} (hhi : hi < 65536) (hlo : lo < 65536) :
    u32 ((hi <<< 16) ||| lo) = [hi, lo] := by
  have hjoin : (hi <<< 16) ||| lo = hi * 65536 + lo := by
    rw [← Nat.shiftLeft_add_eq_or_of_lt (show lo < 2 ^ 16 from hlo), Nat.shiftLeft_eq]
  have hmask : (hi * 65536 + lo) &&& 0xFFFFFFFF = hi * 65536 + lo := by
    refine (Nat.and_two_pow_sub_one_eq_mod _ 32).trans ?_
    exact Nat.mod_eq_of_lt (by omega)
  have hhigh : (hi * 65536 + lo) >>> 16 = hi := by
    rw [Nat.shiftRight_eq_div_pow]
    omega
  have hlow : (hi * 65536 + lo) &&& 0xFFFF = lo := by
    refine (Nat.and_two_pow_sub_one_eq_mod _ 16).trans ?_
    omega
  rw [u32, hjoin, hmask, hhigh, hlow]

theorem systemParameters_eq (d : S111) (h : ∀ w ∈ params, w < 65536) (hlen : 7 ≤ params.length)
    (hwiring : param params 0 ≤ 5) : systemParameters d params =
      ({ d.set 500 (params.take 7) with
          voltage := if param params 2 > 0 then (param params 2 : ℚ) else d.voltage
          freq := if param params 1 = 50 ∨ param params 1 = 60 then (param params 1 : ℚ)
            else d.freq }, 0) := by
  have htake : params.take 7 = [param params 0, param params 1, param params 2, param params 3,
      param params 4, param params 5, param params 6] := take_params hlen
  have hsets : (((((d.set 500 [param params 0]).set 501 [param params 1]).set 502
      [param params 2]).set 503 [param params 3, param params 4]).set 505
      [param params 5, param params 6]) = d.set 500 (params.take 7) := by
    rw [htake]
    rfl
  rw [systemParameters, if_neg (by omega), if_neg (by omega)]
  rw [u32_words (param_lt h 3) (param_lt h 4), u32_words (param_lt h 5) (param_lt h 6)]
  dsimp only
  rw [hsets]
  split <;> split <;> rfl

theorem altered_systemParameters : Altered 1001 params d ↔ param params 0 ≤ 5 ∧
    (param params 2 = 0 ∧ d.voltage ≠ 0 ∨
      param params 1 ≠ 50 ∧ param params 1 ≠ 60 ∧ d.freq ≠ param params 1) := by
  simp [Altered]

theorem voltage_applied_iff (n : Nat) (voltage : ℚ) :
    (if n > 0 then (n : ℚ) else voltage) = n ↔ ¬ (n = 0 ∧ voltage ≠ 0) := by
  by_cases hn : n = 0
  · subst hn
    simp
  · rw [if_pos (Nat.pos_of_ne_zero hn)]
    exact iff_of_true rfl (fun h => hn h.1)

theorem freq_applied_iff (n : Nat) (freq : ℚ) :
    (if n = 50 ∨ n = 60 then (n : ℚ) else freq) = n ↔ ¬ (n ≠ 50 ∧ n ≠ 60 ∧ freq ≠ n) := by
  by_cases hn : n = 50 ∨ n = 60
  · rw [if_pos hn]
    refine iff_of_true rfl ?_
    rintro ⟨h50, h60, -⟩
    exact hn.elim h50 h60
  · rw [if_neg hn]
    rw [not_or] at hn
    exact ⟨fun h hne => hne.2.2 h, fun h => not_not.1 (fun hne => h ⟨hn.1, hn.2, hne⟩)⟩

theorem outcome_systemParameters (h : ∀ w ∈ params, w < 65536) (hlen : 7 ≤ params.length) :
    Outcome 1001 params d (systemParameters d params) := by
  by_cases hwiring : param params 0 ≤ 5
  · have hread : (d.set 500 (params.take 7)).read 500 7 = params.take 7 := by
      have htake : (params.take 7).length = 7 := List.length_take_of_le hlen
      have hfit : 500 + (params.take 7).length ≤ size := by
        rw [htake]
        decide
      have hset := read_set (d := d) hfit (take_lt h 7)
      rwa [htake] at hset
    rw [systemParameters_eq d h hlen hwiring]
    refine Or.inl ⟨rfl, ?_, rfl⟩
    rw [altered_systemParameters, and_iff_right hwiring, not_or, ← voltage_applied_iff,
      ← freq_applied_iff]
    constructor
    · exact fun happlied => ⟨happlied.voltage, happlied.freq⟩
    · rintro ⟨hvoltage, hfreq⟩
      refine ⟨?_, hvoltage, hfreq, rfl, rfl, rfl, rfl⟩
      have hprefix : params.take 7 <+: params := List.take_prefix 7 params
      rw [← hread] at hprefix
      exact hprefix
  · rw [systemParameters, if_neg (by omega), if_pos (by omega)]
    exact outcome_refused (by decide) (fun halt => hwiring (altered_systemParameters.1 halt).1)

theorem altered_deviceTime : Altered 1200 params d ↔
    (maskedDate params).isSome = true ∧ OutOfRange params := by
  simp [Altered]

theorem dtWords_masked {t : DateTime} (ht : maskedDate params = some t) : dtWords t = [param params 0,
    max 1 (param params 1 % 256) * 256 + max 1 (param params 2 % 256),
    param params 3 % 256 * 256 + param params 4 % 256, min 59 (param params 5 % 256)] := by
  have hbyte : ∀ i, param params i &&& 0xFF = param params i % 256 := fun i =>
    Nat.and_two_pow_sub_one_eq_mod _ 8
  simp only [maskedDate, hbyte] at ht
  rw [datetime] at ht
  split at ht
  · obtain rfl := Option.some.inj ht
    have hday : max 1 (param params 2 % 256) < 256 := by omega
    have hminute : param params 4 % 256 < 256 := by omega
    rw [dtWords]
    dsimp only
    rw [join_bytes _ hday, join_bytes _ hminute]
  · cases ht

theorem outcome_deviceTime (h : ∀ w ∈ params, w < 65536) (hlen : 7 ≤ params.length) :
    Outcome 1200 params d (deviceTime d params) := by
  rw [deviceTime, if_neg (by omega), ← maskedDate]
  cases ht : maskedDate params with
  | none =>
    refine outcome_refused (by decide) (fun halt => ?_)
    have hsome := (altered_deviceTime.1 halt).1
    rw [ht] at hsome
    cases hsome
  | some t =>
    have hwords := dtWords_masked ht
    have hyear := param_lt h 0
    dsimp only
    rw [hwords]
    refine outcome_block 75 _ (by decide) rfl (by simp [size]) ?_ ?_
    · simp only [List.forall_mem_cons]
      exact ⟨hyear, by omega, by omega, by omega, List.forall_mem_nil _⟩
    · rw [altered_deviceTime, ht, Option.isSome_some, and_iff_right rfl, OutOfRange]
      rw [prefix_iff (by simp [shown]; omega)]
      simp [shown, List.range_succ]
      omega

theorem outcome_communication (h : ∀ w ∈ params, w < 65536) (hlen : 7 ≤ params.length) :
    Outcome 1210 params d (communication d params) := by
  have hkept : ¬ Altered 1210 params d := by simp [Altered]
  rw [communication, if_neg (by omega)]
  apply outcome_if (fun _ => outcome_refused (by decide) hkept)
  intro _
  apply outcome_if (fun _ => outcome_refused (by decide) hkept)
  intro _
  apply outcome_if (fun _ => outcome_refused (by decide) hkept)
  intro _
  apply outcome_if (fun _ => outcome_refused (by decide) hkept)
  intro hstop
  refine Or.inl ⟨rfl, iff_of_true ⟨?_, rfl, rfl, rfl, rfl, rfl, rfl⟩ hkept, rfl⟩
  have hread : (d.set 80 [param params 0, param params 1, param params 2, param params 3 - 1]).read 80 4 =
      [param params 0, param params 1, param params 2, param params 3 - 1] := by
    refine read_set (by simp [size]) ?_
    have h0 := param_lt h 0
    have h1 := param_lt h 1
    have h2 := param_lt h 2
    have h3 := param_lt h 3
    simp only [List.forall_mem_cons]
    exact ⟨h0, h1, h2, by omega, List.forall_mem_nil _⟩
  have hback : param params 3 - 1 + 1 = param params 3 := by omega
  have hshown : shown 1210 [param params 0, param params 1, param params 2, param params 3 - 1] =
      params.take 4 := by
    rw [take_params (by omega : 4 ≤ params.length)]
    simp [shown, List.range_succ, hback]
  have hprefix : params.take 4 <+: params := List.take_prefix 4 params
  rw [← hshown, ← hread] at hprefix
  exact hprefix

theorem altered_reset : Altered 1301 params d ↔ param params 0 = 3 ∧ d.wh ≠ fun _ => 0 := by
  simp [Altered]

theorem outcome_resetEnergy (h : param params 0 = 4 ∨ param params 0 = 5) :
    Outcome 1301 params d (d.resetEnergy, 0) := by
  have hkept : ¬ Altered 1301 params d := by
    rw [altered_reset]
    omega
  refine Or.inl ⟨rfl, iff_of_true ⟨List.nil_prefix, rfl, rfl, ?_, ?_, ?_, rfl⟩ hkept, rfl⟩
  · exact (if_pos ⟨rfl, Or.inr h⟩).symm
  · exact (if_pos ⟨rfl, h⟩).symm
  · exact (if_pos ⟨rfl, h⟩).symm

theorem applied_live_iff (h : ¬ (param params 0 = 4 ∨ param params 0 = 5)) :
    Applied 1301 params d d ↔ ¬ Altered 1301 params d := by
  have henergy : ¬ ResetsEnergy 1301 params := fun hr => h hr.2
  rw [altered_reset]
  constructor
  · rintro happlied ⟨h3, hne⟩
    exact hne (happlied.wh.trans (if_pos ⟨rfl, Or.inl h3⟩))
  · intro hkept
    refine ⟨List.nil_prefix, rfl, rfl, ?_, (if_neg henergy).symm, (if_neg henergy).symm, rfl⟩
    by_cases h3 : param params 0 = 3
    · rw [if_pos ⟨rfl, Or.inl h3⟩]
      exact not_not.1 (fun hne => hkept ⟨h3, hne⟩)
    · refine (if_neg ?_).symm
      rintro ⟨-, hr⟩
      exact hr.elim h3 h

theorem outcome_reset (hlen : 7 ≤ params.length) : Outcome 1301 params d (reset d params) := by
  rw [reset, if_neg (by omega)]
  apply outcome_if
  · exact fun hlive => Or.inl ⟨rfl, applied_live_iff (by omega), rfl⟩
  intro hlive
  apply outcome_if
  · exact fun h4 => outcome_resetEnergy (Or.inl h4)
  intro _
  apply outcome_if
  · exact fun h5 => outcome_resetEnergy (Or.inr h5)
  · refine fun _ => outcome_refused (by decide) ?_
    rw [altered_reset]
    exact fun h => hlive (Or.inr (Or.inr h.1))

end Outcomes

section Checked

theorem set_cons (d : S111) (addr w : Nat) (ws : List Nat) :
    (d.set addr [w]).set (addr + 1) ws = d.set addr (w :: ws) := rfl

theorem setChecked_eq (valid : Nat → Bool) (d : S111) (addr : Nat) (vs : List Nat) :
    setChecked valid d addr vs =
      (d.set addr (vs.takeWhile valid), if vs.all valid then 0 else 81) := by
  induction vs generalizing d addr with
  | nil => rfl
  | cons v vs ih =>
      rw [setChecked, List.takeWhile_cons, List.all_cons]
      cases hv : valid v with
      | true =>
          rw [if_pos rfl, if_pos rfl, ih, set_cons, Bool.true_and]
      | false => rfl

/-- Checked parameters are an instruction as a whole unless a bad one is met
halfway. -/
theorem setChecked_atomic_iff {valid : Nat → Bool} {vs : List Nat} (hcode : Plain code)
    (hplace : place code = (addr, vs.length)) (hshown : shown code vs <+: params)
    (hkept : ¬ Altered code params d) (hlt : ∀ v ∈ vs, v < 65536) (hfit : addr + vs.length ≤ size)
    (hconfig : InConfig addr vs.length) :
    Atomic code params d (setChecked valid d addr vs).1 (setChecked valid d addr vs).2 ↔
      ¬ Halfway valid d addr vs := by
  have hgood := (List.takeWhile_sublist (l := vs) valid).length_le
  rw [setChecked_eq, Halfway]
  cases hall : vs.all valid with
  | true =>
    have hwhole : vs.takeWhile valid = vs := List.takeWhile_eq_self_iff.2 (List.all_eq_true.1 hall)
    have houtcome : Outcome code params d (d.set addr vs, 0) :=
      outcome_block addr vs hcode hplace hfit hlt (iff_of_true hshown hkept)
    rw [hwhole]
    exact iff_of_true (houtcome.atomic_iff.2 hkept) (fun h => absurd h.1 (by decide))
  | false =>
    have huntouched : Untouched d (d.set addr (vs.takeWhile valid)) ↔
        d.read addr (vs.takeWhile valid).length = vs.takeWhile valid := by
      refine set_untouched_iff (by omega) ?_ (hconfig.takeWhile valid)
      exact fun w hw => hlt w ((List.takeWhile_sublist valid).subset hw)
    rw [Atomic, huntouched]
    simp

end Checked

section Runs

theorem execute_outcome (h : ∀ w ∈ params, w < 65536) (hlen : 7 ≤ params.length)
    (h1010 : code ≠ 1010) (h1011 : code ≠ 1011) :
    Outcome code params d (execute d code params) := by
  apply outcome_if
  · rintro rfl
    exact outcome_systemParameters h hlen
  intro h1001
  apply outcome_if (fun hcode => absurd hcode h1010)
  intro _
  apply outcome_if (fun hcode => absurd hcode h1011)
  intro _
  apply outcome_if
  · rintro rfl
    exact outcome_zeroDrift h hlen
  intro _
  apply outcome_if
  · rintro rfl
    exact outcome_demandParameters h hlen
  intro h1060
  apply outcome_if
  · rintro rfl
    exact outcome_tariffMode hlen
  intro h1070
  apply outcome_if
  · rintro rfl
    exact outcome_tariffSelection h hlen
  intro _
  apply outcome_if
  · rintro rfl
    exact outcome_deviceTime h hlen
  intro h1200
  apply outcome_if
  · rintro rfl
    exact outcome_communication h hlen
  intro _
  apply outcome_if
  · rintro rfl
    exact outcome_reset hlen
  · refine fun h1301 => outcome_refused (by decide) ?_
    simp [Altered, h1001, h1060, h1070, h1200, h1301]

theorem execute_currentDirection (hlen : 3 ≤ params.length) :
    execute d 1010 params = setChecked (fun v => v = 0 || v = 1) d 550 (params.take 3) :=
  if_neg (Nat.not_lt_of_le hlen)

theorem execute_currentChannel (hlen : 3 ≤ params.length) :
    execute d 1011 params = setChecked (fun v => v ≤ 2) d 553 (params.take 3) :=
  if_neg (Nat.not_lt_of_le hlen)

theorem execute_atomic_iff (d : S111) (code : Nat) (h : ∀ w ∈ params, w < 65536) (hlen : 7 ≤ params.length) :
    Atomic code params d (execute d code params).1 (execute d code params).2 ↔
      ¬ Torn code params d ∧ ¬ Altered code params d := by
  have hthree : (params.take 3).length = 3 := by
    rw [List.length_take]
    omega
  have hprefix : params.take 3 <+: params := List.take_prefix 3 params
  by_cases h1010 : code = 1010
  · subst h1010
    have hkept : ¬ Altered 1010 params d := by simp [Altered]
    have hcode : ¬ (1010 = 1011) := by decide
    rw [execute_currentDirection (by omega), Torn, and_iff_left hkept]
    simp only [true_and, hcode, false_and, or_false]
    exact setChecked_atomic_iff (by decide) (by rw [hthree]; rfl) hprefix hkept (take_lt h 3)
      (by rw [hthree]; decide) (inConfig_of_le hthree.le (by decide))
  · by_cases h1011 : code = 1011
    · subst h1011
      have hkept : ¬ Altered 1011 params d := by simp [Altered]
      have hcode : ¬ (1011 = 1010) := by decide
      rw [execute_currentChannel (by omega), Torn, and_iff_left hkept]
      simp only [true_and, hcode, false_and, false_or]
      exact setChecked_atomic_iff (by decide) (by rw [hthree]; rfl) hprefix hkept (take_lt h 3)
        (by rw [hthree]; decide) (inConfig_of_le hthree.le (by decide))
    · have hwhole : ¬ Torn code params d := by
        rintro (⟨hcode, -⟩ | ⟨hcode, -⟩)
        · exact h1010 hcode
        · exact h1011 hcode
      rw [(execute_outcome h hlen h1010 h1011).atomic_iff, and_iff_right hwhole]

theorem execute_result (d : S111) (code : Nat) (h : ∀ w ∈ params, w < 65536) (hlen : 7 ≤ params.length) :
    (execute d code params).2 ∈ [0, 80, 81, 82] := by
  have hchecked : ∀ valid addr vs, (setChecked valid d addr vs).2 ∈ [0, 80, 81, 82] := by
    intro valid addr vs
    rw [setChecked_eq]
    dsimp only
    split <;> decide
  by_cases h1010 : code = 1010
  · rw [h1010, execute_currentDirection (by omega)]
    exact hchecked _ _ _
  · by_cases h1011 : code = 1011
    · rw [h1011, execute_currentChannel (by omega)]
      exact hchecked _ _ _
    · rcases execute_outcome (d := d) h hlen h1010 h1011 with ⟨hzero, -⟩ | ⟨hcode, -⟩
      · rw [hzero]
        decide
      · exact List.mem_cons_of_mem 0 hcode

theorem inConfig_if {c : Prop} [Decidable c] {b b' : Nat × Nat} (hb : InConfig b.1 b.2)
    (hb' : InConfig b'.1 b'.2) : InConfig (if c then b else b').1 (if c then b else b').2 := by
  by_cases h : c
  · rw [if_pos h]
    exact hb
  · rw [if_neg h]
    exact hb'

theorem place_config (code : Nat) : InConfig (place code).1 (place code).2 := by
  apply inConfig_if (inConfig_of_le (Nat.le_refl 7) (by decide))
  apply inConfig_if (inConfig_of_le (Nat.le_refl 3) (by decide))
  apply inConfig_if (inConfig_of_le (Nat.le_refl 3) (by decide))
  apply inConfig_if (inConfig_of_le (Nat.le_refl 2) (by decide))
  apply inConfig_if (inConfig_of_le (Nat.le_refl 2) (by decide))
  apply inConfig_if (inConfig_of_le (Nat.le_refl 1) (by decide))
  apply inConfig_if (inConfig_of_le (Nat.le_refl 1) (by decide))
  apply inConfig_if (inConfig_of_le (Nat.le_refl 4) (by decide))
  apply inConfig_if (inConfig_of_le (Nat.le_refl 4) (by decide))
  exact fun a _ hlt => absurd hlt (Nat.not_lt_zero a)

theorem Atomic.congr {d₀ d₁ d₂ d₃ : S111} {result : Nat} (hbefore : Untouched d₀ d₁)
    (hafter : Untouched d₂ d₃) (h : Atomic code params d₁ d₂ result) : Atomic code params d₀ d₃ result := by
  refine ⟨fun hne => (hbefore.trans (h.1 hne)).trans hafter, fun hzero => ?_⟩
  have happlied := h.2 hzero
  refine ⟨?_, ?_, ?_, ?_, ?_, ?_, ?_⟩
  · rw [hafter.read_eq (place_config code)]
    exact happlied.registers
  · rw [hafter.voltage, happlied.voltage, hbefore.voltage]
  · rw [hafter.freq, happlied.freq, hbefore.freq]
  · rw [hafter.wh, happlied.wh, hbefore.wh]
  · rw [hafter.varh, happlied.varh, hbefore.varh]
  · rw [hafter.vah, happlied.vah, hbefore.vah]
  · rw [hafter.address, happlied.address, hbefore.address]

theorem Halfway.congr {valid : Nat → Bool} {vs : List Nat} (hd : Untouched d d')
    (hconfig : InConfig addr vs.length) (h : Halfway valid d addr vs) : Halfway valid d' addr vs := by
  refine ⟨h.1, ?_⟩
  rw [hd.read_eq (hconfig.takeWhile valid)]
  exact h.2

theorem Torn.congr (hd : Untouched d d') (h : Torn code params d) : Torn code params d' := by
  have hthree := List.length_take_le 3 params
  rcases h with ⟨hcode, hhalf⟩ | ⟨hcode, hhalf⟩
  · exact Or.inl ⟨hcode, Halfway.congr hd (inConfig_of_le hthree (by decide)) hhalf⟩
  · exact Or.inr ⟨hcode, Halfway.congr hd (inConfig_of_le hthree (by decide)) hhalf⟩

theorem Altered.congr (hd : Untouched d d') (h : Altered code params d) : Altered code params d' := by
  rw [Altered, hd.voltage, hd.freq, hd.wh]
  exact h

theorem params_length (d : S111) : d.params.length = 123 := by
  rw [S111.params, List.length_map, List.length_tail, List.length_ofFn]

theorem params_lt (d : S111) : ∀ w ∈ d.params, w < 65536 := by
  intro w hw
  obtain ⟨v, -, rfl⟩ := List.mem_map.1 hw
  exact v.toNat_lt

theorem processInstr_eq (d : S111) : d.processInstr =
    (execute (d.set 424 [d.code]) d.code d.params).1.set 425
      [(execute (d.set 424 [d.code]) d.code d.params).2] := rfl

theorem untouched_scratch (d : S111) (start : Nat) (words : List Nat) :
    Untouched d (d.scratch start words) := ⟨fun _ _ => rfl, rfl, rfl, rfl, rfl, rfl, rfl⟩

theorem fc16_instructs (h : Instructs start words.length) :
    (d.fc16 start words).2 = (d.scratch start words).processInstr.set start words := by
  rw [fc16_writable h.1, S111.instructed, if_pos h.2]

theorem fc16_result (h : Instructs start words.length) : (d.fc16 start words).2.result =
    (execute ((d.scratch start words).set 424 [(d.scratch start words).code])
      (d.scratch start words).code (d.scratch start words).params).2 := by
  have hparams := params_length (d.scratch start words)
  have hcode := execute_result ((d.scratch start words).set 424 [(d.scratch start words).code])
    (d.scratch start words).code (params_lt (d.scratch start words)) (by omega)
  rw [fc16_instructs h, processInstr_eq]
  generalize execute _ _ _ = r at hcode ⊢
  have hlt : r.2 < 65536 := by
    simp only [List.mem_cons, List.not_mem_nil, or_false] at hcode
    omega
  obtain ⟨⟨-, hend⟩, -⟩ := h
  have hbehind : ((r.1.set 425 [r.2]).set start words).rb ⟨425, by decide⟩ =
      (r.1.set 425 [r.2]).rb ⟨425, by decide⟩ := by
    refine store_of_ne _ (Or.inr ?_)
    rw [List.length_map]
    exact Nat.le_succ_of_le hend
  rw [S111.result, hbehind]
  exact UInt16.toNat_ofNat_of_lt hlt

theorem fc16_atomic_iff (h : Instructs start words.length) :
    Atomic (d.scratch start words).code (d.scratch start words).params d (d.fc16 start words).2
        (d.fc16 start words).2.result ↔
      ¬ Torn (d.scratch start words).code (d.scratch start words).params d ∧
        ¬ Altered (d.scratch start words).code (d.scratch start words).params d := by
  have hparams := params_length (d.scratch start words)
  have hbefore : Untouched d ((d.scratch start words).set 424 [(d.scratch start words).code]) :=
    (untouched_scratch d start words).trans (untouched_set (by decide) (by simp))
  have hiff := execute_atomic_iff ((d.scratch start words).set 424 [(d.scratch start words).code])
    (d.scratch start words).code (params_lt (d.scratch start words)) (by omega)
  rw [fc16_result h, fc16_instructs h, processInstr_eq]
  generalize execute _ _ _ = r at hiff ⊢
  obtain ⟨⟨hlow, hend⟩, -⟩ := h
  have hafter : Untouched r.1 ((r.1.set 425 [r.2]).set start words) :=
    (untouched_set (by decide) (by simp)).trans (untouched_set (by omega) (by omega))
  constructor
  · intro hatomic
    obtain ⟨hwhole, hkept⟩ := hiff.1 (hatomic.congr hbefore.symm hafter.symm)
    exact ⟨fun htorn => hwhole (htorn.congr hbefore), fun halt => hkept (halt.congr hbefore)⟩
  · rintro ⟨hwhole, hkept⟩
    have hatomic := hiff.2 ⟨fun htorn => hwhole (htorn.congr hbefore.symm),
      fun halt => hkept (halt.congr hbefore.symm)⟩
    exact hatomic.congr hbefore hafter

end Runs

section Address

def ValidCommunication (params : List Nat) : Prop :=
  (1 ≤ param params 0 ∧ param params 0 ≤ 247) ∧ param params 1 ≤ 6 ∧ param params 2 ≤ 2 ∧
    (param params 3 = 1 ∨ param params 3 = 2)

instance (params : List Nat) : Decidable (ValidCommunication params) :=
  inferInstanceAs (Decidable (_ ∧ _))

def S111.newAddress (d : S111) (start : Nat) (words : List Nat) : Option Int :=
  if Instructs start words.length ∧ (d.scratch start words).code = 1210 ∧
      ValidCommunication (d.scratch start words).params then
    some (param (d.scratch start words).params 0)
  else none

theorem communication_address (hlen : 4 ≤ params.length) :
    (communication d params).1.address =
      if ValidCommunication params then (param params 0 : Int) else d.address := by
  rw [communication, if_neg (by omega)]
  by_cases h : ValidCommunication params
  · obtain ⟨h0, h1, h2, h3⟩ := h
    rw [if_neg (not_not.2 h0), if_neg (by omega), if_neg (by omega), if_neg (not_not.2 h3)]
    exact (if_pos ⟨h0, h1, h2, h3⟩).symm
  · rw [if_neg h]
    split
    · rfl
    · rename_i h0
      split
      · rfl
      · rename_i h1
        split
        · rfl
        · rename_i h2
          split
          · rfl
          · rename_i h3
            exact absurd ⟨not_not.1 h0, by omega, by omega, not_not.1 h3⟩ h

theorem execute_address (d : S111) (code : Nat) (h : ∀ w ∈ params, w < 65536) (hlen : 7 ≤ params.length) :
    (execute d code params).1.address =
      if code = 1210 ∧ ValidCommunication params then (param params 0 : Int) else d.address := by
  by_cases h1210 : code = 1210
  · subst h1210
    simp only [true_and]
    exact communication_address (by omega)
  · have hother : ¬ (code = 1210 ∧ ValidCommunication params) := fun hcode => h1210 hcode.1
    rw [if_neg hother]
    by_cases h1010 : code = 1010
    · rw [h1010, execute_currentDirection (by omega), setChecked_eq]
      rfl
    · by_cases h1011 : code = 1011
      · rw [h1011, execute_currentChannel (by omega), setChecked_eq]
        rfl
      · rcases execute_outcome (d := d) h hlen h1010 h1011 with ⟨-, -, haddress⟩ | ⟨-, huntouched, -⟩
        · exact haddress.trans (if_neg h1210)
        · exact huntouched.address

theorem fc16_address (d : S111) (start : Nat) (words : List Nat) :
    (d.fc16 start words).2.address = (d.newAddress start words).getD d.address := by
  rw [S111.newAddress]
  by_cases h : Instructs start words.length
  · have hparams := params_length (d.scratch start words)
    have hexec := execute_address ((d.scratch start words).set 424 [(d.scratch start words).code])
      (d.scratch start words).code (params_lt (d.scratch start words)) (by omega)
    rw [fc16_instructs h, processInstr_eq]
    refine hexec.trans ?_
    simp only [h, true_and]
    split <;> rfl
  · rw [if_neg (fun hall => h hall.1)]
    by_cases hw : Writable start words.length
    · rw [fc16_writable hw, S111.instructed, if_neg (fun hcovers => h ⟨hw, hcovers⟩)]
      rfl
    · rw [Writable] at hw
      rw [S111.fc16, if_pos (by omega)]
      rfl

end Address

end WirelessGateway.S111Slave
