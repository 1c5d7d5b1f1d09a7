import Mathlib.Data.Rat.Defs
import WirelessGateway.Lib.Registers
import WirelessGateway.SlaveFrame

namespace WirelessGateway.S111Slave

open Lib.Registers SlaveFrame

def size : Nat := 9000

/-- The virtual power meter, as far as its frames reach. Its floats are only
ever set to whole numbers here. -/
structure S111 where
  address : Int
  rb : Fin size → UInt16
  instr : Fin 124 → UInt16
  voltage : ℚ
  freq : ℚ
  wh : Fin 3 → ℚ
  varh : Fin 3 → ℚ
  vah : Fin 3 → ℚ

def S111.set (d : S111) (addr : Nat) (words : List Nat) : S111 :=
  { d with rb := store d.rb addr (words.map UInt16.ofNat) }

def u32 (v : Nat) : List Nat := [(v &&& 0xFFFFFFFF) >>> 16, (v &&& 0xFFFFFFFF) &&& 0xFFFF]

section Calendar

structure DateTime where
  year : Nat
  month : Nat
  day : Nat
  hour : Nat
  minute : Nat
  second : Nat

def isLeap (year : Nat) : Bool := year % 4 = 0 && (year % 100 ≠ 0 || year % 400 = 0)

def daysInMonth (year month : Nat) : Nat :=
  if month = 2 then (if isLeap year then 29 else 28)
  else if month = 4 ∨ month = 6 ∨ month = 9 ∨ month = 11 then 30
  else 31

/-- datetime.datetime, which raises an exception outside the calendar. -/
def datetime (year month day hour minute second : Nat) : Option DateTime :=
  if 1 ≤ year ∧ year ≤ 9999 ∧ 1 ≤ month ∧ month ≤ 12 ∧ 1 ≤ day ∧ day ≤ daysInMonth year month ∧
      hour < 24 ∧ minute < 60 ∧ second < 60 then
    some ⟨year, month, day, hour, minute, second⟩
  else none

def dtWords (t : DateTime) : List Nat :=
  [t.year, (t.month <<< 8) ||| t.day, (t.hour <<< 8) ||| t.minute, t.second]

end Calendar

section Instructions

def param (params : List Nat) (i : Nat) : Nat := params.getD i 0

/-- Parameters that are checked and stored one after the other. -/
def setChecked (valid : Nat → Bool) (d : S111) (addr : Nat) : List Nat → S111 × Nat
  | [] => (d, 0)
  | v :: vs => if valid v then setChecked valid (d.set addr [v]) (addr + 1) vs else (d, 81)

def systemParameters (d : S111) (params : List Nat) : S111 × Nat :=
  if params.length < 7 then (d, 82)
  else if param params 0 > 5 then (d, 81)
  else
    let d := ((d.set 500 [param params 0]).set 501 [param params 1]).set 502 [param params 2]
    let d := d.set 503 (u32 ((param params 3 <<< 16) ||| param params 4))
    let d := d.set 505 (u32 ((param params 5 <<< 16) ||| param params 6))
    let d := if param params 2 > 0 then { d with voltage := param params 2 } else d
    let d := if param params 1 = 50 ∨ param params 1 = 60 then { d with freq := param params 1 } else d
    (d, 0)

def currentDirection (d : S111) (params : List Nat) : S111 × Nat :=
  if params.length < 3 then (d, 82)
  else setChecked (fun v => v = 0 || v = 1) d 550 (params.take 3)

def currentChannel (d : S111) (params : List Nat) : S111 × Nat :=
  if params.length < 3 then (d, 82) else setChecked (fun v => v ≤ 2) d 553 (params.take 3)

def zeroDrift (d : S111) (params : List Nat) : S111 × Nat :=
  if params.length < 2 then (d, 82)
  else if param params 0 > 1000 ∨ param params 1 > 1000 then (d, 81)
  else ((d.set 600 [param params 0]).set 601 [param params 1], 0)

def demandParameters (d : S111) (params : List Nat) : S111 × Nat :=
  if params.length < 2 then (d, 82)
  else ((d.set 3000 [param params 0 &&& 1]).set 3001 [param params 1], 0)

def tariffMode (d : S111) (params : List Nat) : S111 × Nat :=
  if params.length < 1 then (d, 82) else (d.set 801 [param params 0 &&& 1], 0)

def tariffSelection (d : S111) (params : List Nat) : S111 × Nat :=
  if params.length < 1 then (d, 82)
  else if param params 0 > 5 then (d, 81)
  else (d.set 802 [param params 0], 0)

def deviceTime (d : S111) (params : List Nat) : S111 × Nat :=
  if params.length < 6 then (d, 82)
  else
    match datetime (param params 0) (max 1 (param params 1 &&& 0xFF))
      (max 1 (param params 2 &&& 0xFF)) (param params 3 &&& 0xFF) (param params 4 &&& 0xFF)
      (min 59 (param params 5 &&& 0xFF)) with
    | some dt => (d.set 75 (dtWords dt), 0)
    | none => (d, 81)

def communication (d : S111) (params : List Nat) : S111 × Nat :=
  if params.length < 4 then (d, 82)
  else if ¬ (1 ≤ param params 0 ∧ param params 0 ≤ 247) then (d, 81)
  else if param params 1 > 6 then (d, 81)
  else if param params 2 > 2 then (d, 81)
  else if ¬ (param params 3 = 1 ∨ param params 3 = 2) then (d, 81)
  else
    let d := (d.set 80 [param params 0]).set 81 [param params 1]
    let d := (d.set 82 [param params 2]).set 83 [param params 3 - 1]
    ({ d with address := param params 0 }, 0)

def S111.resetEnergy (d : S111) : S111 :=
  { d with wh := fun _ => 0, varh := fun _ => 0, vah := fun _ => 0 }

def reset (d : S111) (params : List Nat) : S111 × Nat :=
  if params.length < 1 then (d, 82)
  else if param params 0 = 1 ∨ param params 0 = 2 ∨ param params 0 = 3 then (d, 0)
  else if param params 0 = 4 then (d.resetEnergy, 0)
  else if param params 0 = 5 then (d.resetEnergy, 0)
  else (d, 81)

def execute (d : S111) (code : Nat) (params : List Nat) : S111 × Nat :=
  if code = 1001 then systemParameters d params
  else if code = 1010 then currentDirection d params
  else if code = 1011 then currentChannel d params
  else if code = 1020 then zeroDrift d params
  else if code = 1060 then demandParameters d params
  else if code = 1070 then tariffMode d params
  else if code = 1071 then tariffSelection d params
  else if code = 1200 then deviceTime d params
  else if code = 1210 then communication d params
  else if code = 1301 then reset d params
  else (d, 80)

def S111.processInstr (d : S111) : S111 :=
  let code := (d.instr 0).toNat
  let params := (List.ofFn d.instr).tail.map UInt16.toNat
  let (d, result) := execute (d.set 424 [code]) code params
  d.set 425 [result]

end Instructions

def S111.fc3 (d : S111) (start count : Nat) : Except UInt8 (List Int) :=
  if count < 1 ∨ count > 125 then .error 0x03
  else if start + count > size then .error 0x02
  else .ok ((load d.rb 0 start count).map (fun w => (w.toNat : Int)))

/-- The words of a write go to the scratch area of the instruction first. -/
def S111.scratch (d : S111) (start : Nat) (words : List Nat) : S111 :=
  { d with instr := store d.instr (start - 300) (words.map UInt16.ofNat) }

/-- A write that covers register 300 starts the instruction. -/
def S111.instructed (d : S111) (start : Nat) (words : List Nat) : S111 :=
  if start ≤ 300 ∧ 300 < start + words.length then (d.scratch start words).processInstr
  else d.scratch start words

def S111.fc16 (d : S111) (start : Nat) (words : List Nat) : Option UInt8 × S111 :=
  if start < 300 ∨ start + words.length > 424 then (some 0x02, d)
  else (none, (d.instructed start words).set start words)

def slave : Slave S111 := ⟨S111.address, S111.fc3, S111.fc16, false⟩

def S111.handle (d : S111) (raw : Frame) : Except PyError (Option Frame) × S111 :=
  SlaveFrame.handle slave d raw

def Readable (_ : S111) (_ _ : Nat) : Prop := True

def Writable (start count : Nat) : Prop := 300 ≤ start ∧ start + count ≤ 424

instance (start count : Nat) : Decidable (Writable start count) :=
  inferInstanceAs (Decidable (300 ≤ start ∧ start + count ≤ 424))

/-- The registers and the scratch area hold the words, and are otherwise as
they were, or as the instruction left them that the write starts. -/
structure Stored (d : S111) (start : Nat) (words : List Nat) (d' : S111) : Prop where
  rb : Updated (fun a => ((d.instructed start words).rb a).toNat) (fun a => (d'.rb a).toNat) start
    words
  instr : Updated (fun a => (d.instr a).toNat) (fun a => (d'.instr a).toNat) (start - 300) words

structure Kept (d d' : S111) : Prop where
  instr : d'.instr = d.instr
  address : IsByte d.address → IsByte d'.address

variable {d : S111} {params words : List Nat} {start : Nat}

theorem Kept.refl (d : S111) : Kept d d := ⟨rfl, id⟩

theorem Kept.trans {d₁ d₂ d₃ : S111} (h : Kept d₁ d₂) (h' : Kept d₂ d₃) : Kept d₁ d₃ :=
  ⟨h'.instr.trans h.instr, fun hd => h'.address (h.address hd)⟩

theorem kept_set (d : S111) (addr : Nat) (words : List Nat) : Kept d (d.set addr words) := ⟨rfl, id⟩

theorem kept_if {c : Prop} [Decidable c] {a b : S111 × Nat} (ha : c → Kept d a.1)
    (hb : ¬ c → Kept d b.1) : Kept d (if c then a else b).1 := by
  by_cases h : c
  · rw [if_pos h]
    exact ha h
  · rw [if_neg h]
    exact hb h

theorem kept_unless {c : Prop} [Decidable c] {result : Nat} {b : S111 × Nat}
    (hb : ¬ c → Kept d b.1) : Kept d (if c then (d, result) else b).1 :=
  kept_if (fun _ => Kept.refl d) hb

theorem kept_setChecked (valid : Nat → Bool) (d : S111) (addr : Nat) (vs : List Nat) :
    Kept d (setChecked valid d addr vs).1 := by
  induction vs generalizing d addr with
  | nil => exact Kept.refl d
  | cons v vs ih =>
      rw [setChecked]
      apply kept_if
      · intro _
        exact (kept_set d addr [v]).trans (ih (d.set addr [v]) (addr + 1))
      · intro _
        exact Kept.refl d

theorem kept_systemParameters : Kept d (systemParameters d params).1 := by
  apply kept_unless
  intro _
  apply kept_unless
  intro _
  dsimp only
  split <;> split <;> exact ⟨rfl, id⟩

theorem kept_deviceTime : Kept d (deviceTime d params).1 := by
  apply kept_unless
  intro _
  split
  · exact kept_set d _ _
  · exact Kept.refl d

theorem kept_communication : Kept d (communication d params).1 := by
  apply kept_unless
  intro _
  apply kept_unless
  intro hadr
  obtain ⟨hlow, hhigh⟩ := not_not.1 hadr
  apply kept_unless
  intro _
  apply kept_unless
  intro _
  apply kept_unless
  intro _
  exact ⟨rfl, fun _ => ⟨Int.natCast_nonneg _,
    Int.ofNat_lt.2 (Nat.lt_of_le_of_lt hhigh (by decide))⟩⟩

theorem kept_reset : Kept d (reset d params).1 := by
  apply kept_unless
  intro _
  apply kept_unless
  intro _
  apply kept_if
  · exact fun _ => ⟨rfl, id⟩
  · intro _
    apply kept_if
    · exact fun _ => ⟨rfl, id⟩
    · exact fun _ => Kept.refl d

theorem kept_currentDirection : Kept d (currentDirection d params).1 := by
  apply kept_unless
  exact fun _ => kept_setChecked _ d 550 _

theorem kept_currentChannel : Kept d (currentChannel d params).1 := by
  apply kept_unless
  exact fun _ => kept_setChecked _ d 553 _

theorem kept_zeroDrift : Kept d (zeroDrift d params).1 := by
  apply kept_unless
  intro _
  apply kept_unless
  exact fun _ => (kept_set d 600 _).trans (kept_set _ 601 _)

theorem kept_demandParameters : Kept d (demandParameters d params).1 := by
  apply kept_unless
  exact fun _ => (kept_set d 3000 _).trans (kept_set _ 3001 _)

theorem kept_tariffMode : Kept d (tariffMode d params).1 := by
  apply kept_unless
  exact fun _ => kept_set d 801 _

theorem kept_tariffSelection : Kept d (tariffSelection d params).1 := by
  apply kept_unless
  intro _
  apply kept_unless
  exact fun _ => kept_set d 802 _

theorem kept_execute (d : S111) (code : Nat) (params : List Nat) :
    Kept d (execute d code params).1 := by
  apply kept_if (fun _ => kept_systemParameters)
  intro _
  apply kept_if (fun _ => kept_currentDirection)
  intro _
  apply kept_if (fun _ => kept_currentChannel)
  intro _
  apply kept_if (fun _ => kept_zeroDrift)
  intro _
  apply kept_if (fun _ => kept_demandParameters)
  intro _
  apply kept_if (fun _ => kept_tariffMode)
  intro _
  apply kept_if (fun _ => kept_tariffSelection)
  intro _
  apply kept_if (fun _ => kept_deviceTime)
  intro _
  apply kept_if (fun _ => kept_communication)
  intro _
  exact kept_if (fun _ => kept_reset) (fun _ => Kept.refl d)

theorem kept_processInstr (d : S111) : Kept d d.processInstr :=
  ((kept_set d _ _).trans (kept_execute _ _ _)).trans (kept_set _ 425 _)

theorem kept_instructed : Kept (d.scratch start words) (d.instructed start words) := by
  rw [S111.instructed]
  split
  · exact kept_processInstr _
  · exact Kept.refl _

theorem fc3_ok {count : Nat} {ws : List Int} (h : d.fc3 start count = .ok ws) :
    count ≤ 125 ∧ ws = (load d.rb 0 start count).map (fun w => (w.toNat : Int)) := by
  rw [S111.fc3] at h
  split at h
  · cases h
  · split at h
    · cases h
    · exact ⟨by omega, (Except.ok.inj h).symm⟩

theorem fc16_writable (h : Writable start words.length) :
    d.fc16 start words = (none, (d.instructed start words).set start words) := by
  obtain ⟨hlow, hhigh⟩ := h
  exact if_neg (by omega)

theorem words_toNat {words : List Nat} (h : ∀ w ∈ words, w < 65536) :
    (words.map UInt16.ofNat).map UInt16.toNat = words := by
  rw [List.map_map]
  refine (List.map_congr_left (fun w hw => ?_)).trans (List.map_id words)
  exact UInt16.toNat_ofNat_of_lt (h w hw)

theorem lawful : Lawful slave Readable Writable Stored where
  fc3_length d start count ws h := by
    obtain ⟨h125, rfl⟩ := fc3_ok h
    rw [List.length_map, load_length]
    exact h125
  fc3_words d start count := by
    refine iff_of_true trivial ?_
    intro ws h w hw
    obtain ⟨-, rfl⟩ := fc3_ok h
    obtain ⟨v, -, rfl⟩ := List.mem_map.1 hw
    exact ⟨Int.natCast_nonneg _, Int.ofNat_lt.2 v.toNat_lt⟩
  refused d start words h := by
    refine ⟨0x02, if_pos ?_⟩
    rw [Writable] at h
    omega
  accepted d start words h := congrArg Prod.fst (fc16_writable h)
  stored d start words h hlt := by
    have hfc16 : (slave.write d start words).2 = (d.instructed start words).set start words :=
      congrArg Prod.snd (fc16_writable h)
    rw [hfc16]
    constructor
    · have hrb := (store_updated (d.instructed start words).rb start
        (words.map UInt16.ofNat)).map UInt16.toNat
      rw [words_toNat hlt] at hrb
      exact hrb
    · have hinstr := (store_updated d.instr (start - 300) (words.map UInt16.ofNat)).map UInt16.toNat
      rw [words_toNat hlt] at hinstr
      have hkept : ((d.instructed start words).set start words).instr =
          (d.scratch start words).instr := kept_instructed.instr
      rw [hkept]
      exact hinstr
  address d start words h := by
    by_cases hw : Writable start words.length
    · have hfc16 : (slave.write d start words).2 = (d.instructed start words).set start words :=
        congrArg Prod.snd (fc16_writable hw)
      rw [hfc16]
      exact kept_instructed.address h
    · have hfc16 : slave.write d start words = (some 0x02, d) := by
        refine if_pos ?_
        rw [Writable] at hw
        omega
      rw [hfc16]
      exact h

end WirelessGateway.S111Slave
