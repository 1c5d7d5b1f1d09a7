import WirelessGateway.Lib.Registers
import WirelessGateway.SlaveFrame

namespace WirelessGateway.InovertSlave

open Lib.Registers SlaveFrame

def regSize : Nat := 820

/-- The virtual frequency converter, as far as its frames reach. The measuring
thread can leave any integer in a register. -/
structure Inovert where
  address : Int
  regs : Fin regSize → Int
  state : Int

def Inovert.fc3 (d : Inovert) (start count : Nat) : Except UInt8 (List Int) :=
  if count < 1 ∨ count > 125 then .error 0x03
  else if start + count > regSize then .error 0x02
  else .ok (load d.regs 0 start count)

def changedBy (start : Nat) (words : List Nat) (addr : Nat) : Option Int :=
  if start ≤ addr then words[addr - start]?.map (fun w : Nat => ((w % 65536 : Nat) : Int)) else none

/-- Registers 102 and 28 stop the motor or let it run in one direction. -/
def Inovert.command (d : Inovert) (changed : Option Int) : Inovert :=
  match changed with
  | some v => if v = 0 ∨ v = 1 ∨ v = 2 then { d with state := v } else d
  | none => d

def Inovert.readdress (d : Inovert) (changed : Option Int) : Inovert :=
  match changed with
  | some newAddr =>
    if 1 ≤ newAddr ∧ newAddr ≤ 247 then
      { d with address := newAddr, regs := put d.regs 702 newAddr }
    else d
  | none => d

def Inovert.onWrite (d : Inovert) (changed : Nat → Option Int) : Inovert :=
  ((d.command (changed 102)).command (changed 28)).readdress (changed 702)

def Inovert.writeRegs (d : Inovert) (start : Nat) (words : List Nat) : Option UInt8 × Inovert :=
  if start + words.length > regSize then (some 0x02, d)
  else
    let d := { d with regs := store d.regs start (words.map (fun w : Nat => ((w % 65536 : Nat) : Int))) }
    (none, d.onWrite (changedBy start words))

def slave : Slave Inovert := ⟨Inovert.address, Inovert.fc3, Inovert.writeRegs, true⟩

def Inovert.handle (d : Inovert) (raw : Frame) : Except PyError (Option Frame) × Inovert :=
  SlaveFrame.handle slave d raw

def Readable (d : Inovert) (start count : Nat) : Prop :=
  1 ≤ count → count ≤ 125 → start + count ≤ regSize →
    ∀ a : Fin regSize, start ≤ a.val → a.val < start + count → IsWord (d.regs a)

def Writable (start count : Nat) : Prop := start + count ≤ regSize

instance (start count : Nat) : Decidable (Writable start count) :=
  inferInstanceAs (Decidable (start + count ≤ regSize))

def Stored (d : Inovert) (start : Nat) (words : List Nat) (d' : Inovert) : Prop :=
  Updated d.regs d'.regs start (words.map (fun w : Nat => (w : Int)))

variable {d : Inovert} {changed : Option Int}

@[simp] theorem command_regs : (d.command changed).regs = d.regs := by
  cases changed with
  | none => rfl
  | some v =>
      rw [Inovert.command]
      split <;> rfl

@[simp] theorem command_address : (d.command changed).address = d.address := by
  cases changed with
  | none => rfl
  | some v =>
      rw [Inovert.command]
      split <;> rfl

theorem readdress_regs
    (h : ∀ v, changed = some v → ∀ a : Fin regSize, a.val = 702 → d.regs a = v) :
    (d.readdress changed).regs = d.regs := by
  cases changed with
  | none => rfl
  | some v =>
      rw [Inovert.readdress]
      split
      · funext a
        dsimp only
        rw [put]
        split
        · rename_i ha
          exact (h v rfl a ha).symm
        · rfl
      · rfl

theorem readdress_address (h : IsByte d.address) : IsByte (d.readdress changed).address := by
  cases changed with
  | none => exact h
  | some v =>
      rw [Inovert.readdress]
      split
      · rename_i hv
        exact ⟨Int.le_trans (by decide) hv.1, Int.lt_of_le_of_lt hv.2 (by decide)⟩
      · exact h

theorem writeRegs_regs {start : Nat} {words : List Nat} (hw : Writable start words.length) :
    (d.writeRegs start words).2.regs =
      store d.regs start (words.map (fun w : Nat => ((w % 65536 : Nat) : Int))) := by
  rw [Inovert.writeRegs, if_neg (Nat.not_lt_of_le hw)]
  dsimp only
  rw [Inovert.onWrite, readdress_regs, command_regs, command_regs]
  intro v hv a ha
  rw [command_regs, command_regs]
  dsimp only
  rw [store_updated _ _ _ a, ha]
  rw [changedBy] at hv
  split at hv
  · rename_i hle
    rw [if_pos hle, List.getElem?_map, hv]
    rfl
  · cases hv

theorem fc3_ok {start count : Nat} {words : List Int} (h : d.fc3 start count = .ok words) :
    1 ≤ count ∧ count ≤ 125 ∧ start + count ≤ regSize ∧ words = load d.regs 0 start count := by
  rw [Inovert.fc3] at h
  split at h
  · cases h
  · split at h
    · cases h
    · exact ⟨by omega, by omega, by omega, (Except.ok.inj h).symm⟩

theorem fc3_legal {start count : Nat} (h1 : 1 ≤ count) (h125 : count ≤ 125)
    (hfit : start + count ≤ regSize) : d.fc3 start count = .ok (load d.regs 0 start count) := by
  rw [Inovert.fc3, if_neg (by omega), if_neg (by omega)]

theorem words_mod {words : List Nat} (h : ∀ w ∈ words, w < 65536) :
    words.map (fun w : Nat => ((w % 65536 : Nat) : Int)) = words.map (fun w : Nat => (w : Int)) := by
  refine List.map_congr_left ?_
  intro w hw
  rw [Nat.mod_eq_of_lt (h w hw)]

theorem lawful : Lawful slave Readable Writable Stored where
  fc3_length d start count words h := by
    obtain ⟨-, h125, -, rfl⟩ := fc3_ok h
    rw [load_length]
    exact h125
  fc3_words d start count := by
    constructor
    · intro hread words hwords w hw
      obtain ⟨h1, h125, hfit, rfl⟩ := fc3_ok hwords
      obtain ⟨a, hle, hlt, rfl⟩ := (mem_load hfit).1 hw
      exact hread h1 h125 hfit a hle hlt
    · intro hall h1 h125 hfit a hle hlt
      exact hall _ (fc3_legal h1 h125 hfit) _ ((mem_load hfit).2 ⟨a, hle, hlt, rfl⟩)
  refused d start words h := ⟨0x02, if_pos (Nat.lt_of_not_le h)⟩
  accepted d start words h := by
    change (d.writeRegs start words).1 = none
    rw [Inovert.writeRegs, if_neg (Nat.not_lt_of_le h)]
  stored d start words h hlt := by
    change Updated d.regs (d.writeRegs start words).2.regs start _
    rw [writeRegs_regs h, words_mod hlt]
    exact store_updated _ _ _
  address d start words h := by
    change IsByte (d.writeRegs start words).2.address
    rw [Inovert.writeRegs]
    split
    · exact h
    · refine readdress_address ?_
      rw [command_address, command_address]
      exact h

section Address

def Inovert.newAddress (_ : Inovert) (start : Nat) (words : List Nat) : Option Int :=
  if Writable start words.length then
    (changedBy start words 702).filter (fun v => 1 ≤ v ∧ v ≤ 247)
  else none

theorem readdress_eq : (d.readdress changed).address =
    (changed.filter (fun v => 1 ≤ v ∧ v ≤ 247)).getD d.address := by
  cases changed with
  | none => rfl
  | some v =>
      rw [Inovert.readdress, Option.filter_some]
      by_cases hv : 1 ≤ v ∧ v ≤ 247
      · rw [if_pos hv, if_pos (decide_eq_true hv)]
        rfl
      · rw [if_neg hv, if_neg (by rwa [decide_eq_true_eq])]
        rfl

theorem writeRegs_address (d : Inovert) (start : Nat) (words : List Nat) :
    (d.writeRegs start words).2.address = (d.newAddress start words).getD d.address := by
  rw [Inovert.writeRegs, Inovert.newAddress]
  by_cases hw : Writable start words.length
  · rw [if_neg (Nat.not_lt_of_le hw), if_pos hw]
    dsimp only
    rw [Inovert.onWrite, readdress_eq, command_address, command_address]
  · rw [if_pos (Nat.lt_of_not_le hw), if_neg hw]
    rfl

end Address

end WirelessGateway.InovertSlave
