import WirelessGateway.InovertSlave
import WirelessGateway.S111Instructions
import WirelessGateway.SlaveAnswers

namespace WirelessGateway.VirtualSlaves

open SlaveFrame InovertSlave S111Slave

/-- Both slaves compare the byte count of a write with the frame but not with
the count of its words: a request whose counts disagree raises an exception, or
stores what follows the data, unless its registers are refused. -/
theorem malformed_writes (d : Inovert) (e : S111) (raw : Frame) :
    (Meets InovertSlave.Stored d raw (d.handle raw) ↔
      Sound d.address (InovertSlave.Readable d) InovertSlave.Writable raw) ∧
    (Meets S111Slave.Stored e raw (e.handle raw) ↔
      Sound e.address (S111Slave.Readable e) S111Slave.Writable raw) :=
  ⟨InovertSlave.lawful.meets_iff d raw, S111Slave.lawful.meets_iff e raw⟩

section Samples

def idleInovert : Inovert := ⟨1, fun _ => 0, 0⟩

def idleS111 : S111 :=
  ⟨1, fun _ => 0, fun _ => 0, 220, 50, fun _ => 0, fun _ => 0, fun _ => 0⟩

def emptyWrite : Frame := [1, 16, 0, 100, 0, 1, 0, 23, 240]

def emptyInstruction : Frame := [1, 16, 1, 44, 0, 2, 0, 61, 96]

example : (idleInovert.handle emptyWrite).2.regs ⟨100, by decide⟩ = 23 * 256 + 240 := by decide +kernel

/-- The first request stores its CRC in a register, and the second one raises
an exception. -/
theorem malformed_writes_empty :
    ¬ Meets InovertSlave.Stored idleInovert emptyWrite (idleInovert.handle emptyWrite) ∧
      ¬ Meets S111Slave.Stored idleS111 emptyInstruction (idleS111.handle emptyInstruction) := by
  have hcrc : checkCrc emptyWrite = true ∧ checkCrc emptyInstruction = true := by decide +kernel
  constructor
  · intro hmeets
    have hwrite : Reaches (InovertSlave.slave.address idleInovert) 0x10 emptyWrite :=
      ⟨hcrc.1, rfl, rfl⟩
    have hcount := (InovertSlave.lawful.meets_write hwrite).1 hmeets (by decide)
    exact absurd hcount (by decide)
  · intro hmeets
    have hwrite : Reaches (S111Slave.slave.address idleS111) 0x10 emptyInstruction :=
      ⟨hcrc.2, rfl, rfl⟩
    have hcount := (S111Slave.lawful.meets_write hwrite).1 hmeets (by decide)
    exact absurd hcount (by decide)

end Samples

section Addresses

theorem inovert_addressed : Addressed InovertSlave.slave Inovert.newAddress where
  write := writeRegs_address
  isByte d start words v h := by
    rw [Inovert.newAddress] at h
    split at h
    · have hv := of_decide_eq_true (Option.filter_eq_some_iff.1 h).2
      exact ⟨by omega, by omega⟩
    · cases h

theorem s111_addressed : Addressed S111Slave.slave S111.newAddress where
  write := fc16_address
  isByte d start words v h := by
    rw [S111.newAddress] at h
    split at h
    · rename_i hall
      obtain ⟨hlow, hhigh⟩ := hall.2.2.1
      obtain rfl := Option.some.inj h
      exact ⟨by omega, by omega⟩
    · cases h

/-- A slave answers under the address that it was asked under, if and only if
the request does not give it another one. -/
theorem asked_address_iff (d : Inovert) (e : S111) (raw : Frame) :
    ((∀ resp, (d.handle raw).1 = .ok (some resp) →
        Faithful InovertSlave.slave Inovert.newAddress d raw resp) ↔
      KeepsAddress InovertSlave.slave Inovert.newAddress d raw) ∧
    ((∀ resp, (e.handle raw).1 = .ok (some resp) →
        Faithful S111Slave.slave S111.newAddress e raw resp) ↔
      KeepsAddress S111Slave.slave S111.newAddress e raw) :=
  ⟨inovert_addressed.faithful_iff d raw, s111_addressed.faithful_iff e raw⟩

def addressWrite : Frame := appendCrc [1, 6, 2, 0xBE, 0, 5]

def addressInstruction : Frame :=
  appendCrc [1, 16, 1, 44, 0, 5, 10, 4, 0xBA, 0, 5, 0, 6, 0, 0, 0, 1]

theorem asked_address_lost :
    ¬ (∀ resp, (idleInovert.handle addressWrite).1 = .ok (some resp) →
        Faithful InovertSlave.slave Inovert.newAddress idleInovert addressWrite resp) ∧
      ¬ (∀ resp, (idleS111.handle addressInstruction).1 = .ok (some resp) →
        Faithful S111Slave.slave S111.newAddress idleS111 addressInstruction resp) := by
  constructor
  · intro hall
    have hreaches : Reaches (InovertSlave.slave.address idleInovert) (addressWrite.getD 1 0) addressWrite :=
      ⟨checkCrc_appendCrc (List.cons_ne_nil _ _), rfl, rfl⟩
    have hkept := (inovert_addressed.faithful_iff _ _).1 hall hreaches
    exact absurd hkept (by decide +kernel)
  · intro hall
    have hreaches : Reaches (S111Slave.slave.address idleS111) (addressInstruction.getD 1 0)
        addressInstruction := ⟨checkCrc_appendCrc (List.cons_ne_nil _ _), rfl, rfl⟩
    have hkept := (s111_addressed.faithful_iff _ _).1 hall hreaches
    exact absurd hkept (by decide +kernel)

end Addresses

section Instructions

/-- An instruction is executed as a whole, or fails and changes nothing, if and
only if none of its parameters are stored before a bad one is found, and none
are taken for others than they are. -/
theorem instruction_atomic_iff (d : S111) {start : Nat} {words : List Nat}
    (h : Instructs start words.length) :
    Atomic (d.scratch start words).code (d.scratch start words).params d (d.fc16 start words).2
        (d.fc16 start words).2.result ↔
      ¬ Torn (d.scratch start words).code (d.scratch start words).params d ∧
        ¬ Altered (d.scratch start words).code (d.scratch start words).params d :=
  fc16_atomic_iff h

theorem instruction_atomic_iff_tariff :
    Atomic (idleS111.scratch 300 [1071, 3]).code (idleS111.scratch 300 [1071, 3]).params idleS111
        (idleS111.fc16 300 [1071, 3]).2 (idleS111.fc16 300 [1071, 3]).2.result ↔
      ¬ Torn (idleS111.scratch 300 [1071, 3]).code (idleS111.scratch 300 [1071, 3]).params idleS111 ∧
        ¬ Altered (idleS111.scratch 300 [1071, 3]).code (idleS111.scratch 300 [1071, 3]).params
          idleS111 :=
  instruction_atomic_iff idleS111 (by decide)

theorem direction_stored :
    ¬ Atomic (idleS111.scratch 300 [1010, 1, 2]).code (idleS111.scratch 300 [1010, 1, 2]).params
      idleS111 (idleS111.fc16 300 [1010, 1, 2]).2 (idleS111.fc16 300 [1010, 1, 2]).2.result := by
  intro hatomic
  have hresult : (idleS111.fc16 300 [1010, 1, 2]).2.result = 81 := by decide +kernel
  have huntouched := hatomic.1 (by rw [hresult]; decide)
  have hsame := huntouched.config ⟨550, by decide⟩ (Or.inl ⟨by decide, by decide⟩)
  exact absurd hsame (by decide +kernel)

end Instructions

section Corruption

/-- A frame passes the check with its own CRC and with no bit of it changed,
and the slaves send only frames that pass. -/
theorem corruption_detected (f : Frame) (hf : f ≠ []) (d : Inovert) (e : S111) (raw resp : Frame) :
    checkCrc (appendCrc f) = true ∧
    (∀ i < (appendCrc f).length, ∀ k : Fin 8, checkCrc (flipBit (appendCrc f) i k) = false) ∧
    ((d.handle raw).1 = .ok (some resp) → checkCrc resp = true) ∧
    ((e.handle raw).1 = .ok (some resp) → checkCrc resp = true) :=
  ⟨checkCrc_appendCrc hf, fun _ hi k => checkCrc_flipBit hi k,
    fun h => (handle_answers h).2.checked, fun h => (handle_answers h).2.checked⟩

theorem corruption_detected_read :
    checkCrc (appendCrc [1, 3, 0, 0, 0, 1]) = true ∧
    (∀ i < (appendCrc [1, 3, 0, 0, 0, 1]).length, ∀ k : Fin 8,
      checkCrc (flipBit (appendCrc [1, 3, 0, 0, 0, 1]) i k) = false) ∧
    ((idleInovert.handle (appendCrc [1, 3, 0, 0, 0, 1])).1 = .ok (some (appendCrc [1, 3, 2, 0, 0])) →
      checkCrc (appendCrc [1, 3, 2, 0, 0]) = true) ∧
    ((idleS111.handle (appendCrc [1, 3, 0, 0, 0, 1])).1 = .ok (some (appendCrc [1, 3, 2, 0, 0])) →
      checkCrc (appendCrc [1, 3, 2, 0, 0]) = true) :=
  corruption_detected [1, 3, 0, 0, 0, 1] (List.cons_ne_nil _ _) idleInovert idleS111
    (appendCrc [1, 3, 0, 0, 0, 1]) (appendCrc [1, 3, 2, 0, 0])

end Corruption

end WirelessGateway.VirtualSlaves
