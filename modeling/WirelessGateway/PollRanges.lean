import WirelessGateway.Lib.Ranges

namespace WirelessGateway.PollRanges

open Lib.Ranges

/-- The ranges closed so far, and the first and the last register of the range
that is open. -/
structure Running where
  ranges : List Range
  s : Nat
  e : Nat

def Running.close (run : Running) : List Range := run.ranges ++ [⟨run.s, run.e - run.s + 1⟩]

def Running.next (run : Running) (addr : Nat) : Running :=
  if addr = run.e + 1 ∧ run.e - run.s < 99 then { run with e := addr }
  else ⟨run.close, addr, addr⟩

/-- The ranges for sorted addresses. Of no addresses the first is undefined. -/
def rangesOf : List Nat → Option (List Range)
  | [] => none
  | addr :: addrs => some (addrs.foldl Running.next ⟨[], addr, addr⟩).close

structure RegMap where
  keys : List Nat
  unique : keys.Nodup

structure Request where
  fid : Nat
  flags : Nat
  sid : Nat
  awt : Nat
  rdl : Nat
  fn : Nat
  adr : Nat
  ra : Nat
  rvc : Nat

def sidOf (counter n : Nat) : Nat := (counter + n) % 65536

def RegMap.ranges (regMap : RegMap) : Option (List Range) :=
  rangesOf (regMap.keys.mergeSort (fun a b => a ≤ b))

def subscribeRegs (regMap : RegMap) (mbFid mbAddr sid : Nat) (isOpen : Bool) :
    Option (List Request) :=
  regMap.ranges.map (fun ranges => if isOpen then
    ranges.zipIdx.map (fun (r, i) => ⟨mbFid, 4, sidOf sid i, 500, 250, 3, mbAddr, r.s, r.n⟩)
    else [])

theorem next_plan {run : Running} {done : List Nat} {addr : Nat} (h : Plan 100 done run.close)
    (hrun : run.s ≤ run.e) (haddr : run.e < addr) :
    Plan 100 (done ++ [addr]) (run.next addr).close ∧ (run.next addr).s ≤ (run.next addr).e ∧
      (run.next addr).e = addr := by
  rw [Running.next]
  split
  · rename_i hnext
    have hlong := h.extend (a := addr) (by dsimp only; omega) (by dsimp only; omega)
    have hn : run.e - run.s + 1 + 1 = addr - run.s + 1 := by omega
    dsimp only at hlong
    rw [hn] at hlong
    exact ⟨hlong, by dsimp only; omega, rfl⟩
  · rename_i hcut
    have hsize := (h.sized ⟨run.s, run.e - run.s + 1⟩ (by simp [Running.close])).2
    dsimp only at hsize
    have hnew := h.cut (a := addr) (by dsimp only; omega) (by dsimp only; omega)
    refine ⟨?_, Nat.le_refl _, rfl⟩
    rw [Running.close, Nat.sub_self]
    exact hnew

theorem foldl_plan (addrs : List Nat) : ∀ (run : Running) (done : List Nat),
    Plan 100 done run.close → run.s ≤ run.e → (run.e :: addrs).Pairwise (· < ·) →
      Plan 100 (done ++ addrs) (addrs.foldl Running.next run).close := by
  induction addrs with
  | nil =>
      intro run done h _ _
      rwa [List.append_nil]
  | cons addr addrs ih =>
      intro run done h hrun hsorted
      have hlt := (List.pairwise_cons.1 hsorted).1 addr List.mem_cons_self
      obtain ⟨hplan, hle, he⟩ := next_plan h hrun hlt
      have htail : ((run.next addr).e :: addrs).Pairwise (· < ·) := by
        rw [he]
        exact (List.pairwise_cons.1 hsorted).2
      have hrest := ih (run.next addr) (done ++ [addr]) hplan hle htail
      rwa [List.append_assoc] at hrest

theorem rangesOf_plan {addrs : List Nat} (hne : addrs ≠ []) (hsorted : addrs.Pairwise (· < ·)) :
    ∃ ranges, rangesOf addrs = some ranges ∧ Plan 100 addrs ranges := by
  cases addrs with
  | nil => exact absurd rfl hne
  | cons addr addrs =>
      have hone : Plan 100 [addr] (Running.close ⟨[], addr, addr⟩) := by
        rw [Running.close, Nat.sub_self]
        exact Plan.single (by omega) addr
      exact ⟨_, rfl, foldl_plan addrs ⟨[], addr, addr⟩ [addr] hone (Nat.le_refl _) hsorted⟩

theorem sort_increasing {keys : List Nat} (h : keys.Nodup) :
    (keys.mergeSort (fun a b => a ≤ b)).Pairwise (· < ·) := by
  have hsorted : (keys.mergeSort (fun a b => a ≤ b)).Pairwise (fun a b => decide (a ≤ b) = true) := by
    apply List.pairwise_mergeSort
    · intro a b c
      simp only [decide_eq_true_eq]
      omega
    · intro a b
      simp only [Bool.or_eq_true, decide_eq_true_eq]
      omega
  have hle : (keys.mergeSort (fun a b => a ≤ b)).Pairwise (· ≤ ·) :=
    hsorted.imp (fun hab => of_decide_eq_true hab)
  have hne : (keys.mergeSort (fun a b => a ≤ b)).Pairwise (· ≠ ·) :=
    (List.mergeSort_perm keys _).nodup_iff.2 h
  exact (hle.and hne).imp (fun hab => Nat.lt_of_le_of_ne hab.1 hab.2)

/-- The ranges that the page asks for are the registers of its map: each range
has 1 to 100 of them, the ranges are disjoint and in increasing order, and two
neighbours are apart only by a gap or because the first of them is full. -/
theorem ranges_plan (regMap : RegMap) (hne : regMap.keys ≠ []) :
    ∃ ranges, regMap.ranges = some ranges ∧
      (∀ r ∈ ranges, 1 ≤ r.n ∧ r.n ≤ 100) ∧
      ranges.Pairwise (fun r r' => r.s + r.n ≤ r'.s) ∧
      (∀ addr, addr ∈ regMap.keys ↔ ∃ r ∈ ranges, r.s ≤ addr ∧ addr < r.s + r.n) ∧
      ranges.IsChain (fun r r' => r.s + r.n < r'.s ∨ r.n = 100) := by
  have hperm := List.mergeSort_perm regMap.keys (fun a b => decide (a ≤ b))
  have hsome : regMap.keys.mergeSort (fun a b => a ≤ b) ≠ [] := by
    intro hnil
    rw [hnil] at hperm
    exact hne hperm.nil_eq.symm
  obtain ⟨ranges, hranges, hplan⟩ := rangesOf_plan hsome (sort_increasing regMap.unique)
  have hkeys := hplan.perm (fun _ => hperm.mem_iff)
  exact ⟨ranges, hranges, hkeys.sized, hkeys.apart, hkeys.covers, hkeys.maximal⟩

theorem ranges_plan_few :
    ∃ ranges, RegMap.ranges ⟨[9, 4, 5], by decide⟩ = some ranges ∧
      (∀ r ∈ ranges, 1 ≤ r.n ∧ r.n ≤ 100) ∧
      ranges.Pairwise (fun r r' => r.s + r.n ≤ r'.s) ∧
      (∀ addr, addr ∈ [9, 4, 5] ↔ ∃ r ∈ ranges, r.s ≤ addr ∧ addr < r.s + r.n) ∧
      ranges.IsChain (fun r r' => r.s + r.n < r'.s ∨ r.n = 100) :=
  ranges_plan ⟨[9, 4, 5], by decide⟩ (by simp)

end WirelessGateway.PollRanges
