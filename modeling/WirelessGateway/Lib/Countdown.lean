import Mathlib.Logic.Function.Basic

namespace WirelessGateway.Lib.Countdown

/-- A counter that is freed with its last holder: it is there, and positive,
exactly while something holds it. -/
def Counts (c : Option Nat) (holders : Nat) : Prop := c = if holders = 0 then none else some holders

def countDown (n : Nat) : Option Nat := if n = 0 ∨ n - 1 = 0 then none else some (n - 1)

theorem Counts.start {n : Nat} (h : 0 < n) : Counts (some n) n := by
  simp [Counts, Nat.pos_iff_ne_zero.1 h]

theorem Counts.eq_some {c : Option Nat} {n : Nat} (h : Counts c (n + 1)) : c = some (n + 1) := by
  simpa [Counts] using h

theorem Counts.countDown {c : Option Nat} {n : Nat} (h : Counts c (n + 1)) :
    Counts (c.bind Countdown.countDown) n := by
  rw [h.eq_some]
  rcases Nat.eq_zero_or_pos n with rfl | hn
  · simp [Counts, Countdown.countDown]
  · simp [Counts, Countdown.countDown, Nat.pos_iff_ne_zero.1 hn]

theorem Counts.pos_of_some {n k : Nat} (h : Counts (some k) n) : k = n ∧ 0 < n := by
  by_cases hn : n = 0
  · simp [Counts, hn] at h
  · simp only [Counts, hn, if_false, Option.some.injEq] at h
    exact ⟨h, Nat.pos_of_ne_zero hn⟩

theorem Counts.zero_of_none {n : Nat} (h : Counts none n) : n = 0 := by
  by_contra hn
  simp [Counts, hn] at h

end WirelessGateway.Lib.Countdown
