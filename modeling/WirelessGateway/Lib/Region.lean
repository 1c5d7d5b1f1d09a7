import Mathlib.Data.List.Basic

namespace WirelessGateway.Lib.Region

variable {α : Type}

inductive Overrun
  | read
  | write
  deriving DecidableEq

def copy (dst : List α) (off : Nat) (src : List α) (n : Nat) : Except Overrun (List α) :=
  if src.length < n then .error .read
  else if dst.length < off + n then .error .write
  else .ok (dst.take off ++ src.take n ++ dst.drop (off + n))

theorem copy_ok {dst src : List α} {off n : Nat} (hsrc : n ≤ src.length)
    (hdst : off + n ≤ dst.length) :
    copy dst off src n = .ok (dst.take off ++ src.take n ++ dst.drop (off + n)) := by
  rw [copy, if_neg (by omega), if_neg (by omega)]

/-- What a copy that stays inside its regions leaves behind. -/
theorem copy_spec {dst src : List α} {off n : Nat} (hsrc : n ≤ src.length)
    (hdst : off + n ≤ dst.length) :
    ∃ mem, copy dst off src n = .ok mem ∧ mem.length = dst.length ∧
      mem.take (off + n) = dst.take off ++ src.take n := by
  have hlen : (dst.take off ++ src.take n).length = off + n := by
    simp only [List.length_append, List.length_take]
    omega
  refine ⟨_, copy_ok hsrc hdst, ?_, List.take_left' hlen⟩
  rw [List.length_append, hlen, List.length_drop]
  omega

theorem copy_length {dst src mem : List α} {off n : Nat} (h : copy dst off src n = .ok mem) :
    mem.length = dst.length := by
  rw [copy] at h
  split at h
  · cases h
  · split at h
    · cases h
    · cases h
      simp only [List.length_append, List.length_take, List.length_drop]
      omega

end WirelessGateway.Lib.Region
