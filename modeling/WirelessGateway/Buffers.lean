import Mathlib.Data.List.Perm.Basic
import WirelessGateway.Lib.Countdown
import WirelessGateway.Lib.Fallible
import WirelessGateway.Memory

namespace WirelessGateway.Buffers

open WirelessGateway.Types Memory Lib.Countdown Lib.Fallible

/-- The accepted sends of a buffer that have not completed. -/
def holds (n : Net) (b : BufPtr) : Nat := (n.inflight.map Transfer.buf).count b

/-- Every buffer is counted down by its accepted sends and by the attempts
that a sender still owes it. -/
structure Owes (n : Net) (owed : BufPtr → Nat) : Prop where
  counts : ∀ b, Counts ((n.bufs b).map ApiData.counter) (holds n b + owed b)
  fresh : ∀ b, n.nextBuf ≤ b → n.bufs b = none

abbrev NetOk (n : Net) : Prop := Owes n (fun _ => 0)

variable {n : Net} {owed : BufPtr → Nat} {b : BufPtr}

def setBuf (n : Net) (b : BufPtr) (d : Option ApiData) : Net :=
  { n with bufs := Function.update n.bufs b d }

def withSend (n : Net) (t : Transfer) : Net := { n with inflight := n.inflight ++ [t] }

def completed (n : Net) (i : Nat) : Net := { n with inflight := n.inflight.eraseIdx i }

theorem holds_withSend (n : Net) (t : Transfer) (b : BufPtr) :
    holds (withSend n t) b = holds n b + if t.buf = b then 1 else 0 := by
  simp [holds, withSend, List.count_append, List.count_singleton]

theorem holds_completed {i : Nat} {t : Transfer} (h : n.inflight[i]? = some t) (b : BufPtr) :
    holds n b = holds (completed n i) b + if t.buf = b then 1 else 0 := by
  obtain ⟨hi, rfl⟩ := List.getElem?_eq_some_iff.1 h
  have hperm := (List.getElem_cons_eraseIdx_perm hi).map Transfer.buf
  rw [holds, holds, completed, ← hperm.count_eq, List.map_cons, List.count_cons]
  simp

@[simp] theorem holds_setBuf (n : Net) (b b' : BufPtr) (d : Option ApiData) :
    holds (setBuf n b d) b' = holds n b' := rfl

theorem Owes.owed_eq_zero (h : Owes n owed) (hb : n.nextBuf ≤ b) : holds n b = 0 ∧ owed b = 0 := by
  have hc := h.counts b
  rw [h.fresh b hb] at hc
  have := hc.zero_of_none
  omega

theorem Owes.buf (h : Owes n owed) (hb : 0 < owed b) :
    ∃ d, n.buf b = .ok d ∧ n.bufs b = some d ∧ d.counter = holds n b + owed b := by
  have hc := h.counts b
  cases hd : n.bufs b with
  | none =>
      rw [hd] at hc
      have := hc.zero_of_none
      omega
  | some d =>
      rw [hd] at hc
      exact ⟨d, by simp [Net.buf, hd], rfl, hc.pos_of_some.1⟩

theorem release_eq {d : ApiData} (h : n.bufs b = some d) :
    n.release b = .ok (setBuf n b ((countDown d.counter).map (fun k => { d with counter := k }))) := by
  unfold Net.release Net.buf countDown setBuf
  rw [h]
  by_cases hd : d.counter = 0 ∨ d.counter - 1 = 0
  · simp [bind, Except.bind, hd, pure, Except.pure]
  · simp [bind, Except.bind, hd, pure, Except.pure]

theorem release_cases {m : Net} (h : n.release b = .ok m) : ∃ d, n.bufs b = some d ∧
    m = setBuf n b ((countDown d.counter).map (fun k => { d with counter := k })) := by
  cases hd : n.bufs b with
  | none =>
      rw [Net.release, Net.buf, hd] at h
      cases h
  | some d =>
      rw [release_eq hd] at h
      cases h
      exact ⟨d, rfl, rfl⟩

theorem Owes.release (h : Owes n (Function.update owed b (owed b + 1))) :
    Returns (n.release b) (fun m => Owes m owed) := by
  obtain ⟨d, -, hd, -⟩ := h.buf (b := b) (by simp)
  refine ⟨_, release_eq hd, ?_, ?_⟩
  · intro b'
    have hc := h.counts b'
    by_cases hb : b' = b
    · subst hb
      simp only [Function.update_self, ← Nat.add_assoc] at hc
      have := hc.countDown
      rw [hd] at this
      rw [holds_setBuf]
      simpa [setBuf, Function.comp_def] using this
    · rw [Function.update_of_ne hb] at hc
      rw [holds_setBuf]
      simpa [setBuf, Function.update_of_ne hb] using hc
  · intro b' hb'
    have hf := h.fresh b' hb'
    have hne : b' ≠ b := by
      rintro rfl
      rw [hf] at hd
      cases hd
    simpa [setBuf, Function.update_of_ne hne] using hf

theorem Owes.send (h : Owes n (Function.update owed b (owed b + 1))) {t : Transfer}
    (ht : t.buf = b) : Owes (withSend n t) owed := by
  refine ⟨fun b' => ?_, h.fresh⟩
  have hc := h.counts b'
  rw [holds_withSend, ht]
  by_cases hb : b' = b
  · subst hb
    simpa [withSend, Nat.add_assoc, Nat.add_comm] using hc
  · simpa [withSend, Function.update_of_ne hb, Ne.symm hb] using hc

theorem Owes.complete {i : Nat} {t : Transfer} (h : Owes n owed) (ht : n.inflight[i]? = some t) :
    Owes (completed n i) (Function.update owed t.buf (owed t.buf + 1)) := by
  refine ⟨fun b' => ?_, h.fresh⟩
  have hc := h.counts b'
  rw [holds_completed ht] at hc
  by_cases hb : b' = t.buf
  · subst hb
    simpa [completed, Nat.add_assoc, Nat.add_comm] using hc
  · simpa [completed, Function.update_of_ne hb, Ne.symm hb] using hc

theorem Owes.alloc (h : Owes n owed) {targets : Nat} (ht : 0 < targets) (fid sid : UInt32)
    (arg : Payload) :
    Owes { n with
        bufs := Function.update n.bufs n.nextBuf (some ⟨targets, fid, sid, arg⟩)
        nextBuf := n.nextBuf + 1 } (Function.update owed n.nextBuf targets) := by
  constructor
  · intro b
    by_cases hb : b = n.nextBuf
    · subst hb
      have h0 := (h.owed_eq_zero (Nat.le_refl _)).1
      simp only [holds] at h0
      simp only [Function.update_self, Option.map_some, holds, h0, Nat.zero_add]
      exact Counts.start ht
    · simpa [holds, Function.update_of_ne hb] using h.counts b
  · intro b (hb : n.nextBuf + 1 ≤ b)
    have hne : b ≠ n.nextBuf := Nat.ne_of_gt hb
    simpa [Function.update_of_ne hne] using h.fresh b (Nat.le_of_lt hb)

end WirelessGateway.Buffers
