import Mathlib.Logic.Function.Basic
import WirelessGateway.Lib.Runs

namespace WirelessGateway.Lib.Interleave

open Lib.Runs

variable {ι σ β α φ γ : Type*}

/-- A task with a state of its own, which may read and write a memory that it
shares with others. -/
structure Task (σ β α φ : Type*) where
  init : σ → Prop
  step : σ → β → α → Option (Except φ (σ × β))

def Task.alone (t : Task σ β α φ) (mem : β → Prop) : Machine (σ × β) α φ where
  init x := t.init x.1 ∧ mem x.2
  step x a := t.step x.1 x.2 a

def Task.shared [DecidableEq ι] (t : Task σ β α φ) (mem : β → Prop) :
    Machine ((ι → σ) × β) (ι × α) φ where
  init x := (∀ i, t.init (x.1 i)) ∧ mem x.2
  step x l := (t.step (x.1 l.1) x.2 l.2).map
    (Except.map (fun r => (Function.update x.1 l.1 r.1, r.2)))

def inputs [DecidableEq ι] (i : ι) (ls : List (ι × α)) : List α :=
  ls.filterMap (fun l => if l.1 = i then some l.2 else none)

variable {t : Task σ β α φ} {mem : β → Prop}

theorem shared_step_iff [DecidableEq ι] {x y : (ι → σ) × β} {l : ι × α} :
    (t.shared mem).Step x l y ↔
      ∃ r, t.step (x.1 l.1) x.2 l.2 = some (.ok r) ∧ y = (Function.update x.1 l.1 r.1, r.2) := by
  simp only [Machine.Step, Task.shared]
  cases t.step (x.1 l.1) x.2 l.2 with
  | none => simp
  | some op =>
      cases op with
      | error f => simp [Except.map]
      | ok r => simp [Except.map, eq_comm]

/-- What a state lets a task see of the memory decides what it does. -/
def Sees (t : Task σ β α φ) (mem : β → Prop) (view : σ → β → γ) : Prop :=
  ∀ p b b' a q c, mem b → mem b' → view p b = view p b' → t.step p b a = some (.ok (q, c)) →
    mem c ∧ ∃ c', t.step p b' a = some (.ok (q, c')) ∧ mem c' ∧ view q c = view q c'

def Unseen (view : σ → β → γ) (x : (ι → σ) × β) (l : ι × α) (y : (ι → σ) × β) : Prop :=
  ∀ j, j ≠ l.1 → view (x.1 j) y.2 = view (x.1 j) x.2

/-- As long as no instance sees the steps of the others, each one behaves as it
does alone with its own inputs. -/
theorem isolated_run [DecidableEq ι] {view : σ → β → γ} (hsees : Sees t mem view)
    {x y : (ι → σ) × β} {ls : List (ι × α)} (hx : mem x.2)
    (h : Along (t.shared mem) (Unseen view) x ls y) (i : ι) :
    mem y.2 ∧ ∃ b, Run (t.alone mem) (x.1 i, x.2) (inputs i ls) (y.1 i, b) ∧ mem b ∧
      view (y.1 i) b = view (y.1 i) y.2 := by
  induction h with
  | start => exact ⟨hx, x.2, .start, hx, rfl⟩
  | @step ls y l z _ hstep hunseen ih =>
      obtain ⟨hy, b, hrun, hb, hview⟩ := ih
      obtain ⟨⟨q, c⟩, hq, rfl⟩ := shared_step_iff.1 hstep
      by_cases hl : l.1 = i
      · subst hl
        obtain ⟨hc, c', hc', hmem, hv⟩ := hsees _ _ b _ _ _ hy hb hview.symm hq
        have hinputs : inputs l.1 (ls ++ [l]) = inputs l.1 ls ++ [l.2] := by
          simp [inputs]
        have hself : Function.update y.1 l.1 q l.1 = q := Function.update_self ..
        dsimp only
        rw [hinputs, hself]
        exact ⟨hc, c', .step hrun hc' trivial, hmem, hv.symm⟩
      · have hinputs : inputs i (ls ++ [l]) = inputs i ls := by
          simp [inputs, hl]
        have hne : i ≠ l.1 := fun he => hl he.symm
        have hother : Function.update y.1 l.1 q i = y.1 i := Function.update_of_ne hne ..
        dsimp only
        rw [hinputs, hother]
        exact ⟨(hsees _ _ _ _ _ _ hy hy rfl hq).1, b, hrun, hb, hview.trans (hunseen i hne).symm⟩

theorem shared_invariant [DecidableEq ι] {I : σ → Prop} {C : σ → α → Prop}
    {x y : (ι → σ) × β} {ls : List (ι × α)} (hmem : mem x.2) (hx : ∀ i, I (x.1 i))
    (hstep : ∀ p b a q c, mem b → I p → C p a → t.step p b a = some (.ok (q, c)) → mem c ∧ I q)
    (h : Along (t.shared mem) (fun z l _ => C (z.1 l.1) l.2) x ls y) :
    mem y.2 ∧ ∀ i, I (y.1 i) := by
  induction h with
  | start => exact ⟨hmem, hx⟩
  | @step ls y l z _ hst hcond ih =>
      obtain ⟨⟨q, c⟩, hq, rfl⟩ := shared_step_iff.1 hst
      obtain ⟨hc, hi⟩ := hstep _ _ _ _ _ ih.1 (ih.2 l.1) hcond hq
      refine ⟨hc, fun i => ?_⟩
      by_cases hl : i = l.1
      · subst hl
        have hself : Function.update y.1 l.1 q l.1 = q := Function.update_self ..
        dsimp only
        rw [hself]
        exact hi
      · have hother : Function.update y.1 l.1 q i = y.1 i := Function.update_of_ne hl ..
        dsimp only
        rw [hother]
        exact ih.2 i

end WirelessGateway.Lib.Interleave
