import Mathlib.Data.List.Basic

namespace WirelessGateway.Lib.Runs

variable {σ α φ τ : Type*}

/-- A labelled machine whose steps may touch invalid memory. A label that is
not enabled gives none, an invalid access gives an error. -/
structure Machine (σ α φ : Type*) where
  init : σ → Prop
  step : σ → α → Option (Except φ σ)

def Machine.Step (m : Machine σ α φ) (s : σ) (a : α) (t : σ) : Prop := m.step s a = some (.ok t)

def Machine.Faults (m : Machine σ α φ) (s : σ) (a : α) : Prop := ∃ f, m.step s a = some (.error f)

/-- Runs from a state in which every step satisfies a condition on the label
and on the states before and after it. -/
inductive Along (m : Machine σ α φ) (P : σ → α → σ → Prop) (s : σ) : List α → σ → Prop
  | start : Along m P s [] s
  | step {as : List α} {t : σ} {a : α} {u : σ} (run : Along m P s as t) (hstep : m.Step t a u)
      (hcond : P t a u) : Along m P s (as ++ [a]) u

abbrev Run (m : Machine σ α φ) (s : σ) (as : List α) (t : σ) : Prop :=
  Along m (fun _ _ _ => True) s as t

def Reachable (m : Machine σ α φ) (t : σ) : Prop := ∃ s as, m.init s ∧ Run m s as t

variable {m : Machine σ α φ}

theorem Along.imp {P Q : σ → α → σ → Prop} {s : σ} {as : List α} {t : σ}
    (h : Along m P s as t) (hpq : ∀ t a u, P t a u → Q t a u) : Along m Q s as t := by
  induction h with
  | start => exact .start
  | step _ hstep hcond ih => exact .step ih hstep (hpq _ _ _ hcond)

theorem Along.run {P : σ → α → σ → Prop} {s : σ} {as : List α} {t : σ}
    (h : Along m P s as t) : Run m s as t := h.imp (fun _ _ _ _ => trivial)

theorem Reachable.init {s : σ} (h : m.init s) : Reachable m s := ⟨s, [], h, .start⟩

theorem Reachable.step {s t : σ} {a : α} (h : Reachable m s) (hstep : m.Step s a t) :
    Reachable m t := by
  obtain ⟨s₀, as, h₀, hrun⟩ := h
  exact ⟨s₀, as ++ [a], h₀, .step hrun hstep trivial⟩

theorem Along.reachable {P : σ → α → σ → Prop} {s : σ} {as : List α} {t : σ}
    (h : Along m P s as t) (hs : Reachable m s) : Reachable m t := by
  induction h with
  | start => exact hs
  | step _ hstep _ ih => exact ih.step hstep

/-- The invariant rule for runs whose steps all satisfy a condition. The step
case may use that the state before the step is reachable. -/
theorem Along.invariant {P : σ → α → σ → Prop} {I : σ → Prop} {s : σ} {as : List α} {t : σ}
    (h : Along m P s as t) (hr : Reachable m s) (hs : I s)
    (hstep : ∀ t a u, Reachable m t → I t → m.Step t a u → P t a u → I u) : I t := by
  induction h with
  | start => exact hs
  | step run hst hcond ih => exact hstep _ _ _ (run.reachable hr) ih hst hcond

theorem Reachable.invariant {I : σ → Prop} {t : σ} (h : Reachable m t)
    (hinit : ∀ s, m.init s → I s)
    (hstep : ∀ s a t, Reachable m s → I s → m.Step s a t → I t) : I t := by
  obtain ⟨s, as, hs, hrun⟩ := h
  exact hrun.invariant (.init hs) (hinit s hs) (fun t a u hr hi hst _ => hstep t a u hr hi hst)

theorem Along.imp_of_reachable {P Q : σ → α → σ → Prop} {s : σ} {as : List α} {t : σ}
    (h : Along m P s as t) (hr : Reachable m s)
    (hpq : ∀ t a u, Reachable m t → m.Step t a u → P t a u → Q t a u) : Along m Q s as t := by
  induction h with
  | start => exact .start
  | step run hstep hcond ih =>
      exact .step ih hstep (hpq _ _ _ (run.reachable hr) hstep hcond)

theorem Along.imp_of_invariant {P Q : σ → α → σ → Prop} {I : σ → Prop} {s : σ} {as : List α} {t : σ}
    (h : Along m P s as t) (hr : Reachable m s) (hs : I s)
    (hstep : ∀ t a u, Reachable m t → I t → m.Step t a u → P t a u → I u)
    (hpq : ∀ t a u, Reachable m t → I t → m.Step t a u → P t a u → Q t a u) : Along m Q s as t := by
  induction h with
  | start => exact .start
  | step run hst hcond ih =>
      have hi := run.invariant hr hs hstep
      exact .step ih hst (hpq _ _ _ (run.reachable hr) hi hst hcond)

theorem Along.congr {P Q : σ → α → σ → Prop} {s : σ} {as : List α} {t : σ} (hr : Reachable m s)
    (hpq : ∀ t a u, Reachable m t → m.Step t a u → (P t a u ↔ Q t a u)) :
    Along m P s as t ↔ Along m Q s as t :=
  ⟨fun h => h.imp_of_reachable hr (fun t a u ht hs => (hpq t a u ht hs).1),
    fun h => h.imp_of_reachable hr (fun t a u ht hs => (hpq t a u ht hs).2)⟩

/-- A run keeps an invariant as long as its steps meet the condition that each
of them needs for that. -/
theorem Along.invariant_iff {I : σ → Prop} {Q : σ → α → σ → Prop} {s : σ} {as : List α} {t : σ}
    (hr : Reachable m s) (hs : I s)
    (h : ∀ t a u, Reachable m t → I t → m.Step t a u → (I u ↔ Q t a u)) :
    Along m (fun _ _ u => I u) s as t ↔ Along m Q s as t := by
  constructor
  · intro hrun
    induction hrun with
    | start => exact .start
    | step run hstep hcond ih =>
        have hi := run.invariant hr hs (fun _ _ _ _ _ _ hu => hu)
        exact .step ih hstep ((h _ _ _ (run.reachable hr) hi hstep).1 hcond)
  · intro hrun
    induction hrun with
    | start => exact .start
    | step run hstep hcond ih =>
        have hi := ih.invariant hr hs (fun _ _ _ _ _ _ hu => hu)
        exact .step ih hstep ((h _ _ _ (run.reachable hr) hi hstep).2 hcond)

theorem Along.cons {P : σ → α → σ → Prop} {s t u : σ} {a : α} {as : List α}
    (hstep : m.Step s a t) (hcond : P s a t) (h : Along m P t as u) : Along m P s (a :: as) u := by
  induction h with
  | start => exact .step .start hstep hcond
  | step _ hst hc ih => exact .step ih hst hc

theorem Along.snoc_iff {P : σ → α → σ → Prop} {s u : σ} {as : List α} {a : α} :
    Along m P s (as ++ [a]) u ↔ ∃ t, Along m P s as t ∧ m.Step t a u ∧ P t a u := by
  constructor
  · intro h
    generalize hl : as ++ [a] = l at h
    cases h with
    | start => simp at hl
    | step run hstep hcond =>
        obtain ⟨rfl, hlast⟩ := List.append_inj' hl rfl
        cases hlast
        exact ⟨_, run, hstep, hcond⟩
  · rintro ⟨t, run, hstep, hcond⟩
    exact .step run hstep hcond

theorem Along.of_append {P : σ → α → σ → Prop} {s u : σ} {as bs : List α}
    (h : Along m P s (as ++ bs) u) : ∃ t, Along m P s as t ∧ Along m P t bs u := by
  induction bs generalizing as with
  | nil => exact ⟨u, by simpa using h, .start⟩
  | cons b bs ih =>
      rw [List.append_cons] at h
      obtain ⟨v, hv, hbs⟩ := ih h
      obtain ⟨t, ht, hstep, hcond⟩ := Along.snoc_iff.1 hv
      exact ⟨t, ht, .cons hstep hcond hbs⟩

theorem Along.nil_iff {P : σ → α → σ → Prop} {s t : σ} : Along m P s [] t ↔ t = s := by
  constructor
  · intro h
    generalize hl : ([] : List α) = l at h
    cases h with
    | start => rfl
    | step => simp at hl
  · rintro rfl
    exact .start

theorem Along.unique {P Q : σ → α → σ → Prop} {s t u : σ} {as : List α} (h : Along m P s as t)
    (h' : Along m Q s as u) : t = u := by
  induction h generalizing u with
  | start => exact (Along.nil_iff.1 h').symm
  | step _ hstep _ ih =>
      obtain ⟨v, hv, hstep', -⟩ := Along.snoc_iff.1 h'
      rw [← ih hv] at hstep'
      rw [Machine.Step, hstep] at hstep'
      cases hstep'
      rfl

section Trail

variable {β : Type*} {obs : σ → α → Option β}

def Machine.trail (m : Machine σ α φ) (obs : σ → α → Option β) : σ → List α → List β
  | _, [] => []
  | s, a :: as => (obs s a).toList ++ match m.step s a with
    | some (.ok t) => m.trail obs t as
    | _ => []

theorem Along.trail_append {P : σ → α → σ → Prop} {s : σ} {as : List α} {t : σ}
    (h : Along m P s as t) (bs : List α) :
    m.trail obs s (as ++ bs) = m.trail obs s as ++ m.trail obs t bs := by
  induction h generalizing bs with
  | start => rfl
  | @step as t a u _ hstep _ ih =>
      have hcons : ∀ cs, m.trail obs t (a :: cs) = (obs t a).toList ++ m.trail obs u cs := by
        intro cs
        rw [Machine.trail, hstep]
      rw [List.append_assoc, ih, List.singleton_append, hcons, ih [a], hcons [], List.append_assoc,
        List.append_assoc]
      rfl

theorem Along.trail_snoc {P : σ → α → σ → Prop} {s : σ} {as : List α} {t : σ}
    (h : Along m P s as t) (a : α) :
    m.trail obs s (as ++ [a]) = m.trail obs s as ++ (obs t a).toList := by
  rw [h.trail_append]
  congr 1
  simp only [Machine.trail]
  split
  · simp
  · simp

theorem Along.mem_trail {P : σ → α → σ → Prop} {s : σ} {as : List α} {t : σ} {b : β}
    (h : Along m P s as t) (hb : b ∈ m.trail obs s as) : ∃ cs a ds u v, as = cs ++ a :: ds ∧
      Along m P s cs u ∧ m.Step u a v ∧ obs u a = some b := by
  induction h with
  | start => cases hb
  | @step as t a v hrun hstep _ ih =>
      rw [hrun.trail_snoc, List.mem_append, Option.mem_toList] at hb
      rcases hb with hb | hb
      · obtain ⟨cs, a', ds, u, v, rfl, hcs, hu, hobs⟩ := ih hb
        exact ⟨cs, a', ds ++ [a], u, v, by simp, hcs, hu, hobs⟩
      · exact ⟨as, a, [], t, v, rfl, hrun, hstep, hb⟩

end Trail

/-- A step of the first machine is matched by a run of the second one. -/
structure Refines (m : Machine σ α φ) {β : Type*} (n : Machine τ β φ) (R : σ → τ) : Prop where
  init : ∀ s, m.init s → n.init (R s)
  step : ∀ s a t, Reachable m s → m.Step s a t → ∃ bs, Run n (R s) bs (R t)

theorem Along.append {P : σ → α → σ → Prop} {s t u : σ} {as bs : List α}
    (h : Along m P s as t) (hq : Along m P t bs u) : Along m P s (as ++ bs) u := by
  induction hq with
  | start => simpa using h
  | step _ hst hc ih => rw [← List.append_assoc]; exact .step ih hst hc

theorem Refines.reachable {β : Type*} {n : Machine τ β φ} {R : σ → τ} (h : Refines m n R) {s : σ}
    (hs : Reachable m s) : Reachable n (R s) := by
  obtain ⟨s₀, as, h₀, hrun⟩ := hs
  induction hrun with
  | start => exact .init (h.init _ h₀)
  | step run hstep _ ih =>
      obtain ⟨t₀, bs, ht₀, hb⟩ := ih
      obtain ⟨cs, hc⟩ := h.step _ _ _ ⟨s₀, _, h₀, run⟩ hstep
      exact ⟨t₀, bs ++ cs, ht₀, hb.append hc⟩

section Carry

variable {γ : Type*} {g : γ} {upd : σ → α → γ → γ}

/-- A machine that carries auxiliary state along, which has no influence on
its steps. -/
def Machine.carry (m : Machine σ α φ) (g : γ) (upd : σ → α → γ → γ) : Machine (σ × γ) α φ where
  init z := m.init z.1 ∧ z.2 = g
  step z a := (m.step z.1 a).map (Except.map (fun t => (t, upd z.1 a z.2)))

theorem carry_step_iff {z w : σ × γ} {a : α} :
    (m.carry g upd).Step z a w ↔ m.Step z.1 a w.1 ∧ w.2 = upd z.1 a z.2 := by
  simp only [Machine.Step, Machine.carry]
  cases m.step z.1 a with
  | none => simp
  | some r =>
      cases r with
      | error f => simp [Except.map]
      | ok t =>
          obtain ⟨w₁, w₂⟩ := w
          simp only [Option.map_some, Except.map, Option.some.injEq, Except.ok.injEq, Prod.mk.injEq]
          rw [eq_comm (a := w₂)]

theorem carry_refines : Refines (m.carry g upd) m Prod.fst where
  init _ hz := hz.1
  step _ a _ _ hstep := ⟨[a], .step .start (carry_step_iff.1 hstep).1 trivial⟩

theorem Reachable.carried {z : σ × γ} (h : Reachable (m.carry g upd) z) : Reachable m z.1 :=
  carry_refines.reachable h

theorem Reachable.carry_invariant {I : σ → γ → Prop} {z : σ × γ}
    (h : Reachable (m.carry g upd) z) (hinit : ∀ s, m.init s → I s g)
    (hstep : ∀ s a t k, Reachable m s → I s k → m.Step s a t → I t (upd s a k)) : I z.1 z.2 := by
  refine h.invariant (I := fun z => I z.1 z.2) (fun z hz => hz.2 ▸ hinit z.1 hz.1) ?_
  intro z a w hr hi hzw
  obtain ⟨hs, hw⟩ := carry_step_iff.1 hzw
  rw [hw]
  exact hstep z.1 a w.1 z.2 hr.carried hi hs

end Carry

def Machine.check (m : Machine σ α φ) (c : σ → α → Bool) (p : σ → Bool) : σ → List α → Bool
  | s, [] => p s
  | s, a :: as => c s a && match m.step s a with
    | some (.ok t) => m.check c p t as
    | _ => false

theorem exists_of_check {c : σ → α → Bool} {p : σ → Bool} {s : σ} {as : List α}
    (h : m.check c p s as = true) : ∃ t, Along m (fun s a _ => c s a = true) s as t ∧ p t = true := by
  induction as generalizing s with
  | nil => exact ⟨s, .start, h⟩
  | cons a as ih =>
      simp only [Machine.check, Bool.and_eq_true] at h
      cases hs : m.step s a with
      | none => simp [hs] at h
      | some r =>
          cases r with
          | error f => simp [hs] at h
          | ok u =>
              obtain ⟨t, hrun, ht⟩ := ih (by simpa [hs] using h.2)
              exact ⟨t, .cons hs h.1 hrun, ht⟩

def Machine.reaches (m : Machine σ α φ) (s : σ) (as : List α) (p : σ → Bool) : Bool :=
  m.check (fun _ _ => true) p s as

theorem exists_of_reaches {s : σ} {as : List α} {p : σ → Bool} (h : m.reaches s as p = true) :
    ∃ t, Run m s as t ∧ p t = true := by
  obtain ⟨t, hrun, ht⟩ := exists_of_check h
  exact ⟨t, hrun.run, ht⟩

theorem exists_step_of_reaches {s : σ} {a : α} {p : σ → Bool} (h : m.reaches s [a] p = true) :
    ∃ t, m.Step s a t ∧ p t = true := by
  simp only [Machine.reaches, Machine.check, Bool.true_and] at h
  split at h
  next t ht => exact ⟨t, ht, h⟩
  next => cases h

end WirelessGateway.Lib.Runs
