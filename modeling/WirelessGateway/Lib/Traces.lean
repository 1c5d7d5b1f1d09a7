import WirelessGateway.Lib.Runs

namespace WirelessGateway.Lib.Traces

open Lib.Runs

variable {σ τ α φ : Type*} {m : Machine σ α φ} {P : σ → α → σ → Prop} {s t : σ} {as : List α}

/-- A run with the labels left out that a second machine, related to the first,
has no use for. -/
theorem erased_run {n : Machine τ α φ} {f : α → Bool} {R : σ → τ → Prop}
    (hskip : ∀ t a u z, R t z → m.Step t a u → P t a u → f a = false → R u z)
    (hkeep : ∀ t a u z, R t z → m.Step t a u → P t a u → f a = true →
      ∃ w, n.Step z a w ∧ R u w)
    (h : Along m P s as t) {z : τ} (hz : R s z) : ∃ w, Run n z (as.filter f) w ∧ R t w := by
  induction h with
  | start => exact ⟨z, .start, hz⟩
  | @step as t a u _ hstep hcond ih =>
      obtain ⟨w, hrun, hw⟩ := ih
      rw [List.filter_append]
      cases hk : f a with
      | false =>
          rw [List.filter_cons_of_neg (by simp [hk]), List.filter_nil, List.append_nil]
          exact ⟨w, hrun, hskip _ _ _ _ hw hstep hcond hk⟩
      | true =>
          obtain ⟨v, hv, hR⟩ := hkeep _ _ _ _ hw hstep hcond hk
          rw [List.filter_cons_of_pos hk, List.filter_nil]
          exact ⟨v, .step hrun hv trivial, hR⟩

theorem come_about {X D : σ → Prop} (h : Along m P s as t) (hs : ¬ X s) (ht : X t)
    (hstep : ∀ bs t a u, Along m P s bs t → m.Step t a u → P t a u → X u → X t ∨ D u) :
    ∃ bs cs u, as = bs ++ cs ∧ Along m P s bs u ∧ D u := by
  induction h with
  | start => exact absurd ht hs
  | @step as t a u hrun hst hcond ih =>
      rcases hstep _ _ _ _ hrun hst hcond ht with hX | hD
      · obtain ⟨bs, cs, v, rfl, hbs, hv⟩ := ih hX
        exact ⟨bs, cs ++ [a], v, by simp, hbs, hv⟩
      · exact ⟨as ++ [a], [], u, by simp, .step hrun hst hcond, hD⟩

end WirelessGateway.Lib.Traces
