import Mathlib.Data.List.Basic

namespace WirelessGateway.Lib.Fallible

variable {ε α β : Type}

@[simp] theorem ok_bind (a : α) (f : α → Except ε β) : (Except.ok a >>= f) = f a := rfl

@[simp] theorem pure_ok (a : α) : (pure a : Except ε α) = .ok a := rfl

theorem bind_eq_ok {x : Except ε α} {f : α → Except ε β} {b : β} (h : (x >>= f) = .ok b) :
    ∃ a, x = .ok a ∧ f a = .ok b := by
  cases x with
  | error e => cases h
  | ok a => exact ⟨a, rfl, h⟩

theorem map_eq_ok {x : Except ε α} {f : α → β} {b : β} (h : x.map f = .ok b) :
    ∃ a, x = .ok a ∧ f a = b := by
  cases x with
  | error e => cases h
  | ok a => exact ⟨a, rfl, Except.ok.inj h⟩

/-- Total correctness of a fallible computation: it does not fail, and its
result satisfies the postcondition. -/
def Returns (x : Except ε α) (Q : α → Prop) : Prop := ∃ a, x = .ok a ∧ Q a

theorem Returns.pure {a : α} {Q : α → Prop} (h : Q a) : Returns (pure a : Except ε α) Q :=
  ⟨a, rfl, h⟩

theorem Returns.mono {x : Except ε α} {Q R : α → Prop} (h : Returns x Q)
    (hqr : ∀ a, Q a → R a) : Returns x R := by
  obtain ⟨a, ha, hq⟩ := h
  exact ⟨a, ha, hqr a hq⟩

theorem Returns.bind {x : Except ε α} {f : α → Except ε β} {Q : α → Prop} {R : β → Prop}
    (hx : Returns x Q) (hf : ∀ a, Q a → Returns (f a) R) : Returns (x >>= f) R := by
  obtain ⟨a, rfl, hq⟩ := hx
  exact hf a hq

theorem Returns.of_eq {x : Except ε α} {a : α} {f : α → Except ε β} {R : β → Prop}
    (hx : x = .ok a) (hf : Returns (f a) R) : Returns (x >>= f) R := by
  subst hx
  exact hf

theorem Returns.map {x : Except ε α} {f : α → β} {Q : β → Prop}
    (hx : Returns x (fun a => Q (f a))) : Returns (x.map f) Q := by
  obtain ⟨a, rfl, hq⟩ := hx
  exact ⟨f a, rfl, hq⟩

theorem Returns.foldlM {f : β → α → Except ε β} {I : β → Prop} {l : List α} {b : β} (hb : I b)
    (hstep : ∀ b a, a ∈ l → I b → Returns (f b a) I) : Returns (l.foldlM f b) I := by
  induction l generalizing b with
  | nil => exact .pure hb
  | cons a l ih =>
      rw [List.foldlM_cons]
      exact (hstep b a (by simp) hb).bind
        (fun c hc => ih hc (fun d a' ha' => hstep d a' (by simp [ha'])))

theorem mapM_ok {f : α → Except ε β} {g : α → β} {l : List α} (h : ∀ a ∈ l, f a = .ok (g a)) :
    l.mapM f = .ok (l.map g) := by
  induction l with
  | nil => rfl
  | cons a l ih =>
      rw [List.mapM_cons, h a List.mem_cons_self, ih (fun b hb => h b (List.mem_cons_of_mem _ hb))]
      rfl

theorem mapM_error {f : α → Except ε β} {e : ε} {l : List α}
    (hall : ∀ a ∈ l, f a = .error e ∨ ∃ b, f a = .ok b) (h : ∃ a ∈ l, f a = .error e) :
    l.mapM f = .error e := by
  induction l with
  | nil =>
      obtain ⟨a, ha, -⟩ := h
      cases ha
  | cons a l ih =>
      rw [List.mapM_cons]
      rcases hall a List.mem_cons_self with hfail | ⟨b, hb⟩
      · rw [hfail]
        rfl
      · have hrest : ∃ c ∈ l, f c = .error e := by
          obtain ⟨c, hc, hfail⟩ := h
          rcases List.mem_cons.1 hc with rfl | hc
          · rw [hb] at hfail
            cases hfail
          · exact ⟨c, hc, hfail⟩
        rw [hb, ih (fun c hc => hall c (List.mem_cons_of_mem _ hc)) hrest]
        rfl

theorem Returns.eq_ok {x : Except ε α} {Q : α → Prop} {a : α} (h : Returns x Q)
    (hx : x = .ok a) : Q a := by
  obtain ⟨b, hb, hq⟩ := h
  rw [hx] at hb
  cases hb
  exact hq

section Partial

/-- Partial correctness: the result, if there is one, satisfies the
postcondition. -/
structure Yields (x : Except ε α) (Q : α → Prop) : Prop where
  result : ∀ a, x = .ok a → Q a

theorem Yields.pure {a : α} {Q : α → Prop} (h : Q a) : Yields (pure a : Except ε α) Q := by
  constructor
  intro b hb
  cases hb
  exact h

theorem Yields.mono {x : Except ε α} {Q R : α → Prop} (h : Yields x Q)
    (hqr : ∀ a, Q a → R a) : Yields x R := ⟨fun a ha => hqr a (h.result a ha)⟩

theorem Yields.bind {x : Except ε α} {f : α → Except ε β} {R : β → Prop}
    (hf : ∀ a, x = .ok a → Yields (f a) R) : Yields (x >>= f) R := by
  cases x with
  | error e =>
      constructor
      intro b hb
      cases hb
  | ok a => exact hf a rfl

theorem Yields.map {x : Except ε α} {f : α → β} {Q : β → Prop}
    (hx : Yields x (fun a => Q (f a))) : Yields (x.map f) Q := by
  cases x with
  | error e =>
      constructor
      intro b hb
      cases hb
  | ok a =>
      constructor
      intro b hb
      cases hb
      exact hx.result a rfl

theorem Yields.foldlM {f : β → α → Except ε β} {I : β → Prop} {l : List α} {b : β} (hb : I b)
    (hstep : ∀ b a, I b → Yields (f b a) I) : Yields (l.foldlM f b) I := by
  induction l generalizing b with
  | nil => exact .pure hb
  | cons a l ih =>
      rw [List.foldlM_cons]
      exact .bind (fun c hc => ih ((hstep b a hb).result c hc))

end Partial

end WirelessGateway.Lib.Fallible
