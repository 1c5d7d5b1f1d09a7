import Mathlib.Data.List.Infix
import Mathlib.Order.Basic

namespace WirelessGateway.Lib.Locks

/-- What a task does with a recursive mutex, and with the data that it protects. -/
inductive LockEvent
  | take
  | give
  | access

def depth : Int → List LockEvent → Int
  | d, [] => d
  | d, .take :: l => depth (d + 1) l
  | d, .give :: l => depth (d - 1) l
  | d, .access :: l => depth d l

/-- A computation with its events, which are there also when it fails. -/
structure Traced (ε α : Type) where
  log : List LockEvent
  result : Except ε α

variable {ε α β : Type} {b d : Int} {l k : List LockEvent}

def Traced.andThen (x : Traced ε α) (f : α → Traced ε β) : Traced ε β :=
  match x.result with
  | .ok a => ⟨x.log ++ (f a).log, (f a).result⟩
  | .error e => ⟨x.log, .error e⟩

instance : Monad (Traced ε) where
  pure a := ⟨[], .ok a⟩
  bind := Traced.andThen

def take : Traced ε Unit := ⟨[.take], .ok ()⟩

def give : Traced ε Unit := ⟨[.give], .ok ()⟩

def attempt (took : Bool) : Traced ε Bool := ⟨if took then [.take] else [], .ok took⟩

def access (y : Except ε α) : Traced ε α := ⟨[.access], y⟩

def plain (y : Except ε α) : Traced ε α := ⟨[], y⟩

section Result

@[simp] theorem pure_result (a : α) : (pure a : Traced ε α).result = pure a := rfl

@[simp] theorem bind_result (x : Traced ε α) (f : α → Traced ε β) :
    (x >>= f).result = x.result >>= fun a => (f a).result := by
  change (x.andThen f).result = _
  unfold Traced.andThen
  cases x.result <;> rfl

@[simp] theorem take_result : (take : Traced ε Unit).result = pure () := rfl

@[simp] theorem give_result : (give : Traced ε Unit).result = pure () := rfl

@[simp] theorem attempt_result (took : Bool) : (attempt took : Traced ε Bool).result = pure took :=
  rfl

@[simp] theorem access_result (y : Except ε α) : (access y).result = y := rfl

@[simp] theorem plain_result (y : Except ε α) : (plain y).result = y := rfl

@[simp] theorem ite_result {c : Prop} [Decidable c] (x y : Traced ε α) :
    (if c then x else y).result = if c then x.result else y.result := by
  split <;> rfl

theorem foldlM_result {f : β → α → Traced ε β} {g : β → α → Except ε β}
    (h : ∀ b a, (f b a).result = g b a) (l : List α) (b : β) :
    (l.foldlM f b).result = l.foldlM g b := by
  induction l generalizing b with
  | nil => rfl
  | cons a l ih => simp only [List.foldlM_cons, bind_result, h, ih]

end Result

section Guarded

/-- Started at the depth d, a computation is never below the depth b, touches
the protected data only while it holds the mutex, and returns at a depth that
its result tells. -/
structure Guarded (b d : Int) (x : Traced ε α) (Q : α → Int) : Prop where
  above : ∀ l k, x.log = l ++ k → b ≤ depth d l
  held : ∀ l k, x.log = l ++ .access :: k → 1 ≤ depth d l
  returns : ∀ a, x.result = .ok a → depth d x.log = Q a

def Balanced (d : Int) (x : Traced ε α) : Prop := Guarded d d x (fun _ => d)

theorem depth_append : depth d (l ++ k) = depth (depth d l) k := by
  induction l generalizing d with
  | nil => rfl
  | cons e l ih => cases e <;> exact ih

variable {x : Traced ε α} {Q R : α → Int}

theorem Guarded.pure {a : α} (h : b ≤ d) (hq : Q a = d) :
    Guarded b d (Pure.pure a : Traced ε α) Q where
  above l k he := by
    obtain ⟨rfl, -⟩ := List.nil_eq_append_iff.1 he
    exact h
  held l k he := by simp [Pure.pure] at he
  returns a' ha := by
    cases ha
    exact hq.symm

theorem Guarded.bind {f : α → Traced ε β} {Q' : β → Int} (hx : Guarded b d x Q)
    (hf : ∀ a, x.result = .ok a → Guarded b (Q a) (f a) Q') : Guarded b d (x >>= f) Q' := by
  cases hr : x.result with
  | error e =>
      have hlog : x >>= f = ⟨x.log, .error e⟩ := by
        change x.andThen f = _
        rw [Traced.andThen, hr]
      rw [hlog]
      exact ⟨hx.above, hx.held, fun a ha => by cases ha⟩
  | ok a =>
      have hlog : x >>= f = ⟨x.log ++ (f a).log, (f a).result⟩ := by
        change x.andThen f = _
        rw [Traced.andThen, hr]
      have hf := hf a hr
      have hd := hx.returns a hr
      rw [hlog]
      refine ⟨fun l k he => ?_, fun l k he => ?_, fun c hc => ?_⟩
      · rcases List.append_eq_append_iff.1 he with ⟨m, rfl, hm⟩ | ⟨m, hm, -⟩
        · rw [depth_append, hd]
          exact hf.above m k hm
        · exact hx.above l m hm
      · rcases List.append_eq_append_iff.1 he with ⟨m, rfl, hm⟩ | ⟨m, hm, hk⟩
        · rw [depth_append, hd]
          exact hf.held m k hm
        · cases m with
          | nil =>
              rw [List.append_nil] at hm
              rw [← hm, hd]
              exact hf.held [] k hk.symm
          | cons e m =>
              cases hk
              exact hx.held l m hm
      · rw [depth_append, hd]
        exact hf.returns c hc

theorem Guarded.event {y : Except ε α} {d' : Int} {e : LockEvent} (hb : b ≤ d) (hb' : b ≤ d')
    (he : depth d [e] = d') (hheld : e = .access → 1 ≤ d) :
    Guarded b d (⟨[e], y⟩ : Traced ε α) (fun _ => d') where
  above l k hl := by
    cases l with
    | nil => exact hb
    | cons e' l =>
        obtain ⟨rfl, hnil⟩ := List.cons.inj hl
        obtain ⟨rfl, -⟩ := List.nil_eq_append_iff.1 hnil
        rwa [he]
  held l k hl := by
    cases l with
    | nil =>
        cases hl
        exact hheld rfl
    | cons e' l => simp at hl
  returns _ _ := he

theorem Guarded.take (h : b ≤ d) : Guarded b d (take : Traced ε Unit) (fun _ => d + 1) :=
  .event h (by omega) rfl (by simp)

theorem Guarded.give (h : b ≤ d) : Guarded b (d + 1) (give : Traced ε Unit) (fun _ => d) :=
  .event (by omega) h (by simp [depth]) (by simp)

theorem Guarded.access {y : Except ε α} (h : b ≤ d) (hd : 1 ≤ d) :
    Guarded b d (access y) (fun _ => d) :=
  .event h h rfl (fun _ => hd)

theorem Guarded.plain {y : Except ε α} (h : b ≤ d) : Guarded b d (plain y) (fun _ => d) where
  above l k he := by
    obtain ⟨rfl, -⟩ := List.nil_eq_append_iff.1 he
    exact h
  held l k he := by simp [Locks.plain] at he
  returns _ _ := rfl

theorem Guarded.lower {b' : Int} (h : Guarded b d x Q) (hb : b' ≤ b) : Guarded b' d x Q :=
  ⟨fun l k he => Int.le_trans hb (h.above l k he), h.held, h.returns⟩

theorem Guarded.ite {c : Prop} [Decidable c] {y : Traced ε α} (hx : Guarded b d x Q)
    (hy : Guarded b d y Q) : Guarded b d (if c then x else y) Q := by
  split
  · exact hx
  · exact hy

end Guarded

section Balanced

variable {x y : Traced ε α} {f : α → Traced ε β} {z : Except ε α}

def Releasing (d : Int) (x : Traced ε α) : Prop := Guarded d (d + 1) x (fun _ => d)

theorem Balanced.pure (d : Int) (a : α) : Balanced d (Pure.pure a : Traced ε α) :=
  Guarded.pure (Int.le_refl d) rfl

theorem Balanced.bind (hx : Balanced d x) (hf : ∀ a, Balanced d (f a)) : Balanced d (x >>= f) :=
  Guarded.bind hx (fun a _ => hf a)

theorem Balanced.plain (d : Int) (z : Except ε α) : Balanced d (plain z) :=
  Guarded.plain (Int.le_refl d)

theorem Balanced.access (hd : 1 ≤ d) (z : Except ε α) : Balanced d (access z) :=
  Guarded.access (Int.le_refl d) hd

theorem Balanced.ite {c : Prop} [Decidable c] {x' : Traced ε α} (hx : Balanced d x)
    (hx' : Balanced d x') : Balanced d (if c then x else x') := Guarded.ite hx hx'

theorem Balanced.enter (hx : Releasing d x) : Balanced d (take >>= fun _ => x) :=
  Guarded.bind (.take (Int.le_refl d)) (fun _ _ => hx)

theorem Balanced.attempt {took : Bool} (hx : Releasing d x) (hy : Balanced d y) :
    Balanced d (attempt took >>= fun t => if t then x else y) := by
  cases took with
  | true =>
      refine Guarded.bind (Q := fun _ => d + 1) (.event (by omega) (by omega) rfl (by simp)) ?_
      rintro a ⟨⟩
      exact hx
  | false =>
      refine Guarded.bind (Q := fun _ => d) (.plain (Int.le_refl d)) ?_
      rintro a ⟨⟩
      exact hy

theorem Balanced.foldlM {g : β → α → Traced ε β} (hg : ∀ c a, Balanced d (g c a)) (l : List α)
    (c : β) : Balanced d (l.foldlM g c) := by
  induction l generalizing c with
  | nil => exact .pure d c
  | cons a l ih => exact .bind (hg c a) ih

theorem Releasing.leave (d : Int) (a : α) :
    Releasing d (give >>= fun _ => Pure.pure a : Traced ε α) :=
  Guarded.bind (.give (Int.le_refl d)) (fun _ _ => .pure (Int.le_refl d) rfl)

theorem Releasing.ite {c : Prop} [Decidable c] {x' : Traced ε α} (hx : Releasing d x)
    (hx' : Releasing d x') : Releasing d (if c then x else x') := Guarded.ite hx hx'

theorem Releasing.bind (hx : Balanced (d + 1) x) (hf : ∀ a, Releasing d (f a)) :
    Releasing d (x >>= f) :=
  Guarded.bind (Guarded.lower hx (by omega)) (fun a _ => hf a)

theorem Releasing.access (hd : 0 ≤ d) (hf : ∀ a, Releasing d (f a)) :
    Releasing d (access z >>= f) := .bind (.access (by omega) z) hf

theorem Releasing.plain (hf : ∀ a, Releasing d (f a)) : Releasing d (plain z >>= f) :=
  .bind (.plain _ z) hf

end Balanced

end WirelessGateway.Lib.Locks
