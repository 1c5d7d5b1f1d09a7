import Mathlib.Logic.Function.Basic
import Mathlib.Data.List.Basic

namespace WirelessGateway.Lib.Replay

variable {κ ν : Type*} [DecidableEq κ] {m : κ → Option ν} {es fs : List (κ × Option ν)} {k : κ}

/-- A map after edits, each of which gives a key a value or takes it away. -/
def replay (m : κ → Option ν) (es : List (κ × Option ν)) : κ → Option ν :=
  es.foldl (fun m e => Function.update m e.1 e.2) m

theorem replay_append : replay m (es ++ fs) = replay (replay m es) fs := by
  rw [replay, List.foldl_append]
  rfl

theorem replay_cases (m : κ → Option ν) (es : List (κ × Option ν)) (k : κ) :
    replay m es k = m k ∨ ∃ e ∈ es, e.1 = k ∧ replay m es k = e.2 := by
  induction es generalizing m with
  | nil => exact Or.inl rfl
  | cons e es ih =>
    rw [show replay m (e :: es) = replay (Function.update m e.1 e.2) es from rfl]
    rcases ih (Function.update m e.1 e.2) with hm | ⟨e', he', hk, hval⟩
    · by_cases hek : e.1 = k
      · refine Or.inr ⟨e, List.mem_cons_self, hek, hm.trans ?_⟩
        rw [← hek, Function.update_self]
      · exact Or.inl (hm.trans (Function.update_of_ne (Ne.symm hek) _ _))
    · exact Or.inr ⟨e', List.mem_cons_of_mem _ he', hk, hval⟩

theorem replay_snoc {ε : Type*} {f : ε → Option (κ × Option ν)} {log : List ε} {e : ε}
    {m' : κ → Option ν} (h : m' = replay (replay m (log.filterMap f)) (f e).toList) :
    m' = replay m ((log ++ [e]).filterMap f) := by
  rw [h, List.filterMap_append, replay_append]
  cases hf : f e with
  | none => simp [hf]
  | some edit => simp [hf]

section Layers

variable {κ ν : Type*} {m : κ → ν} {layers : List (κ → Option ν)}

/-- A map after layers, each of which gives values to some of the keys. -/
def overlay (m : κ → ν) (layers : List (κ → Option ν)) : κ → ν :=
  layers.foldl (fun m layer k => (layer k).getD (m k)) m

theorem overlay_append (more : List (κ → Option ν)) :
    overlay m (layers ++ more) = overlay (overlay m layers) more := by
  rw [overlay, List.foldl_append]
  rfl

theorem overlay_apply (k : κ) :
    overlay m layers k = ((layers.filterMap (fun layer => layer k)).getLast?).getD (m k) := by
  induction layers generalizing m with
  | nil => rfl
  | cons layer layers ih =>
    have hrest := ih (m := fun k => (layer k).getD (m k))
    rw [show overlay m (layer :: layers) = overlay (fun k => (layer k).getD (m k)) layers from rfl, hrest]
    cases hv : layer k with
    | none => simp [hv]
    | some v => cases hl : (layers.filterMap (fun layer => layer k)).getLast? <;> simp [hv, hl, List.getLast?_cons]

end Layers

end WirelessGateway.Lib.Replay
