import Mathlib.Data.List.Sort

namespace WirelessGateway.Lib.History

variable {ε κ : Type*} [LinearOrder κ]

/-- The keyed events of a history come in increasing order of their keys. -/
def Increasing (key : ε → Option κ) (h : List ε) : Prop := (h.filterMap key).Pairwise (· < ·)

variable {key key' : ε → Option κ} {h l : List ε}

theorem Increasing.nil : Increasing key ([] : List ε) := List.Pairwise.nil

theorem Increasing.aside (hi : Increasing key h) (hl : ∀ e ∈ l, key e = none) :
    Increasing key (h ++ l) := by
  rw [Increasing, List.filterMap_append, List.filterMap_eq_nil_iff.2 hl, List.append_nil]
  exact hi

theorem Increasing.snoc (hi : Increasing key h) {e : ε} {k : κ} (he : key e = some k)
    (hlt : ∀ e' ∈ h, ∀ k', key e' = some k' → k' < k) : Increasing key (h ++ [e]) := by
  rw [Increasing, List.filterMap_append, List.pairwise_append]
  refine ⟨hi, by simp [he], ?_⟩
  intro k' hk' k'' hk''
  obtain ⟨e', hm, hke⟩ := List.mem_filterMap.1 hk'
  have : k'' = k := by simpa [he, eq_comm] using hk''
  exact this ▸ hlt e' hm k' hke

theorem Increasing.eq (hi : Increasing key h) {e e' : ε} {k : κ} (hm : e ∈ h) (hm' : e' ∈ h)
    (he : key e = some k) (he' : key e' = some k) : e = e' := by
  induction h with
  | nil => cases hm
  | cons a as ih =>
      -- an event behind one with the same key would have a greater key
      have hfirst : ∀ e'' ∈ as, key e'' = some k → key a ≠ some k := by
        intro e'' hin hk ha
        rw [Increasing, List.filterMap_cons_some ha, List.pairwise_cons] at hi
        exact lt_irrefl k (hi.1 k (List.mem_filterMap.2 ⟨e'', hin, hk⟩))
      have htail : Increasing key as := hi.sublist ((List.sublist_cons_self a as).filterMap key)
      rcases List.mem_cons.1 hm with ha | hm
      · rcases List.mem_cons.1 hm' with ha' | hm'
        · rw [ha, ha']
        · exact absurd (ha ▸ he) (hfirst _ hm' he')
      · rcases List.mem_cons.1 hm' with ha' | hm'
        · exact absurd (ha' ▸ he') (hfirst _ hm he)
        · exact ih htail hm hm'

theorem Increasing.restrict (hi : Increasing key h)
    (hk : ∀ e k, key' e = some k → key e = some k) : Increasing key' h := by
  induction h with
  | nil => exact .nil
  | cons a as ih =>
      have htail : Increasing key as := hi.sublist ((List.sublist_cons_self a as).filterMap key)
      cases ha : key' a with
      | none =>
          rw [Increasing, List.filterMap_cons_none ha]
          exact ih htail
      | some k =>
          rw [Increasing, List.filterMap_cons_some (hk a k ha), List.pairwise_cons] at hi
          rw [Increasing, List.filterMap_cons_some ha, List.pairwise_cons]
          refine ⟨fun k' hm => hi.1 k' ?_, ih htail⟩
          obtain ⟨e, he, hke⟩ := List.mem_filterMap.1 hm
          exact List.mem_filterMap.2 ⟨e, he, hk e k' hke⟩

theorem Increasing.count_le_one (hi : Increasing key h) (k : κ) :
    (h.filterMap key).count k ≤ 1 :=
  List.nodup_iff_count_le_one.1 (hi.imp (fun hlt => ne_of_lt hlt)) k

theorem Increasing.sublist_keys (hi : Increasing key h) (hi' : Increasing key' l)
    (hsub : ∀ e ∈ h, ∀ k, key e = some k → ∃ e' ∈ l, key' e' = some k) :
    (h.filterMap key).Sublist (l.filterMap key') := by
  refine List.sublist_of_subperm_of_pairwise (r := (· < ·)) ?_ hi hi'
  have hnodup : (h.filterMap key).Nodup := hi.imp (fun hlt => ne_of_lt hlt)
  refine List.subperm_of_subset hnodup (fun k hk => ?_)
  obtain ⟨e, he, hk⟩ := List.mem_filterMap.1 hk
  obtain ⟨e', he', hk'⟩ := hsub e he k hk
  exact List.mem_filterMap.2 ⟨e', he', hk'⟩

end WirelessGateway.Lib.History
