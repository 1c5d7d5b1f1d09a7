import Mathlib.Data.Finmap

namespace WirelessGateway.Lib.Keyed

variable {ι κ ν : Type*} [DecidableEq κ] {key : ι → κ} {val : ι → ν} {l : List ι} {i : ι} {k : κ}

/-- The finite map that a list of items stands for: a key has the value of its
first item. -/
def mapping (key : ι → κ) (val : ι → ν) (l : List ι) : Finmap (fun _ : κ => ν) :=
  (l.map (fun i => ⟨key i, val i⟩)).toFinmap

theorem lookup_mapping (k : κ) :
    (mapping key val l).lookup k = (l.find? (fun i => key i == k)).map val := by
  rw [mapping, Finmap.dlookup_list_toFinmap]
  induction l with
  | nil => rfl
  | cons i l ih =>
      rw [List.map_cons, List.find?_cons]
      by_cases hk : key i = k
      · subst hk
        rw [List.dlookup_cons_eq, beq_self_eq_true]
        rfl
      · rw [List.dlookup_cons_ne _ _ (Ne.symm hk), ih, beq_false_of_ne hk]

theorem mem_mapping : k ∈ mapping key val l ↔ ∃ i ∈ l, key i = k := by
  rw [← Finmap.lookup_isSome, lookup_mapping, Option.isSome_map, List.find?_isSome]
  simp

theorem find_isSome_iff : (l.find? (fun i => key i == k)).isSome ↔ k ∈ mapping key val l := by
  rw [← Finmap.lookup_isSome, lookup_mapping, Option.isSome_map]

theorem mapping_snoc (h : key i ∉ mapping key val l) :
    mapping key val (l ++ [i]) = (mapping key val l).insert (key i) (val i) := by
  refine Finmap.ext_lookup (fun k => ?_)
  rw [lookup_mapping, List.find?_append]
  by_cases hk : k = key i
  · subst hk
    have hnone : l.find? (fun j => key j == key i) = none := by
      rwa [← find_isSome_iff, Option.not_isSome_iff_eq_none] at h
    simp [hnone]
  · rw [Finmap.lookup_insert_of_ne _ hk, lookup_mapping]
    simp [Ne.symm hk]

theorem map_unlink (k : κ) :
    (l.eraseP (fun i => key i == k)).map key = (l.map key).erase k := by
  rw [List.erase_eq_eraseP', List.eraseP_map]
  rfl

theorem find_unlink_ne {j : κ} (hj : j ≠ k) :
    (l.eraseP (fun i => key i == k)).find? (fun i => key i == j) =
      l.find? (fun i => key i == j) := by
  induction l with
  | nil => rfl
  | cons i l ih =>
      by_cases hk : key i = k
      · have hi : key i ≠ j := fun he => hj (he.symm.trans hk)
        simp [hk, hj.symm]
      · simp [hk, List.find?_cons, ih]

theorem mapping_unlink (h : (l.map key).Nodup) :
    mapping key val (l.eraseP (fun i => key i == k)) = (mapping key val l).erase k := by
  refine Finmap.ext_lookup (fun j => ?_)
  by_cases hj : j = k
  · subst hj
    rw [Finmap.lookup_erase, Finmap.lookup_eq_none, mem_mapping]
    rintro ⟨i, hi, he⟩
    have hmem := List.mem_map_of_mem (f := key) hi
    rw [map_unlink, he] at hmem
    exact (h.mem_erase_iff.1 hmem).1 rfl
  · rw [Finmap.lookup_erase_ne hj, lookup_mapping, lookup_mapping, find_unlink_ne hj]

end WirelessGateway.Lib.Keyed
