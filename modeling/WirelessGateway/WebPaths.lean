import Mathlib.Data.List.DropRight
import WirelessGateway.CJson
import WirelessGateway.Lib.CString

namespace WirelessGateway.WebPaths

open CJson Lib.Region Lib.CString

/-- What a call leaves its caller: the buffer, and whether its address or NULL
came back. -/
structure Returned where
  isNull : Bool
  dest : Bytes
  deriving DecidableEq

def shorten (pathlen : Nat) : Option Nat → Nat
  | some found => min pathlen found
  | none => pathlen

def constructPath (dest basePath : Bytes) (basePathlen : Nat) (uri : Bytes) (n : Nat) :
    Except Overrun Bytes := do
  let dest ← strcpy 0 dest 0 basePath
  strlcpy 0 dest basePathlen uri (n + 1)

/-- The lengths are those of texts in a 32-bit memory, and their sums do not
wrap. -/
def getPathFromUri (dest basePath uri : Bytes) (destsize : Nat) : Except Overrun Returned := do
  let basePathlen ← strlen 0 basePath
  let pathlen ← strlen 0 uri
  let quest ← strchr 0 63 uri
  let pathlen := shorten pathlen quest
  let hash ← strchr 0 35 uri
  let pathlen := shorten pathlen hash
  if destsize < basePathlen + pathlen + 1 then pure ⟨true, dest⟩
  else
    let dest ← constructPath dest basePath basePathlen uri pathlen
    pure ⟨false, dest⟩

/-- The turns of the search, from the offset of a separator. None is a search
that has not ended. -/
def lastSep (uri : Bytes) : Nat → Nat → Except Overrun (Option Nat)
  | 0, _ => pure none
  | fuel + 1, sign => do
    let sep := sign + 1
    match ← strchr 0 47 (uri.drop (sep + 1)) with
    | some found => lastSep uri fuel (sep + 1 + found)
    | none => pure (some sep)

def getDirFromUri (dest basePath uri : Bytes) (destsize : Nat) :
    Except Overrun (Option Returned) := do
  let _logged ← text 0 uri
  let basePathlen ← strlen 0 basePath
  match ← lastSep uri uri.length 0 with
  | none => pure none
  | some sep =>
    if destsize < basePathlen + sep + 2 then pure (some ⟨true, dest⟩)
    else
      let dest ← constructPath dest basePath basePathlen uri sep
      pure (some ⟨false, dest⟩)

def filePart (uri : Bytes) : Bytes := uri.takeWhile (fun b => decide (b ≠ 63) && decide (b ≠ 35))

def dirPart (uri : Bytes) : Bytes := uri.rdropWhile (fun b => decide (b ≠ 47))

def slashes (uri : Bytes) : Nat := ((dirPart uri).rtakeWhile (fun b => decide (b = 47))).length

theorem takeWhile_and_length (p q : UInt8 → Bool) (s : Bytes) :
    min (s.takeWhile p).length (s.takeWhile q).length =
      (s.takeWhile (fun b => p b && q b)).length := by
  induction s with
  | nil => rfl
  | cons b s ih =>
      cases hp : p b <;> cases hq : q b <;> simp [hp, hq]
      omega

theorem shorten_text (s : Bytes) (c : UInt8) (pathlen : Nat) (h : pathlen ≤ s.length) :
    shorten pathlen (if c ∈ s then some (s.takeWhile (fun b => decide (b ≠ c))).length else none) =
      min pathlen (s.takeWhile (fun b => decide (b ≠ c))).length := by
  by_cases hc : c ∈ s
  · rw [if_pos hc]
    rfl
  · have hall : s.takeWhile (fun b => decide (b ≠ c)) = s := by
      rw [List.takeWhile_eq_self_iff]
      intro b hb
      exact decide_eq_true (fun he => hc (he ▸ hb))
    rw [if_neg hc, hall, Nat.min_eq_left h]
    rfl

theorem filePart_eq_take (uri : Bytes) : uri.take (filePart uri).length = filePart uri :=
  List.prefix_iff_eq_take.1 (List.takeWhile_prefix _) |>.symm

theorem filePart_length_le (uri : Bytes) : (filePart uri).length ≤ uri.length :=
  (List.takeWhile_sublist _).length_le

theorem constructPath_ok {dest base uri : Bytes} {n : Nat} (hbase : 0 ∉ base) (huri : 0 ∉ uri)
    (hn : n ≤ uri.length) (hfit : base.length + n + 1 ≤ dest.length) (restb restu : Bytes) :
    constructPath dest (base ++ 0 :: restb) base.length (uri ++ 0 :: restu) n =
      .ok (base ++ uri.take n ++ 0 :: dest.drop (base.length + n + 1)) := by
  have hmin : min uri.length (n + 1 - 1) = n := by omega
  have hdrop : (base ++ 0 :: dest.drop (base.length + 1)).drop (base.length + n + 1) =
      dest.drop (base.length + n + 1) := by
    rw [List.drop_append, List.drop_of_length_le (by omega), List.nil_append,
      show base.length + n + 1 - base.length = n + 1 by omega, List.drop_succ_cons, List.drop_drop]
    congr 1
    omega
  rw [constructPath, strcpy_append hbase (by omega)]
  simp only [bind, Except.bind, List.take_zero, List.nil_append, Nat.zero_add]
  rw [strlcpy_append _ _ _ huri (by omega) (by
    simp only [List.length_append, List.length_cons, List.length_drop]
    omega), hmin, Nat.add_sub_cancel, hdrop, List.take_left' rfl]

theorem getPathFromUri_eq {dest base uri : Bytes} {destsize : Nat} (hbase : 0 ∉ base)
    (huri : 0 ∉ uri) (hdest : dest.length = destsize) (restb restu : Bytes) :
    getPathFromUri dest (base ++ 0 :: restb) (uri ++ 0 :: restu) destsize =
      .ok (if destsize < base.length + (filePart uri).length + 1 then ⟨true, dest⟩
        else ⟨false, base ++ filePart uri ++
          0 :: dest.drop (base.length + (filePart uri).length + 1)⟩) := by
  have hlen : shorten (shorten uri.length
      (if 63 ∈ uri then some (uri.takeWhile (fun b => decide (b ≠ 63))).length else none))
      (if 35 ∈ uri then some (uri.takeWhile (fun b => decide (b ≠ 35))).length else none) =
      (filePart uri).length := by
    have hquest := (List.takeWhile_sublist (l := uri) (fun b => decide (b ≠ 63))).length_le
    rw [shorten_text uri 63 _ (Nat.le_refl _), shorten_text uri 35 _ (by omega),
      Nat.min_eq_right hquest]
    exact takeWhile_and_length _ _ uri
  simp only [getPathFromUri, strlen_append hbase, strlen_append huri,
    strchr_append huri (by decide : (0 : UInt8) ≠ 63),
    strchr_append huri (by decide : (0 : UInt8) ≠ 35), bind, Except.bind, hlen]
  by_cases hnull : destsize < base.length + (filePart uri).length + 1
  · rw [if_pos hnull, if_pos hnull]
    rfl
  · rw [if_neg hnull, if_neg hnull]
    rw [constructPath_ok hbase huri (filePart_length_le uri) (by omega), filePart_eq_take]
    rfl

/-- The path of a URI is the base and the part of it that names a file, or
NULL where these and a terminator do not fit. What follows that part of the URI
makes no difference. -/
theorem path_of_uri (dest base uri restb restu : Bytes) (hbase : 0 ∉ base) (huri : 0 ∉ uri) :
    ∃ r, getPathFromUri dest (base ++ 0 :: restb) (uri ++ 0 :: restu) dest.length = .ok r ∧
      (r.isNull = true ↔ dest.length < base.length + (filePart uri).length + 1) ∧
      (r.isNull = true → r.dest = dest) ∧
      (r.isNull = false → r.dest.length = dest.length ∧ text 0 r.dest = .ok (base ++ filePart uri) ∧
        r.dest = base ++ filePart uri ++
          0 :: dest.drop (base.length + (filePart uri).length + 1)) ∧
      ∀ uri' restu', 0 ∉ uri' → filePart uri' = filePart uri →
        getPathFromUri dest (base ++ 0 :: restb) (uri' ++ 0 :: restu') dest.length = .ok r := by
  have hpart : 0 ∉ base ++ filePart uri := by
    rw [List.mem_append, not_or]
    exact ⟨hbase, fun h => huri ((List.takeWhile_sublist _).subset h)⟩
  have hsame : ∀ uri' restu', 0 ∉ uri' → filePart uri' = filePart uri →
      getPathFromUri dest (base ++ 0 :: restb) (uri' ++ 0 :: restu') dest.length =
        getPathFromUri dest (base ++ 0 :: restb) (uri ++ 0 :: restu) dest.length := by
    intro uri' restu' huri' heq
    rw [getPathFromUri_eq hbase huri' rfl, getPathFromUri_eq hbase huri rfl, heq]
  have hrun := getPathFromUri_eq hbase huri (rfl : dest.length = dest.length) restb restu
  by_cases hnull : dest.length < base.length + (filePart uri).length + 1
  · rw [if_pos hnull] at hrun
    exact ⟨_, hrun, by simp [hnull], fun _ => rfl, by simp,
      fun uri' restu' h heq => (hsame uri' restu' h heq).trans hrun⟩
  · rw [if_neg hnull] at hrun
    refine ⟨_, hrun, by simp [hnull], by simp, fun _ => ⟨?_, text_append hpart _, rfl⟩,
      fun uri' restu' h heq => (hsame uri' restu' h heq).trans hrun⟩
    simp only [List.length_append, List.length_cons, List.length_drop]
    omega

theorem path_of_uri_page :
    ∃ r, getPathFromUri (List.replicate 20 7) (bytes ['/', 'l', 'f', 's'] ++ [0])
        (bytes ['/', 'a', '#', 'b', '?'] ++ [0, 9]) 20 = .ok r ∧ r.isNull = false ∧
      text 0 r.dest = .ok (bytes ['/', 'l', 'f', 's', '/', 'a']) := by
  obtain ⟨r, hrun, hnull, -, hfull, -⟩ := path_of_uri (List.replicate 20 7)
    (bytes ['/', 'l', 'f', 's']) (bytes ['/', 'a', '#', 'b', '?']) [] [9] (by decide) (by decide)
  have hr : r.isNull = false := by
    cases h : r.isNull with
    | true => exact absurd (hnull.1 h) (by decide)
    | false => rfl
  exact ⟨r, hrun, hr, (hfull hr).2.1⟩

theorem dirPart_append (s b : Bytes) : dirPart (s ++ 47 :: b) = s ++ dirPart (47 :: b) := by
  have hne : (((47 : UInt8) :: b).reverse.dropWhile (fun b => decide (b ≠ 47))).isEmpty = false := by
    rw [List.isEmpty_eq_false_iff, ne_eq, List.dropWhile_eq_nil_iff]
    intro h
    simpa using h 47 (by simp)
  rw [dirPart, List.rdropWhile, List.reverse_append, List.dropWhile_append, hne]
  simp [dirPart, List.rdropWhile]

theorem dirPart_last {b : Bytes} (h : 47 ∉ b) : dirPart (47 :: b) = [47] := by
  have hall : ∀ x ∈ b.reverse, decide (x ≠ 47) = true := by
    intro x hx
    exact decide_eq_true (fun he => h (he ▸ List.mem_reverse.1 hx))
  rw [dirPart, List.rdropWhile, List.reverse_cons, List.dropWhile_append_of_pos hall]
  simp

theorem dirPart_pos (t : Bytes) : 0 < (dirPart (47 :: t)).length := by
  rw [List.length_pos_iff, dirPart, ne_eq, List.rdropWhile_eq_nil_iff]
  intro h
  simpa using h 47 List.mem_cons_self

theorem dirPart_length_le (uri : Bytes) : (dirPart uri).length ≤ uri.length :=
  (List.rdropWhile_prefix _ _).length_le

theorem dirPart_eq_take (uri : Bytes) : uri.take (dirPart uri).length = dirPart uri :=
  (List.prefix_iff_eq_take.1 (List.rdropWhile_prefix _ _)).symm

/-- A turn of the search passes over a separator and the character behind it,
which keeps the parity of the separators at the end. -/
theorem slashes_turn {c : UInt8} {a b : Bytes} (ha : 47 ∉ a) :
    slashes (47 :: c :: (a ++ 47 :: b)) % 2 = slashes (47 :: b) % 2 := by
  have hdir : dirPart (47 :: c :: (a ++ 47 :: b)) = (47 :: c :: a) ++ dirPart (47 :: b) :=
    dirPart_append (47 :: c :: a) b
  rw [slashes, slashes, hdir, List.rtakeWhile, List.rtakeWhile, List.reverse_append,
    List.takeWhile_append]
  split
  · rename_i hall
    have hback : ((47 :: c :: a).reverse.takeWhile (fun b => decide (b = 47))).length % 2 = 0 := by
      rcases List.eq_nil_or_concat a with rfl | ⟨a, x, rfl⟩
      · by_cases hc : c = 47 <;> simp [hc]
      · have hx : x ≠ 47 := by
          intro he
          exact ha (by simp [he])
        simp [hx]
    simp only [List.length_reverse, List.length_append] at hall ⊢
    omega
  · rfl

theorem lastSep_turn {s t : Bytes} {c : UInt8} {a b : Bytes} (ht : t = c :: (a ++ 47 :: b))
    (hnul : 0 ∉ t) (ha : 47 ∉ a) (rest : Bytes) (fuel : Nat) :
    lastSep (s ++ 47 :: (t ++ 0 :: rest)) (fuel + 1) s.length =
      lastSep (s ++ 47 :: (t ++ 0 :: rest)) fuel (s ++ 47 :: c :: a).length := by
  have hdrop : (s ++ 47 :: (t ++ 0 :: rest)).drop (s.length + 1 + 1) =
      a ++ 47 :: (b ++ 0 :: rest) := by
    rw [List.drop_append, List.drop_of_length_le (by omega), ht,
      show s.length + 1 + 1 - s.length = 2 by omega]
    simp
  have hfree : 0 ∉ a := by
    intro h
    exact hnul (by simp [ht, h])
  rw [lastSep, hdrop, strchr_found ha hfree]
  simp only [bind, Except.bind, List.length_append, List.length_cons]
  congr 1
  omega

theorem lastSep_reaches (rest : Bytes) (n : Nat) :
    ∀ (s t : Bytes) (fuel : Nat), t.length ≤ n → 0 ∉ t → t.length < fuel →
      ∃ s' t' fuel', s' ++ 47 :: t' = s ++ 47 :: t ∧ 47 ∉ t'.tail ∧ 0 ∉ t' ∧
        fuel + s.length ≤ fuel' + s'.length ∧
        slashes (47 :: t') % 2 = slashes (47 :: t) % 2 ∧
        lastSep (s ++ 47 :: (t ++ 0 :: rest)) fuel s.length =
          lastSep (s ++ 47 :: (t ++ 0 :: rest)) fuel' s'.length := by
  induction n with
  | zero =>
      intro s t fuel hn hnul hfuel
      have ht : t = [] := List.length_eq_zero_iff.1 (by omega)
      subst ht
      exact ⟨s, [], fuel, rfl, by simp, hnul, Nat.le_refl _, rfl, rfl⟩
  | succ n ih =>
      intro s t fuel hn hnul hfuel
      by_cases hmore : 47 ∈ t.tail
      · obtain ⟨c, t, rfl⟩ : ∃ c u, t = c :: u := by
          cases t with
          | nil => simp at hmore
          | cons c u => exact ⟨c, u, rfl⟩
        obtain ⟨a, b, hab, ha⟩ := List.eq_append_cons_of_mem hmore
        rw [List.tail_cons] at hab
        subst hab
        obtain ⟨fuel, rfl⟩ : ∃ m, fuel = m + 1 := ⟨fuel - 1, by omega⟩
        simp only [List.length_cons, List.length_append] at hn hfuel
        have hb : 0 ∉ b := fun h => hnul (by simp [h])
        obtain ⟨s', t', fuel', heq, htail, hnul', hleft, hpar, hrun⟩ :=
          ih (s ++ 47 :: c :: a) b fuel (by omega) hb (by omega)
        have hmem : s ++ 47 :: c :: a ++ 47 :: (b ++ 0 :: rest) =
            s ++ 47 :: (c :: (a ++ 47 :: b) ++ 0 :: rest) := by simp
        refine ⟨s', t', fuel', by rw [heq]; simp, htail, hnul', ?_, ?_, ?_⟩
        · simp only [List.length_append, List.length_cons] at hleft
          omega
        · rw [hpar, slashes_turn ha]
        · rw [lastSep_turn rfl hnul ha, ← hmem, hrun]
      · exact ⟨s, t, fuel, rfl, hmore, hnul, Nat.le_refl _, rfl, rfl⟩

theorem lastSep_end {s t : Bytes} {c : UInt8} (ht : 47 ∉ t) (hnul : 0 ∉ t) (rest : Bytes)
    (fuel : Nat) :
    lastSep (s ++ 47 :: (c :: t ++ 0 :: rest)) (fuel + 1) s.length = .ok (some (s.length + 1)) := by
  have hdrop : (s ++ 47 :: (c :: t ++ 0 :: rest)).drop (s.length + 1 + 1) = t ++ 0 :: rest := by
    rw [List.drop_append, List.drop_of_length_le (by omega),
      show s.length + 1 + 1 - s.length = 2 by omega]
    simp
  rw [lastSep, hdrop, strchr_absent ht hnul (by decide)]
  rfl

theorem lastSep_beyond (s rest : Bytes) (fuel : Nat) :
    lastSep (s ++ 47 :: 0 :: rest) (fuel + 1) s.length = (do
      match ← strchr 0 47 rest with
      | some found => lastSep (s ++ 47 :: 0 :: rest) fuel (s.length + 2 + found)
      | none => pure (some (s.length + 1))) := by
  have hdrop : (s ++ 47 :: 0 :: rest).drop (s.length + 1 + 1) = rest := by
    rw [List.drop_append, List.drop_of_length_le (by omega),
      show s.length + 1 + 1 - s.length = 2 by omega]
    simp
  rw [lastSep, hdrop]

theorem slashes_last {c : UInt8} {t : Bytes} (ht : 47 ∉ t) :
    dirPart (47 :: c :: t) = (if c = 47 then [47, 47] else [47]) ∧
      slashes (47 :: c :: t) = if c = 47 then 2 else 1 := by
  have hdir : dirPart (47 :: c :: t) = if c = 47 then [47, 47] else [47] := by
    by_cases hc : c = 47
    · subst hc
      rw [if_pos rfl, show (47 : UInt8) :: 47 :: t = [47] ++ 47 :: t from rfl, dirPart_append,
        dirPart_last ht]
      rfl
    · rw [if_neg hc, dirPart_last]
      rw [List.mem_cons, not_or]
      exact ⟨fun he => hc he.symm, ht⟩
  refine ⟨hdir, ?_⟩
  rw [slashes, hdir]
  by_cases hc : c = 47 <;> simp [hc, List.rtakeWhile]

theorem lastSep_whole {t : Bytes} (hnul : 0 ∉ t) (rest : Bytes) :
    ∃ s' t' fuel, 47 :: t = s' ++ 47 :: t' ∧ 47 ∉ t'.tail ∧ 0 ∉ t' ∧ rest.length < fuel ∧
      slashes (47 :: t) % 2 = slashes (47 :: t') % 2 ∧
      lastSep (47 :: t ++ 0 :: rest) (47 :: t ++ 0 :: rest).length 0 =
        lastSep (s' ++ 47 :: (t' ++ 0 :: rest)) (fuel + 1) s'.length := by
  have hmore : t.length < (47 :: t ++ 0 :: rest).length := by
    simp only [List.length_append, List.length_cons]
    omega
  obtain ⟨s', t', fuel, heq, htail, hnul', hleft, hpar, hrun⟩ :=
    lastSep_reaches rest t.length [] t _ (Nat.le_refl _) hnul hmore
  have hlen := congrArg List.length heq
  simp only [List.nil_append, List.length_nil, List.length_append, List.length_cons] at hleft hlen
  have hmem : ([] : Bytes) ++ 47 :: (t ++ 0 :: rest) = s' ++ 47 :: (t' ++ 0 :: rest) := by
    have h := congrArg (fun u => u ++ 0 :: rest) heq
    simpa using h.symm
  refine ⟨s', t', fuel - 1, heq.symm, htail, hnul', by omega, hpar.symm, ?_⟩
  rw [Nat.sub_add_cancel (by omega), ← hmem]
  exact hrun

/-- The search stays inside the URI, unless the last of an odd number of
separators ends it. Of an even number it leaves out the last. -/
theorem lastSep_inside {t : Bytes} (hnul : 0 ∉ t) (rest : Bytes)
    (hin : slashes (47 :: t) % 2 = 1 → (dirPart (47 :: t)).length < (47 :: t).length) :
    lastSep (47 :: t ++ 0 :: rest) (47 :: t ++ 0 :: rest).length 0 =
      .ok (some (if slashes (47 :: t) % 2 = 1 then (dirPart (47 :: t)).length
        else (dirPart (47 :: t)).length - 1)) := by
  obtain ⟨s', t', fuel, heq, htail, hnul', -, hpar, hrun⟩ := lastSep_whole hnul rest
  rw [hrun, hpar, heq, dirPart_append]
  rw [hpar, heq, dirPart_append] at hin
  cases t' with
  | nil =>
      have hdir : dirPart [47] = [47] := dirPart_last (by simp)
      have hone : slashes [47] = 1 := by
        rw [slashes, hdir]
        rfl
      rw [hone, hdir] at hin
      simp at hin
  | cons c t' =>
      rw [List.tail_cons] at htail
      obtain ⟨hdir, hnum⟩ := slashes_last (c := c) htail
      have hfree : 0 ∉ t' := fun h => hnul' (by simp [h])
      rw [lastSep_end htail hfree, hdir, hnum]
      by_cases hc : c = 47 <;> simp [hc]

theorem lastSep_outside {t : Bytes} (hnul : 0 ∉ t) (rest : Bytes)
    (hodd : slashes (47 :: t) % 2 = 1)
    (hend : (dirPart (47 :: t)).length = (47 :: t).length) :
    ∃ s fuel, 47 :: t = s ++ [47] ∧ rest.length < fuel ∧
      lastSep (47 :: t ++ 0 :: rest) (47 :: t ++ 0 :: rest).length 0 =
        lastSep (s ++ 47 :: 0 :: rest) (fuel + 1) s.length := by
  obtain ⟨s', t', fuel, heq, htail, hnul', hfuel, hpar, hrun⟩ := lastSep_whole hnul rest
  rw [hpar] at hodd
  rw [heq, dirPart_append] at hend
  cases t' with
  | nil => exact ⟨s', fuel, heq, hfuel, hrun⟩
  | cons c t' =>
      rw [List.tail_cons] at htail
      obtain ⟨hdir, hnum⟩ := slashes_last (c := c) htail
      rw [hnum] at hodd
      rw [hdir] at hend
      by_cases hc : c = 47 <;> simp [hc] at hodd hend

theorem getDirFromUri_sep {dest base uri : Bytes} {sep : Nat} (hbase : 0 ∉ base)
    (huri : 0 ∉ uri) (restb restu : Bytes) (hsep : sep ≤ uri.length)
    (hrun : lastSep (uri ++ 0 :: restu) (uri ++ 0 :: restu).length 0 = .ok (some sep)) :
    getDirFromUri dest (base ++ 0 :: restb) (uri ++ 0 :: restu) dest.length =
      .ok (some (if dest.length < base.length + sep + 2 then ⟨true, dest⟩
        else ⟨false, base ++ uri.take sep ++ 0 :: dest.drop (base.length + sep + 1)⟩)) := by
  simp only [getDirFromUri, text_append huri, strlen_append hbase, bind, Except.bind, hrun]
  by_cases hnull : dest.length < base.length + sep + 2
  · rw [if_pos hnull, if_pos hnull]
    rfl
  · rw [if_neg hnull, if_neg hnull]
    rw [constructPath_ok hbase huri hsep (by omega)]
    rfl

theorem getDirFromUri_inside (dest : Bytes) {base t : Bytes} (hbase : 0 ∉ base) (hnul : 0 ∉ 47 :: t)
    (restb restu : Bytes)
    (hin : slashes (47 :: t) % 2 = 1 → (dirPart (47 :: t)).length < (47 :: t).length) :
    getDirFromUri dest (base ++ 0 :: restb) (47 :: t ++ 0 :: restu) dest.length =
      .ok (some (if slashes (47 :: t) % 2 = 1 then
          if dest.length < base.length + (dirPart (47 :: t)).length + 2 then ⟨true, dest⟩
          else ⟨false, base ++ dirPart (47 :: t) ++
            0 :: dest.drop (base.length + (dirPart (47 :: t)).length + 1)⟩
        else
          if dest.length < base.length + (dirPart (47 :: t)).length + 1 then ⟨true, dest⟩
          else ⟨false, base ++ (47 :: t).take ((dirPart (47 :: t)).length - 1) ++
            0 :: dest.drop (base.length + (dirPart (47 :: t)).length)⟩)) := by
  have hfree : 0 ∉ t := fun h => hnul (List.mem_cons_of_mem _ h)
  have hpos := dirPart_pos t
  have hle := dirPart_length_le (47 :: t)
  have hsep := lastSep_inside hfree restu hin
  split at hsep
  · rename_i hodd
    rw [getDirFromUri_sep hbase hnul restb restu hle hsep, if_pos hodd, dirPart_eq_take]
  · rename_i heven
    rw [getDirFromUri_sep hbase hnul restb restu (by omega) hsep, if_neg heven,
      show base.length + ((dirPart (47 :: t)).length - 1) + 2 =
        base.length + (dirPart (47 :: t)).length + 1 by omega,
      show base.length + ((dirPart (47 :: t)).length - 1) + 1 =
        base.length + (dirPart (47 :: t)).length by omega]

def NamesDirectory (dest base uri : Bytes) (run : Except Overrun (Option Returned)) : Prop :=
  ∃ r, run = .ok (some r) ∧
    (r.isNull = true ↔ dest.length < base.length + (dirPart uri).length + 1) ∧
    (r.isNull = false → text 0 r.dest = .ok (base ++ dirPart uri))

theorem namesDirectory_null (dest dest' base uri : Bytes) :
    NamesDirectory dest base uri (.ok (some ⟨true, dest'⟩)) ↔
      dest.length < base.length + (dirPart uri).length + 1 := by
  simp [NamesDirectory]

theorem namesDirectory_text {dest base uri s : Bytes} (hs : 0 ∉ base ++ s) (rest : Bytes) :
    NamesDirectory dest base uri (.ok (some ⟨false, base ++ s ++ 0 :: rest⟩)) ↔
      base.length + (dirPart uri).length + 1 ≤ dest.length ∧ s = dirPart uri := by
  simp only [NamesDirectory, Except.ok.injEq, Option.some.injEq, exists_eq_left',
    text_append hs, List.append_cancel_left_eq, Bool.false_eq_true, false_iff, Nat.not_lt,
    forall_const]

theorem namesDirectory_inside {dest base t : Bytes} (restb : Bytes) (hbase : 0 ∉ base)
    (huri : 0 ∉ 47 :: t)
    (hin : slashes (47 :: t) % 2 = 1 → (dirPart (47 :: t)).length < (47 :: t).length) :
    NamesDirectory dest base (47 :: t)
        (getDirFromUri dest (base ++ 0 :: restb) (47 :: t ++ [0]) dest.length) ↔
      (slashes (47 :: t) % 2 = 1 ∧ dest.length ≠ base.length + (dirPart (47 :: t)).length + 1) ∨
      (slashes (47 :: t) % 2 = 0 ∧ dest.length < base.length + (dirPart (47 :: t)).length + 1) := by
  have hpos := dirPart_pos t
  have hle := dirPart_length_le (47 :: t)
  have htake : ∀ n, 0 ∉ base ++ (47 :: t).take n := by
    intro n
    rw [List.mem_append, not_or]
    exact ⟨hbase, fun h => huri (List.mem_of_mem_take h)⟩
  rw [getDirFromUri_inside dest hbase huri restb [] hin]
  split
  · rename_i hodd
    have hdir := htake (dirPart (47 :: t)).length
    rw [dirPart_eq_take] at hdir
    split
    · rw [namesDirectory_null]
      omega
    · rw [namesDirectory_text hdir, and_iff_left rfl]
      omega
  · split
    · rw [namesDirectory_null]
      omega
    · rw [namesDirectory_text (htake _)]
      have hshort : (47 :: t).take ((dirPart (47 :: t)).length - 1) ≠ dirPart (47 :: t) := by
        intro h
        have := congrArg List.length h
        rw [List.length_take] at this
        omega
      simp only [hshort, and_false, false_iff]
      omega

theorem getDirFromUri_outside {base t : Bytes} (dest restb : Bytes) (hbase : 0 ∉ base)
    (huri : 0 ∉ 47 :: t) (hodd : slashes (47 :: t) % 2 = 1)
    (hend : (dirPart (47 :: t)).length = (47 :: t).length) :
    getDirFromUri dest (base ++ 0 :: restb) (47 :: t ++ [0]) dest.length = .error .read := by
  have hfree : 0 ∉ t := fun h => huri (List.mem_cons_of_mem _ h)
  obtain ⟨s, fuel, -, -, hrun⟩ := lastSep_outside hfree [] hodd hend
  rw [lastSep_beyond] at hrun
  simp only [getDirFromUri, text_append huri, strlen_append hbase, bind, Except.bind, hrun]
  rfl

/-- The memory of the URI ends with its terminator. The directory comes out
where an odd number of separators stands in front of a name and the buffer is
not an exact fit, or where an even number does and NULL is right. -/
theorem dir_of_uri (dest base uri restb : Bytes) (hbase : 0 ∉ base) (huri : 0 ∉ uri)
    (hstart : uri.head? = some 47) :
    NamesDirectory dest base uri
        (getDirFromUri dest (base ++ 0 :: restb) (uri ++ [0]) dest.length) ↔
      (slashes uri % 2 = 1 ∧ (dirPart uri).length < uri.length ∧
        dest.length ≠ base.length + (dirPart uri).length + 1) ∨
      (slashes uri % 2 = 0 ∧ dest.length < base.length + (dirPart uri).length + 1) := by
  obtain ⟨t, rfl⟩ : ∃ t, uri = 47 :: t := by
    cases uri with
    | nil => simp at hstart
    | cons b t => exact ⟨t, by simpa using hstart⟩
  have hle := dirPart_length_le (47 :: t)
  by_cases hin : slashes (47 :: t) % 2 = 1 → (dirPart (47 :: t)).length < (47 :: t).length
  · rw [namesDirectory_inside restb hbase huri hin]
    constructor
    · rintro (⟨hodd, hexact⟩ | heven)
      · exact Or.inl ⟨hodd, hin hodd, hexact⟩
      · exact Or.inr heven
    · rintro (⟨hodd, -, hexact⟩ | heven)
      · exact Or.inl ⟨hodd, hexact⟩
      · exact Or.inr heven
  · obtain ⟨hodd, hend⟩ : slashes (47 :: t) % 2 = 1 ∧
        (dirPart (47 :: t)).length = (47 :: t).length := by omega
    rw [getDirFromUri_outside dest restb hbase huri hodd hend]
    constructor
    · rintro ⟨r, hr, -⟩
      cases hr
    · omega

theorem dir_of_uri_page :
    NamesDirectory (List.replicate 20 7) (bytes ['/', 'l', 'f', 's']) (bytes ['/', 'a', '/', 'b'])
      (getDirFromUri (List.replicate 20 7) (bytes ['/', 'l', 'f', 's'] ++ [0])
        (bytes ['/', 'a', '/', 'b'] ++ [0]) 20) :=
  (dir_of_uri (List.replicate 20 7) (bytes ['/', 'l', 'f', 's']) (bytes ['/', 'a', '/', 'b']) []
    (by decide) (by decide) (by decide)).2 (Or.inl (by decide))

/-- The directory of a lone separator is looked for behind its terminator. -/
theorem dir_of_root_overruns :
    getDirFromUri (List.replicate 256 0) (bytes ['/', 'l', 'f', 's'] ++ [0]) ([47] ++ [0]) 256 =
        .error .read ∧
      ¬ NamesDirectory (List.replicate 256 0) (bytes ['/', 'l', 'f', 's']) [47]
        (getDirFromUri (List.replicate 256 0) (bytes ['/', 'l', 'f', 's'] ++ [0])
          ([47] ++ [0]) 256) := by
  have hrun : getDirFromUri (List.replicate 256 0) (bytes ['/', 'l', 'f', 's'] ++ [0])
      ([47] ++ [0]) 256 = .error .read := by rfl
  refine ⟨hrun, ?_⟩
  rw [hrun]
  rintro ⟨r, hr, -⟩
  cases hr

end WirelessGateway.WebPaths
