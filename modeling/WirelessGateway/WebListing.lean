import WirelessGateway.WebServer

namespace WirelessGateway.WebListing

open CJson WebPaths WebFiles WebServer Lib.Runs Lib.Text Lib.CString Lib.Region

theorem lastSep_pos {uri : Bytes} {sep : Nat} {fuel : Nat} :
    ∀ {sign : Nat}, lastSep uri fuel sign = .ok (some sep) → 1 ≤ sep := by
  induction fuel with
  | zero =>
      intro sign h
      cases h
  | succ fuel ih =>
      intro sign h
      simp only [lastSep, bind, Except.bind] at h
      split at h
      · cases h
      · split at h
        · exact ih h
        · cases h
          exact Nat.succ_pos sign

theorem constructPath_cut {dest base uri : Bytes} {n : Nat} (hbase : 0 ∉ base) (huri : 0 ∉ uri)
    (hfit : base.length + n + 1 ≤ dest.length) (restb restu : Bytes) :
    ∃ rest, constructPath dest (base ++ 0 :: restb) base.length (uri ++ 0 :: restu) n =
        .ok (base ++ uri.take n ++ 0 :: rest) ∧
      (base ++ uri.take n ++ 0 :: rest).length = dest.length := by
  rw [constructPath, strcpy_append hbase (by omega)]
  simp only [bind, Except.bind, List.take_zero, List.nil_append, Nat.zero_add]
  rw [strlcpy_append _ _ _ huri (show 0 < n + 1 from Nat.succ_pos n) (by
    simp only [List.length_append, List.length_cons, List.length_drop]
    omega), Nat.add_sub_cancel, List.take_left' rfl]
  refine ⟨_, rfl, ?_⟩
  simp only [List.length_append, List.length_cons, List.length_take, List.length_drop]
  omega

theorem getDirFromUri_begins {dest uri behind : Bytes} {r : Returned} (huri : 0 ∉ uri)
    (hdest : dest.length = filePathMax) (hnull : r.isNull = false)
    (h : getDirFromUri dest basePath (uri ++ 0 :: behind) filePathMax = .ok (some r)) :
    ∃ n rest, 1 ≤ n ∧ r = ⟨false, bytes ['/', 'l', 'f', 's'] ++ uri.take n ++ 0 :: rest⟩ ∧
      (bytes ['/', 'l', 'f', 's'] ++ uri.take n ++ 0 :: rest).length = filePathMax := by
  simp only [getDirFromUri, basePath, text_append huri, strlen_append basePath_free, bind,
    Except.bind] at h
  split at h
  · cases h
  · next found hlast =>
    cases found with
    | none => cases h
    | some sep =>
      dsimp only at h
      rw [basePath_length] at h
      split at h
      · cases h
        cases hnull
      · next hroom =>
        obtain ⟨rest, hcopy, hlen⟩ := constructPath_cut (n := sep) basePath_free huri
          (by rw [hdest, basePath_length]; omega) [] behind
        rw [← basePath_length, hcopy] at h
        cases h
        exact ⟨sep, rest, lastSep_pos hlast, rfl, hlen.trans hdest⟩

def rowPath (row : Row) : Bytes := bytes ['/', 'l', 'f', 's'] ++ row.delete.drop 7

structure Names (disk : Disk) (row : Row) (path : Bytes) : Prop where
  free : 0 ∉ path
  fits : path.length + 1 ≤ filePathMax
  size : ∃ node, disk.node path = some node ∧ row.size = decimal node.size
  delete : row.delete = bytes ['/', 'd', 'e', 'l', 'e', 't', 'e'] ++ path.drop 4
  href : row.isDir = false → row.href = path.drop 4

section Rows

variable {disk : Disk} {uri dirpath : Bytes}

theorem listEntry_row {list list' : Bytes × List Row} {ent : DirEnt} (hfree : 0 ∉ dirpath)
    (hroom : dirpath.length < filePathMax) (hlist : Holds dirpath list.1)
    (h : listEntry disk uri dirpath.length list ent = .ok list') :
    list'.2 = list.2 ∨ ∃ row path, list'.2 = list.2 ++ [row] ∧ dirpath <+: path ∧ Names disk row path := by
  obtain ⟨⟨rest, hmem⟩, hlen⟩ := hlist
  have hcopy := strlcpy_append list.1 dirpath.length (filePathMax - dirpath.length)
    ent.terminated (by omega) (by omega) []
  have htake : list.1.take dirpath.length = dirpath := by
    rw [← hmem, List.take_left' rfl]
  rw [htake] at hcopy
  have htext : 0 ∉ dirpath ++ ent.name.take (filePathMax - dirpath.length - 1) := by
    rw [List.mem_append, not_or]
    exact ⟨hfree, fun hm => ent.terminated (List.mem_of_mem_take hm)⟩
  simp only [listEntry, hcopy, within, bind, Except.bind, text_append htext] at h
  split at h
  · cases h
    exact .inl rfl
  · next node hnode =>
    cases h
    refine .inr ⟨_, _, rfl, List.prefix_append _ _, htext, ?_, ⟨node, hnode, rfl⟩, rfl, fun hd => ?_⟩
    · rw [List.length_append, List.length_take]
      omega
    · dsimp only at hd
      rw [if_neg (by simp [hd])]

theorem listEntries_rows {entries : List DirEnt} (hfree : 0 ∉ dirpath)
    (hroom : dirpath.length < filePathMax) : ∀ {list list' : Bytes × List Row}, Holds dirpath list.1 →
      (∀ row ∈ list.2, ∃ path, dirpath <+: path ∧ Names disk row path) →
      entries.foldlM (listEntry disk uri dirpath.length) list = .ok list' →
      ∀ row ∈ list'.2, ∃ path, dirpath <+: path ∧ Names disk row path := by
  induction entries with
  | nil =>
      intro list list' _ hrows h
      cases h
      exact hrows
  | cons ent entries ih =>
      intro list list' hlist hrows h
      obtain ⟨next, hnext, hholds⟩ := listEntry_ok hfree hroom hlist disk uri ent
      rw [List.foldlM_cons, hnext] at h
      refine ih hholds ?_ h
      intro row hrow
      rcases listEntry_row hfree hroom hlist hnext with heq | ⟨new, path, heq, hpath, hnames⟩
      · rw [heq] at hrow
        exact hrows row hrow
      · rw [heq, List.mem_append, List.mem_singleton] at hrow
        rcases hrow with hold | rfl
        · exact hrows row hold
        · exact ⟨path, hpath, hnames⟩

theorem exploreDir_rows {rest : Bytes} {rows : List Row} {opens : Bool} (hfree : 0 ∉ dirpath)
    (hlen : (dirpath ++ 0 :: rest).length = filePathMax)
    (h : exploreDir disk uri ⟨false, dirpath ++ 0 :: rest⟩ opens = .ok (.listing rows)) :
    ∀ row ∈ rows, ∃ path, dirpath <+: path ∧ Names disk row path := by
  have hroom : dirpath.length + 1 ≤ filePathMax := by
    rw [List.length_append, List.length_cons] at hlen
    omega
  have hcopy := strlcpy_append (dirpath ++ 0 :: rest) 0 filePathMax hfree (by omega) (by omega) rest
  simp only [exploreDir, Returned.pointer, Bool.false_eq_true, if_false, nameAt,
    text_append hfree, hcopy, within, bind, Except.bind] at h
  split at h
  · cases h
  · split at h
    · cases h
    · next entries _ list hrun =>
      cases h
      refine listEntries_rows hfree hroom ?_ (by simp) hrun
      have htake : dirpath.take (filePathMax - 1) = dirpath := List.take_of_length_le (by omega)
      rw [htake, List.take_zero, List.nil_append]
      refine ⟨List.prefix_append _ _, ?_⟩
      simp only [List.length_append, List.length_cons, List.length_drop] at hlen ⊢
      omega

end Rows

theorem dirHttpHandler_rows {disk : Disk} {stack : PathBuf} {req : Request} {opens : Bool}
    {rows : List Row} (huri : 0 ∉ req.uri) (hpart : (req.uri.drop 4).head? = some 47)
    (h : dirHttpHandler disk stack req opens = .ok (some (.listing rows))) :
    ∀ row ∈ rows, ∃ path, bytes ['/', 'l', 'f', 's', '/'] <+: path ∧ Names disk row path := by
  have hfree : 0 ∉ req.uri.drop 4 := fun h => huri (List.mem_of_mem_drop h)
  obtain ⟨t, ht, hmem⟩ := dir_part req hpart
  rw [ht] at hfree
  simp only [dirHttpHandler, hmem, bind, Except.bind] at h
  cases hdir : getDirFromUri stack.1 basePath (47 :: t ++ 0 :: req.behind) filePathMax with
  | error access =>
    rw [hdir] at h
    cases h
  | ok found =>
    rw [hdir] at h
    cases found with
    | none => cases h
    | some r =>
      dsimp only [within] at h
      cases hnull : r.isNull with
      | true =>
        rw [exploreDir_null hnull] at h
        cases h
      | false =>
        obtain ⟨n, rest, hpos, rfl, hlen⟩ := getDirFromUri_begins hfree stack.2 hnull hdir
        have hbase : 0 ∉ bytes ['/', 'l', 'f', 's'] ++ (47 :: t).take n := by
          rw [List.mem_append, not_or]
          exact ⟨basePath_free, fun h => hfree (List.mem_of_mem_take h)⟩
        cases hexplore : exploreDir disk req.uri
            ⟨false, bytes ['/', 'l', 'f', 's'] ++ (47 :: t).take n ++ 0 :: rest⟩ opens with
        | error fault =>
          rw [hexplore] at h
          cases h
        | ok answer =>
          rw [hexplore] at h
          cases h
          intro row hrow
          obtain ⟨path, hpath, hnames⟩ := exploreDir_rows hbase hlen hexplore row hrow
          refine ⟨path, List.IsPrefix.trans ?_ hpath, hnames⟩
          obtain ⟨n, rfl⟩ : ∃ m, n = m + 1 := ⟨n - 1, by omega⟩
          rw [List.take_succ_cons]
          exact ⟨t.take n, rfl⟩

theorem names_listed {disk : Disk} {entries : Bytes → List DirEnt} {row : Row} {path : Bytes}
    (h : Names (listed disk entries) row path) : Names disk row path := by
  refine ⟨h.free, h.fits, ?_, h.delete, h.href⟩
  obtain ⟨node, hnode, hsize⟩ := h.size
  rw [listed] at hnode
  dsimp only at hnode
  split at hnode
  · next old hold =>
    cases hnode
    exact ⟨_, hold, hsize⟩
  · exact ⟨node, hnode, hsize⟩

section Links

variable {uriMatch : Bytes → Bytes → Bool} {disk : Disk} {x y : Server} {c : Call} {path : Bytes}

/-- A link leads back to its path unless that has a character which ends the
path of a URI: names are not escaped. -/
theorem link_names (hbase : bytes ['/', 'l', 'f', 's', '/'] <+: path) :
    fileName (path.drop 4) = path ↔ 63 ∉ path ∧ 35 ∉ path := by
  obtain ⟨rest, rfl⟩ := hbase
  have hdrop : (bytes ['/', 'l', 'f', 's', '/'] ++ rest).drop 4 = 47 :: rest := rfl
  have hpath : bytes ['/', 'l', 'f', 's', '/'] ++ rest = bytes ['/', 'l', 'f', 's'] ++ 47 :: rest := rfl
  rw [hdrop, hpath, fileName, List.append_cancel_left_eq, filePart, List.takeWhile_eq_self_iff]
  constructor
  · intro hall
    have hrest : ∀ b ∈ rest, b ≠ 63 ∧ b ≠ 35 := by
      intro b hb
      simpa using hall b (List.mem_cons_of_mem _ hb)
    refine ⟨fun h => ?_, fun h => ?_⟩
    · rcases List.mem_append.1 h with h | h
      · exact absurd h (by decide)
      · rcases List.mem_cons.1 h with h | h
        · exact absurd h (by decide)
        · exact (hrest 63 h).1 rfl
    · rcases List.mem_append.1 h with h | h
      · exact absurd h (by decide)
      · rcases List.mem_cons.1 h with h | h
        · exact absurd h (by decide)
        · exact (hrest 35 h).2 rfl
  · rintro ⟨hquest, hhash⟩ b hb
    have hmem : b ∈ bytes ['/', 'l', 'f', 's'] ++ 47 :: rest := List.mem_append_right _ hb
    rw [Bool.and_eq_true, decide_eq_true_eq, decide_eq_true_eq]
    exact ⟨fun h => hquest (h ▸ hmem), fun h => hhash (h ▸ hmem)⟩

theorem deletePostHandler_there {stack : PathBuf} {req : Request} (huri : 0 ∉ req.uri)
    (hn : 7 ≤ req.uri.length) (hfits : (fileName (req.uri.drop 7)).length + 1 ≤ filePathMax)
    (hlast : (fileName (req.uri.drop 7)).getLast? ≠ some 47)
    (hthere : (disk.node (fileName (req.uri.drop 7))).isSome = true) :
    deletePostHandler disk stack req =
      .ok (.seeOther "File deleted successfully", disk.unlink (fileName (req.uri.drop 7))) := by
  have hfree : 0 ∉ req.uri.drop 7 := fun h => huri (List.mem_of_mem_drop h)
  rw [deletePostHandler, request_path huri hn, if_neg (Nat.not_lt_of_le hfits)]
  simp only [bind, Except.bind, text_append (fileName_free hfree), within, Bool.false_eq_true, if_false]
  rw [if_neg hlast, if_neg (by simpa using Option.isSome_iff_ne_none.1 hthere)]
  rfl

def Deletes (uriMatch : Bytes → Bytes → Bool) (disk : Disk) (y : Server) (link path : Bytes) : Prop :=
  ∀ g : Call, g.method = .post → g.req.uri = link →
    (machine uriMatch disk).Step y g ⟨unlinked y.disk (y.disk.unlink path),
      y.log ++ [entry g .delete (.seeOther "File deleted successfully")]⟩

/-- A GET of the link, when no call fails, gives the file at the path. -/
def Serves (uriMatch : Bytes → Bytes → Bool) (disk : Disk) (y : Server) (link path : Bytes) : Prop :=
  ∀ g : Call, g.method = .get → g.req.uri = link →
    g.serving.opens = true ∧ g.serving.mallocs = true ∧ (∀ i, g.serving.sends i = true) →
    ∀ content, y.disk.node path = some (.file content) →
      (machine uriMatch disk).Step y g
        ⟨y.disk, y.log ++ [entry g .common (.file (contentType path) content)]⟩

theorem delete_link (hw : Wildcard uriMatch) {row : Row} (hnames : Names y.disk row path)
    (hbase : bytes ['/', 'l', 'f', 's', '/'] <+: path) (hlink : fileName (path.drop 4) = path)
    (hlast : path.getLast? ≠ some 47) : Deletes uriMatch disk y row.delete path := by
  intro g hpost huri
  rw [hnames.delete] at huri
  have hdrop : g.req.uri.drop 7 = path.drop 4 := by
    rw [huri]
    rfl
  have hpart : fileName (g.req.uri.drop 7) = path := by rw [hdrop, hlink]
  obtain ⟨rest, hrest⟩ := hbase
  have hfile : filePart g.req.uri = deletePrefix ++ filePart rest := by
    have hsplit : g.req.uri = deletePrefix ++ rest := by
      rw [huri, ← hrest]
      rfl
    rw [hsplit, filePart_append (by decide)]
  have hr : route uriMatch g.method g.req.uri = some .delete := by
    have hup : ¬ uploadPrefix <+: deletePrefix ++ filePart rest := by
      rintro ⟨tail, htail⟩
      simp [uploadPrefix, deletePrefix, bytes] at htail
    rw [hpost, route_post hw, hfile, if_neg hup, if_pos (List.prefix_append _ _)]
  obtain ⟨node, hnode, -⟩ := hnames.size
  apply serve_ok hr
  rw [handle, deletePostHandler_there g.free (routed_part hw hr) (by rw [hpart]; exact hnames.fits)
    (by rw [hpart]; exact hlast) (by rw [hpart, hnode]; rfl), hpart]
  rfl

theorem href_link (hw : Wildcard uriMatch) {row : Row} (hnames : Names y.disk row path)
    (hbase : bytes ['/', 'l', 'f', 's', '/'] <+: path) (hlink : fileName (path.drop 4) = path)
    (hfile : row.isDir = false) (hdir : ¬ dirPrefix <+: path.drop 4) :
    Serves uriMatch disk y row.href path := by
  intro g hget huri hserving content hnode
  rw [hnames.href hfile] at huri
  have hpart : filePart (path.drop 4) = path.drop 4 := by
    obtain ⟨rest, rfl⟩ := hbase
    rw [fileName] at hlink
    exact List.append_cancel_left hlink
  have hname : fileName g.req.uri = path := by rw [huri, hlink]
  have hr : route uriMatch g.method g.req.uri = some .common := by
    have hfiles : filesPrefix <+: path.drop 4 := by
      obtain ⟨rest, rfl⟩ := hbase
      exact ⟨rest, rfl⟩
    rw [hget, route_get hw, huri, hpart, if_neg hdir, if_pos hfiles]
  apply serve_ok hr
  rw [handle, commonHttpHandler_file g.free (by rw [hname]; exact hnames.fits) (by rw [hname]; exact hnode)
    hserving.1 hserving.2.1 hserving.2.2, hname]
  rfl

theorem dir_head {uri : Bytes} (h : dirPrefix <+: filePart uri) : (uri.drop 4).head? = some 47 := by
  obtain ⟨rest, hrest⟩ := h.trans (List.takeWhile_prefix _)
  rw [← hrest]
  rfl

theorem listing_step (hw : Wildcard uriMatch) {rows : List Row}
    (hstep : (machine uriMatch disk).Step x c y)
    (hans : y.log = x.log ++ [entry c .dir (.listing rows)]) :
    dirHttpHandler (listed y.disk c.entries) c.stack c.req c.opens = .ok (some (.listing rows)) ∧
      (c.req.uri.drop 4).head? = some 47 := by
  have hs : step uriMatch x c = some (.ok y) := hstep
  rcases step_spec hw hstep with rfl | ⟨handler, answer, disk', hr, rfl, hh⟩
  · simp at hans
  obtain ⟨-, hentry⟩ := List.append_inj' hans rfl
  cases hentry
  rw [step, hr] at hs
  constructor
  · dsimp only [serve, handle] at hs
    cases hrun : dirHttpHandler (listed x.disk c.entries) c.stack c.req c.opens with
    | error fault =>
      rw [hrun] at hs
      cases hs
    | ok found =>
      rw [hrun] at hs
      cases found with
      | none => cases hs
      | some found =>
        simp only [Except.map, Option.map, Option.some.injEq, Except.ok.injEq, Server.mk.injEq,
          List.append_cancel_left_eq, List.cons.injEq, and_true] at hs
        obtain ⟨hdisk, hentry⟩ := hs
        cases hentry
        rw [← hdisk, hrun]
  · cases hm : c.method with
    | post =>
      rw [hm, route_post hw] at hr
      split at hr
      · cases hr
      · split at hr
        · cases hr
        · cases hr
    | get =>
      rw [hm, route_get hw] at hr
      split at hr
      · next h => exact dir_head h
      · split at hr
        · cases hr
        · cases hr

/-- Every row of a listing is there. Its links lead back to it, the one to delete
it and the other to get it, as long as no character of its path ends that of a URI. -/
theorem listing_links (hw : Wildcard uriMatch) {rows : List Row}
    (hstep : (machine uriMatch disk).Step x c y)
    (hans : y.log = x.log ++ [entry c .dir (.listing rows)]) : ∀ row ∈ rows,
      Names y.disk row (rowPath row) ∧
      (fileName (row.delete.drop 7) = rowPath row ↔ 63 ∉ rowPath row ∧ 35 ∉ rowPath row) ∧
      (63 ∉ rowPath row → 35 ∉ rowPath row →
        ((rowPath row).getLast? ≠ some 47 → Deletes uriMatch disk y row.delete (rowPath row)) ∧
        (row.isDir = false → ¬ dirPrefix <+: row.delete.drop 7 →
          Serves uriMatch disk y row.href (rowPath row))) := by
  obtain ⟨hrun, hpart⟩ := listing_step hw hstep hans
  intro row hrow
  obtain ⟨path, hbase, hnames⟩ := dirHttpHandler_rows c.free hpart hrun row hrow
  have hthere := names_listed hnames
  have hdrop : row.delete.drop 7 = path.drop 4 := by
    rw [hnames.delete]
    rfl
  have hpath : rowPath row = path := by
    rw [rowPath, hdrop]
    obtain ⟨rest, rfl⟩ := hbase
    rfl
  rw [hpath, hdrop]
  refine ⟨hthere, link_names hbase, fun hquest hhash => ?_⟩
  have hlink := (link_names hbase).2 ⟨hquest, hhash⟩
  exact ⟨delete_link hw hthere hbase hlink, href_link hw hthere hbase hlink⟩

end Links

def shelf : Disk where
  node p :=
    if p = bytes ['/', 'l', 'f', 's', '/', 'a', '/'] then some (.dir [])
    else if p = bytes ['/', 'l', 'f', 's', '/', 'a', '/', 'x'] then some (.file [1, 2, 3]) else none
  handles := []

def listA : Call :=
  ⟨.get, ⟨listAB, []⟩, by decide, array, fun _ => [⟨bytes ['x'], false, by decide⟩], true,
    ⟨true, true, fun _ => true⟩, smooth [] true, 0⟩

def rowsOf : Answer → List Row
  | .listing rows => rows
  | _ => []

def isRowX (row : Row) : Bool :=
  row.delete == bytes ['/', 'd', 'e', 'l', 'e', 't', 'e', '/', 'a', '/', 'x'] && !row.isDir

def showsX (y : Server) : Bool := y.log.any (fun e => (rowsOf e.answer).any isRowX)

theorem listing_links_listA : ∃ y row, rowPath row = bytes ['/', 'l', 'f', 's', '/', 'a', '/', 'x'] ∧
    Deletes wildcard shelf y row.delete (rowPath row) ∧ Serves wildcard shelf y row.href (rowPath row) := by
  have hcheck : (machine wildcard shelf).reaches ⟨shelf, []⟩ [listA] showsX = true := by decide +kernel
  obtain ⟨y, hstep, hshow⟩ := exists_step_of_reaches hcheck
  have hr : route wildcard listA.method listA.req.uri = some .dir := by
    rw [show listA.method = .get from rfl, route_get wildcard_matches, if_pos (by decide)]
  rcases step_spec wildcard_matches hstep with rfl | ⟨handler, answer, disk', hr', rfl, -⟩
  · cases hshow
  rw [hr] at hr'
  cases hr'
  have hany : (rowsOf answer).any isRowX = true := by simpa [showsX, entry] using hshow
  cases answer with
  | listing rows =>
    obtain ⟨row, hrow, hx⟩ := List.any_eq_true.1 hany
    rw [isRowX, Bool.and_eq_true, beq_iff_eq, Bool.not_eq_true'] at hx
    have hpath : rowPath row = bytes ['/', 'l', 'f', 's', '/', 'a', '/', 'x'] := by
      rw [rowPath, hx.1]
      rfl
    obtain ⟨-, -, hlinks⟩ := listing_links wildcard_matches hstep rfl row hrow
    obtain ⟨hdelete, hserve⟩ := hlinks (by rw [hpath]; decide) (by rw [hpath]; decide)
    exact ⟨_, row, hpath, hdelete (by rw [hpath]; decide), hserve hx.2 (by rw [hx.1]; decide)⟩
  | err => cases hany
  | file => cases hany
  | seeOther => cases hany

end WirelessGateway.WebListing
