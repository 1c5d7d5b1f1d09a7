import WirelessGateway.Lib.Text
import WirelessGateway.WebPaths

namespace WirelessGateway.WebFiles

open CJson Lib.Region Lib.CString Lib.Text WebPaths

def filePathMax : Nat := 256

def maxFileSize : Nat := 500 * 1024

def basePath : Bytes := bytes ['/', 'l', 'f', 's'] ++ [0]

abbrev PathBuf := {mem : Bytes // mem.length = filePathMax}

/-- The URI of a request, and the memory behind its terminator. -/
structure Request where
  uri : Bytes
  behind : Bytes

def Request.mem (req : Request) : Bytes := req.uri ++ 0 :: req.behind

structure DirEnt where
  name : Bytes
  isDir : Bool
  terminated : 0 ∉ name

inductive Node
  | dir (entries : List DirEnt)
  | file (content : Bytes)

structure Disk where
  node : Bytes → Option Node
  handles : List Bytes

def Node.size : Node → Nat
  | .dir _ => 0
  | .file content => content.length

def Disk.put (disk : Disk) (path : Bytes) (node : Option Node) : Disk :=
  { disk with node := fun p => if p = path then node else disk.node p }

def Disk.create (disk : Disk) (path : Bytes) : Disk :=
  { disk.put path (some (.file [])) with handles := path :: disk.handles }

def Disk.fclose (disk : Disk) (path : Bytes) : Disk :=
  { disk with handles := disk.handles.erase path }

/-- The source ignores the results of unlink, fclose and fread; they succeed. -/
def Disk.unlink (disk : Disk) (path : Bytes) : Disk := disk.put path none

def Disk.append (disk : Disk) (path data : Bytes) : Disk :=
  match disk.node path with
  | some (.file content) => disk.put path (some (.file (content ++ data)))
  | _ => disk

def Disk.opendir (disk : Disk) (path : Bytes) : Option (List DirEnt) :=
  match disk.node path with
  | some (.dir entries) => some entries
  | _ => none

def Disk.read (disk : Disk) (path : Bytes) : Option Bytes :=
  match disk.node path with
  | some (.file content) => some content
  | _ => none

inductive HttpdErr
  | notFound
  | badRequest
  | serverError
  deriving DecidableEq

structure Row where
  href : Bytes
  name : Bytes
  isDir : Bool
  size : List Char
  delete : Bytes

inductive Answer
  | err (code : HttpdErr) (text : String)
  | listing (rows : List Row)
  | file (type : String) (content : Bytes)
  | seeOther (text : String)

inductive Fault
  | overrun (access : Overrun)
  | null
  deriving DecidableEq

def within {β : Type} : Except Overrun β → Except Fault β
  | .ok x => .ok x
  | .error access => .error (.overrun access)

/-- The name that a %s, strlen, stat or opendir reads at a pointer. -/
def nameAt : Option Bytes → Except Fault Bytes
  | none => .error .null
  | some mem => within (text 0 mem)

def Returned.pointer (r : Returned) : Option Bytes := if r.isNull then none else some r.dest

def isFileExt (filename : Bytes) (ext : List Char) : Bool :=
  (filename.drop (filename.length - ext.length)).map toLower == (bytes ext).map toLower

def contentType (filename : Bytes) : String :=
  if isFileExt filename ['.', 'p', 'd', 'f'] then "application/pdf"
  else if isFileExt filename ['.', 'h', 't', 'm', 'l'] then "text/html"
  else if isFileExt filename ['.', 'j', 'p', 'e', 'g'] then "image/jpeg"
  else if isFileExt filename ['.', 'i', 'c', 'o'] then "image/x-icon"
  else if isFileExt filename ['.', 'c', 's', 's'] then "text/css"
  else if isFileExt filename ['.', 'j', 's'] then "application/javascript"
  else "text/plain"

/-- One turn of the loop over a directory: the entry's name is written behind
the path of the directory. -/
def listEntry (disk : Disk) (uri : Bytes) (dirpathLen : Nat) (list : Bytes × List Row)
    (entry : DirEnt) : Except Fault (Bytes × List Row) := do
  let entrypath ← within (strlcpy 0 list.1 dirpathLen (entry.name ++ [0]) (filePathMax - dirpathLen))
  let path ← within (text 0 entrypath)
  match disk.node path with
  | none => pure (entrypath, list.2)
  | some node =>
    let shown := path.drop 4
    pure (entrypath, list.2 ++ [{
      href := if entry.isDir then uri ++ entry.name ++ bytes ['/'] else shown
      name := entry.name
      isDir := entry.isDir
      size := decimal node.size
      delete := bytes ['/', 'd', 'e', 'l', 'e', 't', 'e'] ++ shown }])

/-- What dir_http_handler does with the result of get_dir_from_uri. The result
of opendir may be NULL for any directory. -/
def exploreDir (disk : Disk) (uri : Bytes) (r : Returned) (opens : Bool) : Except Fault Answer := do
  let dirpath ← nameAt (Returned.pointer r)
  let entrypath ← within (strlcpy 0 r.dest 0 r.dest filePathMax)
  match if opens then disk.opendir dirpath else none with
  | none => pure (.err .notFound "Directory does not exist")
  | some entries =>
    let list ← entries.foldlM (listEntry disk uri dirpath.length) (entrypath, [])
    pure (.listing list.2)

def dirHttpHandler (disk : Disk) (stack : PathBuf) (req : Request) (opens : Bool) :
    Except Fault (Option Answer) := do
  match ← within (getDirFromUri stack.1 basePath (req.mem.drop 4) filePathMax) with
  | none => pure none
  | some r =>
    let answer ← exploreDir disk req.uri r opens
    pure (some answer)

def indexFile : Bytes := bytes ['i', 'n', 'd', 'e', 'x', '.', 'h', 't', 'm', 'l'] ++ [0]

def existing (disk : Disk) (pathBuf path : Bytes) : Except Fault (Option Bytes) :=
  match disk.node path with
  | some (.dir _) => do
    let pathlen ← within (strlen 0 pathBuf)
    if filePathMax ≤ pathlen + indexFile.length + 1 then pure none
    else
      let pathBuf ← within (strcpy 0 pathBuf pathlen indexFile)
      let path ← within (text 0 pathBuf)
      pure (if (disk.node path).isSome then some path else none)
  | some (.file _) => pure (some path)
  | none => pure none

structure Serving where
  opens : Bool
  mallocs : Bool
  sends : Nat → Bool

def sendAll (serving : Serving) (content : Bytes) : Bool :=
  (List.range ((content.length + 4095) / 4096)).all serving.sends

def commonHttpHandler (disk : Disk) (stack : PathBuf) (req : Request) (serving : Serving) :
    Except Fault Answer := do
  let r ← within (getPathFromUri stack.1 basePath req.mem filePathMax)
  let path ← nameAt (Returned.pointer r)
  match ← existing disk r.dest path with
  | none => pure (.err .notFound "File does not exist")
  | some path =>
    match if serving.opens then disk.read path else none with
    | none => pure (.err .serverError "Failed to read existing file")
    | some content =>
      if !serving.mallocs then pure (.err .serverError "Failed to read existing file")
      else if !sendAll serving content then pure (.err .serverError "Failed to send file")
      else pure (.file (contentType path) content)

def deletePostHandler (disk : Disk) (stack : PathBuf) (req : Request) :
    Except Fault (Answer × Disk) := do
  let r ← within (getPathFromUri stack.1 basePath (req.mem.drop 7) filePathMax)
  if r.isNull then pure (.err .serverError "Filename too long", disk)
  else
    let filename ← within (text 0 r.dest)
    if filename.getLast? = some 47 then pure (.err .serverError "Invalid filename", disk)
    else if (disk.node filename).isNone then pure (.err .badRequest "File does not exist", disk)
    else pure (.seeOther "File deleted successfully", disk.unlink filename)

inductive Received
  | chunk (n : Nat)
  | timeout
  | error

/-- The body of an upload, and what the calls of its handler give: fopen,
malloc, and httpd_req_recv and fwrite in each turn for the bytes asked for. -/
structure Upload where
  body : Bytes
  opens : Bool
  mallocs : Bool
  recv : Nat → Nat → Received
  fwrite : Nat → Nat → Nat
  recv_le : ∀ i n k, recv i n = .chunk k → 1 ≤ k ∧ k ≤ n
  fwrite_le : ∀ i n, fwrite i n ≤ n

def receiveBody (up : Upload) (path : Bytes) : Nat → Nat → Nat → Disk → Option (Answer × Disk)
  | 0, _, _, _ => none
  | fuel + 1, i, remaining, disk =>
    if remaining = 0 then
      some (.seeOther "File uploaded successfully", disk.fclose path)
    else match up.recv i (min remaining 512) with
      | .timeout => receiveBody up path fuel (i + 1) remaining disk
      | .error => some (.err .serverError "Failed to receive file", (disk.fclose path).unlink path)
      | .chunk received =>
        let buf := (up.body.drop (up.body.length - remaining)).take received
        let written := up.fwrite i received
        let disk := disk.append path (buf.take written)
        if received ≠ written then
          some (.err .serverError "Failed to write file to storage",
            (disk.fclose path).unlink path)
        else receiveBody up path fuel (i + 1) (remaining - received) disk

def storeUpload (disk : Disk) (filename : Bytes) (up : Upload) (fuel : Nat) :
    Option (Answer × Disk) :=
  if filename.getLast? = some 47 then some (.err .serverError "Invalid filename", disk)
  else if (disk.node filename).isSome then
    some (.err .badRequest "File already exists", disk)
  else if maxFileSize < up.body.length then
    some (.err .badRequest "File size must be less than 500KB!", disk)
  else if !up.opens then some (.err .serverError "Failed to create file", disk)
  else
    let disk := disk.create filename
    if !up.mallocs then some (.err .serverError "No mem", disk)
    else receiveBody up filename fuel 0 up.body.length disk

def uploadPostHandler (disk : Disk) (stack : PathBuf) (req : Request) (up : Upload) (fuel : Nat) :
    Except Fault (Option (Answer × Disk)) := do
  let r ← within (getPathFromUri stack.1 basePath (req.mem.drop 7) filePathMax)
  if r.isNull then pure (some (.err .serverError "Filename too long", disk))
  else
    let filename ← within (text 0 r.dest)
    pure (storeUpload disk filename up fuel)

def fileName (part : Bytes) : Bytes := bytes ['/', 'l', 'f', 's'] ++ filePart part

theorem fileName_free {part : Bytes} (h : 0 ∉ part) : 0 ∉ fileName part := by
  rw [fileName, List.mem_append, not_or]
  exact ⟨by decide, fun hm => h ((List.takeWhile_sublist _).subset hm)⟩

theorem request_path {n : Nat} {req : Request} (huri : 0 ∉ req.uri) (hn : n ≤ req.uri.length)
    (stack : PathBuf) :
    within (getPathFromUri stack.1 basePath (req.mem.drop n) filePathMax) =
      .ok (if filePathMax < (fileName (req.uri.drop n)).length + 1 then ⟨true, stack.1⟩
        else ⟨false, fileName (req.uri.drop n) ++
          0 :: stack.1.drop ((fileName (req.uri.drop n)).length + 1)⟩) := by
  have hfree : 0 ∉ req.uri.drop n := fun h => huri (List.mem_of_mem_drop h)
  have hmem : req.mem.drop n = req.uri.drop n ++ 0 :: req.behind := by
    rw [Request.mem, List.drop_append_of_le_length hn]
  rw [hmem, basePath, getPathFromUri_eq (by decide) hfree stack.2, within, fileName,
    List.length_append]

theorem uploadPostHandler_eq (req : Request) (huri : 0 ∉ req.uri) (hn : 7 ≤ req.uri.length)
    (disk : Disk) (stack : PathBuf) (up : Upload) (fuel : Nat) :
    uploadPostHandler disk stack req up fuel =
      .ok (if filePathMax < (fileName (req.uri.drop 7)).length + 1 then
          some (.err .serverError "Filename too long", disk)
        else storeUpload disk (fileName (req.uri.drop 7)) up fuel) := by
  have hfree : 0 ∉ req.uri.drop 7 := fun h => huri (List.mem_of_mem_drop h)
  rw [uploadPostHandler, request_path huri hn]
  split
  · rfl
  · simp only [bind, Except.bind, text_append (fileName_free hfree), within]
    rfl

def Holds (dirpath mem : Bytes) : Prop := dirpath <+: mem ∧ mem.length = filePathMax

theorem listEntry_ok {dirpath : Bytes} {list : Bytes × List Row} (hfree : 0 ∉ dirpath)
    (hroom : dirpath.length < filePathMax) (h : Holds dirpath list.1) (disk : Disk) (uri : Bytes)
    (entry : DirEnt) :
    ∃ list', listEntry disk uri dirpath.length list entry = .ok list' ∧ Holds dirpath list'.1 := by
  obtain ⟨⟨rest, hmem⟩, hlen⟩ := h
  have hcopy := strlcpy_append list.1 dirpath.length (filePathMax - dirpath.length)
    entry.terminated (by omega) (by omega) []
  have htake : list.1.take dirpath.length = dirpath := by
    rw [← hmem, List.take_left' rfl]
  rw [htake] at hcopy
  have htext : 0 ∉ dirpath ++ entry.name.take (filePathMax - dirpath.length - 1) := by
    rw [List.mem_append, not_or]
    exact ⟨hfree, fun hm => entry.terminated (List.mem_of_mem_take hm)⟩
  simp only [listEntry, hcopy, within, bind, Except.bind, text_append htext]
  have hholds : Holds dirpath (dirpath ++ entry.name.take (filePathMax - dirpath.length - 1) ++
      0 :: list.1.drop (dirpath.length +
        min entry.name.length (filePathMax - dirpath.length - 1) + 1)) := by
    refine ⟨by rw [List.append_assoc]; exact List.prefix_append _ _, ?_⟩
    simp only [List.length_append, List.length_cons, List.length_take, List.length_drop]
    omega
  split
  · exact ⟨_, rfl, hholds⟩
  · exact ⟨_, rfl, hholds⟩

theorem listEntries_ok {dirpath : Bytes} (hfree : 0 ∉ dirpath)
    (hroom : dirpath.length < filePathMax) (disk : Disk) (uri : Bytes) (entries : List DirEnt) :
    ∀ list : Bytes × List Row, Holds dirpath list.1 →
      ∃ list', entries.foldlM (listEntry disk uri dirpath.length) list = .ok list' := by
  induction entries with
  | nil => exact fun list _ => ⟨list, rfl⟩
  | cons entry entries ih =>
      intro list h
      obtain ⟨list', hrun, hholds⟩ := listEntry_ok hfree hroom h disk uri entry
      obtain ⟨list'', hrest⟩ := ih list' hholds
      refine ⟨list'', ?_⟩
      rw [List.foldlM_cons, hrun]
      exact hrest

theorem exploreDir_ok {dirpath rest : Bytes} (hfree : 0 ∉ dirpath)
    (hlen : (dirpath ++ 0 :: rest).length = filePathMax) (disk : Disk) (uri : Bytes)
    (opens : Bool) :
    ∃ answer, exploreDir disk uri ⟨false, dirpath ++ 0 :: rest⟩ opens = .ok answer := by
  have hroom : dirpath.length + 1 ≤ filePathMax := by
    simp only [List.length_append, List.length_cons] at hlen
    omega
  have hcopy := strlcpy_append (dirpath ++ 0 :: rest) 0 filePathMax hfree (by omega) (by omega) rest
  simp only [exploreDir, Returned.pointer, Bool.false_eq_true, if_false, nameAt,
    text_append hfree, hcopy, within, bind, Except.bind]
  split
  · exact ⟨_, rfl⟩
  · rename_i entries _
    have hmin : min dirpath.length (filePathMax - 1) = dirpath.length := by omega
    have htake : dirpath.take (filePathMax - 1) = dirpath := List.take_of_length_le (by omega)
    have hholds : Holds dirpath ((dirpath ++ 0 :: rest).take 0 ++ dirpath.take (filePathMax - 1) ++
        0 :: (dirpath ++ 0 :: rest).drop (0 + min dirpath.length (filePathMax - 1) + 1)) := by
      rw [htake, hmin, List.take_zero, List.nil_append]
      refine ⟨List.prefix_append _ _, ?_⟩
      simp only [List.length_append, List.length_cons, List.length_drop] at hlen ⊢
      omega
    obtain ⟨list, hrun⟩ := listEntries_ok hfree (by omega) disk uri entries (_, []) hholds
    rw [hrun]
    exact ⟨_, rfl⟩

theorem existing_ok {path rest : Bytes} (hfree : 0 ∉ path)
    (hlen : (path ++ 0 :: rest).length = filePathMax) (disk : Disk) :
    ∃ found, existing disk (path ++ 0 :: rest) path = .ok found := by
  unfold existing
  split
  · simp only [strlen_append hfree, within, bind, Except.bind]
    split
    · exact ⟨_, rfl⟩
    · rename_i hroom
      have hindex : (0 : UInt8) ∉ bytes ['i', 'n', 'd', 'e', 'x', '.', 'h', 't', 'm', 'l'] := by
        decide
      have hname : 0 ∉ path ++ bytes ['i', 'n', 'd', 'e', 'x', '.', 'h', 't', 'm', 'l'] := by
        rw [List.mem_append, not_or]
        exact ⟨hfree, hindex⟩
      have hten : (bytes ['i', 'n', 'd', 'e', 'x', '.', 'h', 't', 'm', 'l']).length = 10 := rfl
      have heleven : indexFile.length = 11 := rfl
      have hcopy : strcpy 0 (path ++ 0 :: rest) path.length indexFile = _ :=
        strcpy_append hindex (by omega) []
      rw [hcopy, List.take_left' rfl]
      simp only [text_append hname]
      exact ⟨_, rfl⟩
  · exact ⟨_, rfl⟩
  · exact ⟨_, rfl⟩

theorem commonHttpHandler_eq (req : Request) (huri : 0 ∉ req.uri) (disk : Disk)
    (stack : PathBuf) (serving : Serving) :
    (filePathMax < (fileName req.uri).length + 1 →
      commonHttpHandler disk stack req serving = .error .null) ∧
    ((fileName req.uri).length + 1 ≤ filePathMax →
      ∃ answer, commonHttpHandler disk stack req serving = .ok answer) := by
  have hpath := request_path huri (Nat.zero_le _) stack
  simp only [List.drop_zero] at hpath
  constructor
  · intro hlong
    rw [if_pos hlong] at hpath
    rw [commonHttpHandler, hpath]
    rfl
  · intro hfits
    rw [if_neg (by omega)] at hpath
    have hlen : (fileName req.uri ++ 0 :: stack.1.drop ((fileName req.uri).length + 1)).length =
        filePathMax := by
      rw [List.length_append, List.length_cons, List.length_drop, stack.2]
      omega
    obtain ⟨found, hfound⟩ := existing_ok (fileName_free huri) hlen disk
    rw [commonHttpHandler, hpath]
    simp only [bind, Except.bind, Returned.pointer, Bool.false_eq_true, if_false, nameAt,
      text_append (fileName_free huri), within, hfound]
    split
    · exact ⟨_, rfl⟩
    · split
      · exact ⟨_, rfl⟩
      · split
        · exact ⟨_, rfl⟩
        · split
          · exact ⟨_, rfl⟩
          · exact ⟨_, rfl⟩

theorem deletePostHandler_ok (req : Request) (huri : 0 ∉ req.uri) (hn : 7 ≤ req.uri.length)
    (disk : Disk) (stack : PathBuf) :
    ∃ answer, deletePostHandler disk stack req = .ok answer := by
  have hfree : 0 ∉ req.uri.drop 7 := fun h => huri (List.mem_of_mem_drop h)
  rw [deletePostHandler, request_path huri hn]
  split
  · exact ⟨_, rfl⟩
  · simp only [bind, Except.bind, text_append (fileName_free hfree), within, Bool.false_eq_true,
      if_false]
    split
    · exact ⟨_, rfl⟩
    · split
      · exact ⟨_, rfl⟩
      · exact ⟨_, rfl⟩

/-- The URIs whose directory get_dir_from_uri finds and fits into the buffer. -/
def DirFits (part : Bytes) : Prop :=
  (slashes part % 2 = 1 ∧ (dirPart part).length < part.length ∧
      4 + (dirPart part).length + 2 ≤ filePathMax) ∨
    (slashes part % 2 = 0 ∧ 4 + (dirPart part).length + 1 ≤ filePathMax)

theorem exploreDir_null {r : Returned} (h : r.isNull = true) (disk : Disk) (uri : Bytes)
    (opens : Bool) : exploreDir disk uri r opens = .error .null := by
  rw [exploreDir, Returned.pointer, if_pos h]
  rfl

theorem dir_part (req : Request) (hpart : (req.uri.drop 4).head? = some 47) :
    ∃ t, req.uri.drop 4 = 47 :: t ∧ req.mem.drop 4 = 47 :: t ++ 0 :: req.behind := by
  have hn : 4 ≤ req.uri.length := by
    by_contra hshort
    rw [List.drop_of_length_le (by omega)] at hpart
    simp at hpart
  have hmem : req.mem.drop 4 = req.uri.drop 4 ++ 0 :: req.behind := by
    rw [Request.mem, List.drop_append_of_le_length hn]
  cases ht : req.uri.drop 4 with
  | nil => simp [ht] at hpart
  | cons b t =>
      have hb : b = 47 := by
        rw [ht] at hpart
        simpa using hpart
      exact ⟨t, by rw [hb], by rw [hmem, ht, hb]⟩

theorem basePath_free : (0 : UInt8) ∉ bytes ['/', 'l', 'f', 's'] := by decide

theorem basePath_length : (bytes ['/', 'l', 'f', 's']).length = 4 := rfl

theorem dirHttpHandler_ok (req : Request) (huri : 0 ∉ req.uri)
    (hpart : (req.uri.drop 4).head? = some 47) (hfits : DirFits (req.uri.drop 4)) (disk : Disk)
    (stack : PathBuf) (opens : Bool) :
    ∃ answer, dirHttpHandler disk stack req opens = .ok (some answer) := by
  have hfree : 0 ∉ req.uri.drop 4 := fun h => huri (List.mem_of_mem_drop h)
  obtain ⟨t, ht, hmem⟩ := dir_part req hpart
  rw [ht] at hfree hfits
  have hdir := getDirFromUri_inside stack.1 basePath_free hfree [] req.behind
    (by rcases hfits with ⟨-, h, -⟩ | ⟨h, -⟩ <;> omega)
  rw [stack.2, basePath_length] at hdir
  obtain ⟨s, rest, hs, hlen, hrun⟩ : ∃ s rest, 0 ∉ s ∧ (s ++ 0 :: rest).length = filePathMax ∧
      getDirFromUri stack.1 basePath (47 :: t ++ 0 :: req.behind) filePathMax =
        .ok (some ⟨false, s ++ 0 :: rest⟩) := by
    have htake : ∀ n, 0 ∉ bytes ['/', 'l', 'f', 's'] ++ (47 :: t).take n := by
      intro n
      rw [List.mem_append, not_or]
      exact ⟨basePath_free, fun h => hfree (List.mem_of_mem_take h)⟩
    have hle := dirPart_length_le (47 :: t)
    have hpos := dirPart_pos t
    rcases hfits with ⟨hodd, -, hroom⟩ | ⟨heven, hroom⟩
    · rw [if_pos hodd, if_neg (by omega), ← dirPart_eq_take] at hdir
      refine ⟨_, _, htake _, ?_, hdir⟩
      simp only [List.length_append, List.length_cons, List.length_take, List.length_drop, stack.2,
        basePath_length] at hle ⊢
      omega
    · rw [if_neg (by omega), if_neg (by omega)] at hdir
      refine ⟨_, _, htake _, ?_, hdir⟩
      simp only [List.length_append, List.length_cons, List.length_take, List.length_drop, stack.2,
        basePath_length] at hle ⊢
      omega
  obtain ⟨answer, hanswer⟩ := exploreDir_ok hs hlen disk req.uri opens
  refine ⟨answer, ?_⟩
  simp only [dirHttpHandler, hmem, hrun, within, bind, Except.bind, hanswer]
  rfl

theorem lastSep_far {t far : Bytes} (hnul : 0 ∉ t) (hodd : slashes (47 :: t) % 2 = 1)
    (hend : (dirPart (47 :: t)).length = (47 :: t).length) (hfar : 47 ∉ far) (hzero : 0 ∉ far) :
    ∃ sep, far.length ≤ sep ∧ lastSep (47 :: t ++ 0 :: (far ++ [47, 1, 0]))
      (47 :: t ++ 0 :: (far ++ [47, 1, 0])).length 0 = .ok (some sep) := by
  obtain ⟨s, fuel, -, hfuel, hrun⟩ := lastSep_outside hnul (far ++ [47, 1, 0]) hodd hend
  obtain ⟨fuel, rfl⟩ : ∃ m, fuel = m + 1 := ⟨fuel - 1, by omega⟩
  have hmem : s ++ 47 :: 0 :: (far ++ [47, 1, 0]) =
      (s ++ 47 :: 0 :: far) ++ 47 :: ([1] ++ 0 :: []) := by simp
  have hnext := lastSep_end (s := s ++ 47 :: 0 :: far) (c := 1) (t := [])
    (by simp) (by simp) [] fuel
  rw [lastSep_beyond, strchr_found hfar hzero] at hrun
  simp only [bind, Except.bind] at hrun
  refine ⟨(s ++ 47 :: 0 :: far).length + 1, ?_, ?_⟩
  · simp only [List.length_append, List.length_cons]
    omega
  · rw [hrun, hmem, show s.length + 2 + far.length = (s ++ 47 :: 0 :: far).length by
      simp only [List.length_append, List.length_cons]
      omega]
    exact hnext

def farSeparator : Bytes := List.replicate filePathMax 1 ++ [47, 1, 0]

theorem dirHttpHandler_null {req : Request} {r : Returned} (hnull : r.isNull = true)
    {stack : PathBuf}
    (hdir : getDirFromUri stack.1 basePath (req.mem.drop 4) filePathMax = .ok (some r))
    (disk : Disk) (opens : Bool) : dirHttpHandler disk stack req opens = .error .null := by
  simp only [dirHttpHandler, hdir, within, bind, Except.bind, exploreDir_null hnull]

theorem dirHttpHandler_unfit {uri : Bytes} (huri : 0 ∉ uri)
    (hpart : (uri.drop 4).head? = some 47) (hunfit : ¬ DirFits (uri.drop 4)) (disk : Disk)
    (stack : PathBuf) (opens : Bool) :
    ∃ behind, dirHttpHandler disk stack ⟨uri, behind⟩ opens = .error .null := by
  have hfree : 0 ∉ uri.drop 4 := fun h => huri (List.mem_of_mem_drop h)
  obtain ⟨t, ht, hmem⟩ := dir_part ⟨uri, farSeparator⟩ hpart
  dsimp only at ht hmem
  rw [ht] at hfree hunfit
  have hle := dirPart_length_le (47 :: t)
  refine ⟨farSeparator, ?_⟩
  by_cases hin : slashes (47 :: t) % 2 = 1 → (dirPart (47 :: t)).length < (47 :: t).length
  · have hdir := getDirFromUri_inside stack.1 basePath_free hfree [] farSeparator hin
    rw [stack.2, basePath_length] at hdir
    have hnull : getDirFromUri stack.1 basePath (47 :: t ++ 0 :: farSeparator) filePathMax =
        .ok (some ⟨true, stack.1⟩) := by
      rw [DirFits] at hunfit
      by_cases hodd : slashes (47 :: t) % 2 = 1
      · have hname := hin hodd
        rwa [if_pos hodd, if_pos (by omega)] at hdir
      · rwa [if_neg hodd, if_pos (by omega)] at hdir
    exact dirHttpHandler_null rfl (by rw [hmem]; exact hnull) disk opens
  · have hfar : ∀ b : UInt8, b ≠ 1 → b ∉ List.replicate filePathMax 1 :=
      fun b hb h => hb (List.eq_of_mem_replicate h)
    obtain ⟨sep, hsep, hrun⟩ := lastSep_far (fun h => hfree (List.mem_cons_of_mem _ h))
      (by omega : slashes (47 :: t) % 2 = 1) (by omega) (hfar 47 (by decide)) (hfar 0 (by decide))
    rw [List.length_replicate] at hsep
    rw [← farSeparator] at hrun
    have hnull : getDirFromUri stack.1 basePath (47 :: t ++ 0 :: farSeparator) filePathMax =
        .ok (some ⟨true, stack.1⟩) := by
      simp only [getDirFromUri, text_append hfree, basePath, strlen_append basePath_free, bind,
        Except.bind, hrun]
      rw [basePath_length, if_pos (by omega)]
      rfl
    exact dirHttpHandler_null rfl (by rw [hmem]; exact hnull) disk opens

inductive Handler
  | dir
  | common
  | upload
  | delete

structure Env where
  disk : Disk
  stack : PathBuf
  opens : Bool
  serving : Serving
  up : Upload

def Handler.skipped : Handler → Nat
  | .dir => 4
  | .common => 0
  | .upload => 7
  | .delete => 7

/-- The handler comes to an answer, or is still receiving, with no NULL for a
name and no access outside a buffer. -/
def Handler.Answers (env : Env) (req : Request) : Handler → Prop
  | .dir => ∃ answer, dirHttpHandler env.disk env.stack req env.opens = .ok (some answer)
  | .common => ∃ answer, commonHttpHandler env.disk env.stack req env.serving = .ok answer
  | .upload => ∀ fuel, ∃ answer, uploadPostHandler env.disk env.stack req env.up fuel = .ok answer
  | .delete => ∃ answer, deletePostHandler env.disk env.stack req = .ok answer

def Handler.UsesNull (env : Env) (req : Request) : Handler → Prop
  | .dir => dirHttpHandler env.disk env.stack req env.opens = .error .null
  | .common => commonHttpHandler env.disk env.stack req env.serving = .error .null
  | .upload => ∃ fuel, uploadPostHandler env.disk env.stack req env.up fuel = .error .null
  | .delete => deletePostHandler env.disk env.stack req = .error .null

def Handler.Fits (uri : Bytes) : Handler → Prop
  | .dir => DirFits (uri.drop 4)
  | .common => (fileName uri).length + 1 ≤ filePathMax
  | .upload => True
  | .delete => True

/-- The handlers of uploads and deletions never use a path that does not fit.
The others do so exactly for the URIs that are too long for the buffer, or, in
dir_http_handler, that make the search leave the URI. -/
theorem no_path_unfit (handler : Handler) (env : Env) (uri : Bytes) (huri : 0 ∉ uri)
    (hpart : (uri.drop handler.skipped).head? = some 47) :
    ((∀ behind, handler.Answers env ⟨uri, behind⟩) ↔ handler.Fits uri) ∧
      (¬ handler.Fits uri → ∃ behind, handler.UsesNull env ⟨uri, behind⟩) := by
  have hn : handler.skipped ≤ uri.length := by
    by_contra hshort
    rw [List.drop_of_length_le (by omega)] at hpart
    simp at hpart
  cases handler with
  | dir =>
      have hbad := dirHttpHandler_unfit huri hpart
      refine ⟨⟨fun hall => ?_, fun hfits behind => ?_⟩, fun hunfit => ?_⟩
      · by_contra hunfit
        obtain ⟨behind, hnull⟩ := hbad hunfit env.disk env.stack env.opens
        obtain ⟨answer, hrun⟩ := hall behind
        rw [hrun] at hnull
        cases hnull
      · exact dirHttpHandler_ok ⟨uri, behind⟩ huri hpart hfits _ _ _
      · exact hbad hunfit env.disk env.stack env.opens
  | common =>
      have hcases := fun behind =>
        commonHttpHandler_eq ⟨uri, behind⟩ huri env.disk env.stack env.serving
      refine ⟨⟨fun hall => ?_, fun hfits behind => (hcases behind).2 hfits⟩, fun hunfit => ?_⟩
      · by_contra hunfit
        obtain ⟨answer, hrun⟩ := hall []
        have hnull := (hcases []).1 (Nat.lt_of_not_le hunfit)
        rw [hrun] at hnull
        cases hnull
      · exact ⟨[], (hcases []).1 (Nat.lt_of_not_le hunfit)⟩
  | upload =>
      refine ⟨⟨fun _ => trivial, fun _ behind fuel => ?_⟩, fun hunfit => absurd trivial hunfit⟩
      exact ⟨_, uploadPostHandler_eq ⟨uri, behind⟩ huri hn _ _ _ _⟩
  | delete =>
      refine ⟨⟨fun _ => trivial, fun _ behind => ?_⟩, fun hunfit => absurd trivial hunfit⟩
      exact deletePostHandler_ok ⟨uri, behind⟩ huri hn _ _

def blank : Disk := ⟨fun _ => none, []⟩

def array : PathBuf := ⟨List.replicate filePathMax 0, List.length_replicate⟩

def smooth (body : Bytes) (mallocs : Bool) : Upload where
  body := body
  opens := true
  mallocs := mallocs
  recv := fun _ n => if n = 0 then .error else .chunk n
  fwrite := fun _ n => n
  recv_le := by
    intro i n k h
    split at h
    · cases h
    · cases h
      omega
  fwrite_le := fun _ _ => Nat.le_refl _

def served : Env := ⟨blank, array, true, ⟨true, true, fun _ => true⟩, smooth [1] true⟩

def listAB : Bytes := bytes ['/', 'd', 'i', 'r', '/', 'a', '/', 'b']

theorem no_path_unfit_dir :
    Handler.Fits listAB .dir ∧ ∀ behind, Handler.Answers served ⟨listAB, behind⟩ .dir := by
  have hfits : Handler.Fits listAB .dir := Or.inl (by decide)
  exact ⟨hfits, (no_path_unfit .dir served listAB (by decide) (by decide)).1.2 hfits⟩

/-- A page with a name of 300 characters is NULL for the log and for stat. -/
theorem long_page_null :
    Handler.UsesNull served ⟨47 :: List.replicate 300 97, []⟩ .common ∧
      ¬ Handler.Answers served ⟨47 :: List.replicate 300 97, []⟩ .common := by
  have hfree : (0 : UInt8) ∉ 47 :: List.replicate 300 97 := by
    rw [List.mem_cons, not_or]
    exact ⟨by decide, fun h => absurd (List.eq_of_mem_replicate h) (by decide)⟩
  have hpart : filePart (47 :: List.replicate 300 97) = 47 :: List.replicate 300 97 := by
    rw [filePart, List.takeWhile_eq_self_iff]
    intro b hb
    rcases List.mem_cons.1 hb with rfl | hb
    · decide
    · rw [List.eq_of_mem_replicate hb]
      decide
  have hlong : filePathMax < (fileName (47 :: List.replicate 300 97)).length + 1 := by
    rw [fileName, hpart, List.length_append, List.length_cons, List.length_replicate]
    decide
  have hnull := (commonHttpHandler_eq ⟨47 :: List.replicate 300 97, []⟩ hfree served.disk
    served.stack served.serving).1 hlong
  refine ⟨hnull, ?_⟩
  rintro ⟨answer, hrun⟩
  rw [hrun] at hnull
  cases hnull

end WirelessGateway.WebFiles
