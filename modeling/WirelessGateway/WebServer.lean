import WirelessGateway.Lib.Replay
import WirelessGateway.Lib.Runs
import WirelessGateway.WebUpload

namespace WirelessGateway.WebServer

open CJson WebPaths WebFiles WebUpload Lib.Runs Lib.Replay Lib.Text Lib.CString

inductive Method
  | get
  | post
  deriving DecidableEq

structure HttpdUri where
  uri : Bytes
  method : Method
  handler : Handler

def filesPrefix : Bytes := bytes ['/']

def dirPrefix : Bytes := bytes ['/', 'd', 'i', 'r', '/']

def uploadPrefix : Bytes := bytes ['/', 'u', 'p', 'l', 'o', 'a', 'd', '/']

def deletePrefix : Bytes := bytes ['/', 'd', 'e', 'l', 'e', 't', 'e', '/']

def dirList : HttpdUri := ⟨dirPrefix ++ [42], .get, .dir⟩

def fileUpload : HttpdUri := ⟨uploadPrefix ++ [42], .post, .upload⟩

def fileDelete : HttpdUri := ⟨deletePrefix ++ [42], .post, .delete⟩

def fileServer : HttpdUri := ⟨filesPrefix ++ [42], .get, .common⟩

def handlers : List HttpdUri := [dirList, fileUpload, fileDelete, fileServer]

/-- httpd runs the first of its handlers that matches a request. -/
def route (uriMatch : Bytes → Bytes → Bool) (method : Method) (uri : Bytes) : Option Handler :=
  (handlers.find? (fun h => decide (h.method = method) && uriMatch h.uri uri)).map HttpdUri.handler

def Wildcard (uriMatch : Bytes → Bytes → Bool) : Prop :=
  ∀ front uri, 42 ∉ front → 63 ∉ front →
    (uriMatch (front ++ [42]) uri = true ↔ front <+: filePart uri)

section Routes

variable {uriMatch : Bytes → Bytes → Bool} {uri : Bytes} {method : Method} {handler : Handler}

theorem route_get (hw : Wildcard uriMatch) : route uriMatch .get uri =
    if dirPrefix <+: filePart uri then some .dir
    else if filesPrefix <+: filePart uri then some .common else none := by
  have hdir := hw dirPrefix uri (by decide) (by decide)
  have hany := hw filesPrefix uri (by decide) (by decide)
  simp only [route, handlers, dirList, fileUpload, fileDelete, fileServer, List.find?]
  by_cases hd : dirPrefix <+: filePart uri
  · simp [hd, hdir.2 hd]
  · have hd' : uriMatch (dirPrefix ++ [42]) uri = false := by simpa using mt hdir.1 hd
    by_cases ha : filesPrefix <+: filePart uri
    · simp [hd, ha, hd', hany.2 ha]
    · have ha' : uriMatch (filesPrefix ++ [42]) uri = false := by simpa using mt hany.1 ha
      simp [hd, ha, hd', ha']

theorem route_post (hw : Wildcard uriMatch) : route uriMatch .post uri =
    if uploadPrefix <+: filePart uri then some .upload
    else if deletePrefix <+: filePart uri then some .delete else none := by
  have hup := hw uploadPrefix uri (by decide) (by decide)
  have hdel := hw deletePrefix uri (by decide) (by decide)
  simp only [route, handlers, dirList, fileUpload, fileDelete, fileServer, List.find?]
  by_cases hu : uploadPrefix <+: filePart uri
  · simp [hu, hup.2 hu]
  · have hu' : uriMatch (uploadPrefix ++ [42]) uri = false := by simpa using mt hup.1 hu
    by_cases hd : deletePrefix <+: filePart uri
    · simp [hu, hd, hu', hdel.2 hd]
    · have hd' : uriMatch (deletePrefix ++ [42]) uri = false := by simpa using mt hdel.1 hd
      simp [hu, hd, hu', hd']

theorem routed_part (hw : Wildcard uriMatch) (hr : route uriMatch method uri = some handler) :
    handler.skipped ≤ uri.length := by
  have hfile := filePart_length_le uri
  have hlen : ∀ {front : Bytes}, front <+: filePart uri → front.length ≤ uri.length :=
    fun h => h.length_le.trans hfile
  cases method with
  | get =>
    rw [route_get hw] at hr
    split at hr
    · next h =>
      cases hr
      exact (by decide : (4 : Nat) ≤ dirPrefix.length).trans (hlen h)
    · split at hr
      · cases hr
        exact Nat.zero_le _
      · cases hr
  | post =>
    rw [route_post hw] at hr
    split at hr
    · next h =>
      cases hr
      exact (by decide : (7 : Nat) ≤ uploadPrefix.length).trans (hlen h)
    · split at hr
      · next h =>
        cases hr
        exact (by decide : (7 : Nat) ≤ deletePrefix.length).trans (hlen h)
      · cases hr

end Routes

def listed (disk : Disk) (entries : Bytes → List DirEnt) : Disk :=
  { disk with node := fun p => match disk.node p with
      | some (.dir _) => some (.dir (entries p))
      | node => node }

def isDir (disk : Disk) (path : Bytes) : Bool :=
  match disk.node path with
  | some (.dir _) => true
  | _ => false

/-- unlink leaves a directory where it is. -/
def unlinked (before after : Disk) : Disk :=
  { after with node := fun p => if isDir before p then before.node p else after.node p }

structure Call where
  method : Method
  req : Request
  free : 0 ∉ req.uri
  stack : PathBuf
  entries : Bytes → List DirEnt
  opens : Bool
  serving : Serving
  up : Upload
  fuel : Nat

def handle (disk : Disk) (c : Call) : Handler → Except Fault (Option (Answer × Disk))
  | .dir => (dirHttpHandler (listed disk c.entries) c.stack c.req c.opens).map
      (Option.map (fun answer => (answer, disk)))
  | .common => (commonHttpHandler disk c.stack c.req c.serving).map (fun answer => some (answer, disk))
  | .upload => uploadPostHandler disk c.stack c.req c.up c.fuel
  | .delete => (deletePostHandler disk c.stack c.req).map (fun r => some (r.1, unlinked disk r.2))

structure Entry where
  handler : Handler
  uri : Bytes
  body : Bytes
  answer : Answer

structure Server where
  disk : Disk
  log : List Entry

def serve (x : Server) (c : Call) (handler : Handler) : Option (Except Fault Server) :=
  match handle x.disk c handler with
  | .error fault => some (.error fault)
  | .ok none => none
  | .ok (some (answer, disk)) => some (.ok ⟨disk, x.log ++ [⟨handler, c.req.uri, c.up.body, answer⟩]⟩)

/-- One session at a time is served. A request without a handler is answered by
httpd itself. -/
def step (uriMatch : Bytes → Bytes → Bool) (x : Server) (c : Call) : Option (Except Fault Server) :=
  match route uriMatch c.method c.req.uri with
  | none => some (.ok x)
  | some handler => serve x c handler

def machine (uriMatch : Bytes → Bytes → Bool) (disk : Disk) : Machine Server Call Fault where
  init x := x = ⟨disk, []⟩
  step := step uriMatch

section Outcomes

inductive Stored (disk : Disk) (name : Bytes) (up : Upload) : Answer → Disk → Prop
  | refused {code : HttpdErr} {text : String} (htext : text ≠ "No mem") :
      Stored disk name up (.err code text) disk
  | unbuffered (hfresh : disk.node name = none) :
      Stored disk name up (.err .serverError "No mem") (disk.create name)
  | failed {text : String} {disk' : Disk} (htext : text ≠ "No mem") (hsame : disk'.node = disk.node)
      (hopen : disk'.handles = disk.handles) : Stored disk name up (.err .serverError text) disk'
  | done {disk' : Disk} (hfresh : disk.node name = none)
      (hnode : disk'.node = Function.update disk.node name (some (.file up.body)))
      (hopen : disk'.handles = disk.handles) : Stored disk name up uploaded disk'

def index : Bytes := bytes ['i', 'n', 'd', 'e', 'x', '.', 'h', 't', 'm', 'l']

def target (isDir : Bytes → Bool) (read : Bytes → Option Bytes) (path : Bytes) : Option Bytes :=
  if isDir path then
    if filePathMax ≤ path.length + indexFile.length + 1 then none
    else if isDir (path ++ index) || (read (path ++ index)).isSome then some (path ++ index) else none
  else if (read path).isSome then some path else none

inductive Fetches (isDir : Bytes → Bool) (read : Bytes → Option Bytes) (path : Bytes) : Answer → Prop
  | missing (htarget : target isDir read path = none) :
      Fetches isDir read path (.err .notFound "File does not exist")
  | failed {p : Bytes} {text : String} (htarget : target isDir read path = some p) :
      Fetches isDir read path (.err .serverError text)
  | served {p content : Bytes} (htarget : target isDir read path = some p)
      (hread : read p = some content) : Fetches isDir read path (.file (contentType p) content)

inductive Handled (disk : Disk) (c : Call) : Handler → Answer → Disk → Prop
  | listed {answer : Answer} (hans : ∀ type content, answer ≠ .file type content) :
      Handled disk c .dir answer disk
  | fetched {answer : Answer}
      (hans : Fetches (isDir disk) disk.read (fileName c.req.uri) answer) :
      Handled disk c .common answer disk
  | stored {answer : Answer} {disk' : Disk}
      (hans : Stored disk (fileName (c.req.uri.drop 7)) c.up answer disk') :
      Handled disk c .upload answer disk'
  | kept {code : HttpdErr} {text : String} : Handled disk c .delete (.err code text) (unlinked disk disk)
  | deleted {text : String} : Handled disk c .delete (.seeOther text)
      (unlinked disk (disk.unlink (fileName (c.req.uri.drop 7))))

theorem receiveBody_frame {up : Upload} {path : Bytes} {fuel : Nat} :
    ∀ {i remaining : Nat} {disk disk' : Disk} {answer : Answer},
      receiveBody up path fuel i remaining disk = some (answer, disk') →
        (∀ p, p ≠ path → disk'.node p = disk.node p) ∧
          ∀ text, answer = .err .serverError text → text ≠ "No mem" := by
  induction fuel with
  | zero =>
      intro i remaining disk disk' answer h
      exact absurd h (by simp [receiveBody])
  | succ fuel ih =>
      intro i remaining disk disk' answer h
      rw [receiveBody] at h
      split at h
      · cases h
        refine ⟨fun p _ => rfl, ?_⟩
        rintro text ⟨⟩
      · split at h
        · exact ih h
        · cases h
          refine ⟨fun p hp => by simp [Disk.unlink, Disk.put, Disk.fclose, hp], ?_⟩
          rintro text ⟨⟩
          decide
        · rename_i received _
          dsimp only at h
          have hsame : ∀ data p, p ≠ path → (disk.append path data).node p = disk.node p := by
            intro data p hp
            rw [Disk.append]
            split
            · simp [Disk.put, hp]
            · rfl
          split at h
          · cases h
            refine ⟨fun p hp => ?_, ?_⟩
            · rw [Disk.unlink, Disk.put]
              dsimp only
              rw [if_neg hp]
              exact hsame _ p hp
            · rintro text ⟨⟩
              decide
          · obtain ⟨hrest, htext⟩ := ih h
            exact ⟨fun p hp => (hrest p hp).trans (hsame _ p hp), htext⟩

theorem storeUpload_spec {disk disk' : Disk} {name : Bytes} {up : Upload} {fuel : Nat} {answer : Answer}
    (h : storeUpload disk name up fuel = some (answer, disk')) : Stored disk name up answer disk' := by
  by_cases hnamed : name.getLast? = some 47
  · rw [storeUpload, if_pos hnamed] at h
    cases h
    exact .refused (by decide)
  by_cases hthere : (disk.node name).isSome = true
  · rw [storeUpload, if_neg hnamed, if_pos hthere] at h
    cases h
    exact .refused (by decide)
  by_cases hbig : maxFileSize < up.body.length
  · rw [storeUpload, if_neg hnamed, if_neg hthere, if_pos hbig] at h
    cases h
    exact .refused (by decide)
  have hfresh : disk.node name = none := by simpa using hthere
  cases hopens : up.opens with
  | false =>
    rw [storeUpload, if_neg hnamed, if_neg hthere, if_neg hbig, hopens] at h
    cases h
    exact .refused (by decide)
  | true =>
    rw [storeUpload_created hnamed hfresh (Nat.le_of_not_lt hbig) hopens] at h
    split at h
    · obtain ⟨hopen, hend⟩ := receiveBody_ends disk.handles (Nat.le_refl _)
        (by simp [Disk.create, Disk.put]) rfl h
      obtain ⟨hframe, htext⟩ := receiveBody_frame h
      have hother : ∀ p, p ≠ name → disk'.node p = disk.node p := by
        intro p hp
        rw [hframe p hp]
        simp [Disk.create, Disk.put, hp]
      rcases hend with ⟨rfl, hnode⟩ | ⟨⟨text, rfl⟩, hnode⟩
      · refine .done hfresh ?_ hopen
        funext p
        by_cases hp : p = name
        · rw [hp, hnode, Function.update_self]
        · rw [hother p hp, Function.update_of_ne hp]
      · refine .failed (htext text rfl) ?_ hopen
        funext p
        by_cases hp : p = name
        · rw [hp, hnode, hfresh]
        · exact hother p hp
    · cases h
      exact .unbuffered hfresh

theorem index_free : (0 : UInt8) ∉ index := by decide

theorem isDir_of_file {disk : Disk} {path content : Bytes} (h : disk.node path = some (.file content)) :
    isDir disk path = false := by
  rw [isDir, h]

theorem read_of_file {disk : Disk} {path content : Bytes} (h : disk.node path = some (.file content)) :
    disk.read path = some content := by
  rw [Disk.read, h]

theorem node_isSome (disk : Disk) (path : Bytes) :
    (disk.node path).isSome = (isDir disk path || (disk.read path).isSome) := by
  rw [isDir, Disk.read]
  cases disk.node path with
  | none => rfl
  | some node => cases node <;> rfl

theorem existing_eq {disk : Disk} {path rest : Bytes} (hfree : 0 ∉ path)
    (hlen : (path ++ 0 :: rest).length = filePathMax) :
    existing disk (path ++ 0 :: rest) path = .ok (target (isDir disk) disk.read path) := by
  have hname : 0 ∉ path ++ index := by
    rw [List.mem_append, not_or]
    exact ⟨hfree, index_free⟩
  rw [existing, target, ← node_isSome]
  cases hnode : disk.node path with
  | none =>
    rw [isDir, Disk.read, hnode]
    rfl
  | some node =>
    cases node with
    | file content =>
      rw [isDir_of_file hnode, read_of_file hnode]
      rfl
    | dir entries =>
      have hdir : isDir disk path = true := by rw [isDir, hnode]
      simp only [strlen_append hfree, within, bind, Except.bind]
      rw [if_pos hdir]
      split
      · rfl
      · next hroom =>
        have heleven : indexFile.length = 11 := rfl
        have hten : index.length = 10 := rfl
        have hcopy : strcpy 0 (path ++ 0 :: rest) path.length indexFile = _ :=
          strcpy_append index_free (by omega) []
        rw [hcopy, List.take_left' rfl]
        simp only [text_append hname]
        rfl

theorem commonHttpHandler_spec {disk : Disk} {stack : PathBuf} {req : Request} {serving : Serving}
    {answer : Answer} (huri : 0 ∉ req.uri) (h : commonHttpHandler disk stack req serving = .ok answer) :
    (fileName req.uri).length + 1 ≤ filePathMax ∧
      Fetches (isDir disk) disk.read (fileName req.uri) answer := by
  have hpath := request_path huri (Nat.zero_le _) stack
  rw [List.drop_zero, List.drop_zero] at hpath
  have hfits : (fileName req.uri).length + 1 ≤ filePathMax := by
    by_contra hlong
    rw [(commonHttpHandler_eq req huri disk stack serving).1 (Nat.lt_of_not_le hlong)] at h
    cases h
  rw [if_neg (Nat.not_lt_of_le hfits)] at hpath
  have hlen : (fileName req.uri ++ 0 :: stack.1.drop ((fileName req.uri).length + 1)).length =
      filePathMax := by
    rw [List.length_append, List.length_cons, List.length_drop, stack.2]
    omega
  refine ⟨hfits, ?_⟩
  rw [commonHttpHandler, hpath] at h
  simp only [bind, Except.bind, Returned.pointer, Bool.false_eq_true, if_false, nameAt,
    text_append (fileName_free huri), within, existing_eq (fileName_free huri) hlen] at h
  cases htarget : target (isDir disk) disk.read (fileName req.uri) with
  | none =>
    rw [htarget] at h
    cases h
    exact .missing htarget
  | some p =>
    rw [htarget] at h
    dsimp only at h
    split at h
    · cases h
      exact .failed htarget
    · next content hread =>
      split at h
      · cases h
        exact .failed htarget
      · split at h
        · cases h
          exact .failed htarget
        · cases h
          refine .served htarget ?_
          split at hread
          · exact hread
          · cases hread

theorem uploadPostHandler_spec {disk disk' : Disk} {stack : PathBuf} {req : Request} {up : Upload}
    {fuel : Nat} {answer : Answer} (huri : 0 ∉ req.uri) (hn : 7 ≤ req.uri.length)
    (h : uploadPostHandler disk stack req up fuel = .ok (some (answer, disk'))) :
    Stored disk (fileName (req.uri.drop 7)) up answer disk' := by
  rw [uploadPostHandler_eq req huri hn, Except.ok.injEq] at h
  split at h
  · cases h
    exact .refused (by decide)
  · exact storeUpload_spec h

theorem dirHttpHandler_spec {disk : Disk} {stack : PathBuf} {req : Request} {opens : Bool}
    {answer : Answer} (h : dirHttpHandler disk stack req opens = .ok (some answer)) (type : String)
    (content : Bytes) : answer ≠ .file type content := by
  rintro rfl
  simp only [dirHttpHandler, bind, Except.bind] at h
  split at h
  · cases h
  · split at h
    · cases h
    · split at h
      · cases h
      · next r _ _ hexplore =>
        cases h
        simp only [exploreDir, bind, Except.bind] at hexplore
        split at hexplore
        · cases hexplore
        · split at hexplore
          · cases hexplore
          · split at hexplore
            · cases hexplore
            · split at hexplore
              · cases hexplore
              · cases hexplore

theorem deletePostHandler_spec {disk disk' : Disk} {stack : PathBuf} {req : Request} {answer : Answer}
    (huri : 0 ∉ req.uri) (hn : 7 ≤ req.uri.length)
    (h : deletePostHandler disk stack req = .ok (answer, disk')) :
    (disk' = disk ∧ ∃ code text, answer = .err code text) ∨
      disk' = disk.unlink (fileName (req.uri.drop 7)) ∧ ∃ text, answer = .seeOther text := by
  have hfree : 0 ∉ req.uri.drop 7 := fun h => huri (List.mem_of_mem_drop h)
  rw [deletePostHandler, request_path huri hn] at h
  split at h
  · cases h
    exact .inl ⟨rfl, _, _, rfl⟩
  · simp only [bind, Except.bind, text_append (fileName_free hfree), within, Bool.false_eq_true,
      if_false] at h
    split at h
    · cases h
      exact .inl ⟨rfl, _, _, rfl⟩
    · split at h
      · cases h
        exact .inl ⟨rfl, _, _, rfl⟩
      · cases h
        exact .inr ⟨rfl, _, rfl⟩

theorem handle_spec {disk disk' : Disk} {c : Call} {handler : Handler} {answer : Answer}
    (hn : handler.skipped ≤ c.req.uri.length)
    (h : handle disk c handler = .ok (some (answer, disk'))) : Handled disk c handler answer disk' := by
  cases handler with
  | dir =>
    cases hr : dirHttpHandler (listed disk c.entries) c.stack c.req c.opens with
    | error fault =>
      rw [handle, hr] at h
      cases h
    | ok found =>
      rw [handle, hr] at h
      cases found with
      | none => cases h
      | some found =>
        cases h
        exact .listed (dirHttpHandler_spec hr)
  | common =>
    cases hr : commonHttpHandler disk c.stack c.req c.serving with
    | error fault =>
      rw [handle, hr] at h
      cases h
    | ok found =>
      rw [handle, hr] at h
      cases h
      exact .fetched (commonHttpHandler_spec c.free hr).2
  | upload => exact .stored (uploadPostHandler_spec c.free hn h)
  | delete =>
    cases hr : deletePostHandler disk c.stack c.req with
    | error fault =>
      rw [handle, hr] at h
      cases h
    | ok found =>
      obtain ⟨found, after⟩ := found
      rw [handle, hr] at h
      cases h
      rcases deletePostHandler_spec c.free hn hr with ⟨rfl, code, text, rfl⟩ | ⟨rfl, text, rfl⟩
      · exact .kept
      · exact .deleted

end Outcomes

section Store

def done : Answer → Bool
  | .seeOther _ => true
  | _ => false

def lacksMemory : Answer → Bool
  | .err _ text => text == "No mem"
  | _ => false

/-- The change of the files that a request has been answered for. An upload
without a buffer leaves its file empty. -/
def effect (e : Entry) : Option (Bytes × Option Bytes) :=
  let name := fileName (e.uri.drop 7)
  match e.handler with
  | .upload =>
    if done e.answer then some (name, some e.body)
    else if lacksMemory e.answer then some (name, some []) else none
  | .delete => if done e.answer then some (name, none) else none
  | _ => none

def leak (e : Entry) : Option Bytes :=
  match e.handler with
  | .upload => if lacksMemory e.answer then some (fileName (e.uri.drop 7)) else none
  | _ => none

def entry (c : Call) (handler : Handler) (answer : Answer) : Entry :=
  ⟨handler, c.req.uri, c.up.body, answer⟩

variable {disk disk' : Disk} {c : Call} {handler : Handler} {answer : Answer}

theorem read_congr {p : Bytes} (h : disk'.node p = disk.node p) : disk'.read p = disk.read p := by
  rw [Disk.read, Disk.read, h]

theorem isDir_congr {p : Bytes} (h : disk'.node p = disk.node p) : isDir disk' p = isDir disk p := by
  rw [isDir, isDir, h]

theorem file_stored {name content : Bytes} (hfresh : disk.node name = none)
    (hnode : disk'.node = Function.update disk.node name (some (.file content))) :
    disk'.read = Function.update disk.read name (some content) ∧ isDir disk' = isDir disk := by
  have hself : disk'.node name = some (.file content) := by rw [hnode, Function.update_self]
  have hother : ∀ p, p ≠ name → disk'.node p = disk.node p := by
    intro p hp
    rw [hnode, Function.update_of_ne hp]
  constructor
  · funext p
    by_cases hp : p = name
    · rw [hp, Function.update_self, read_of_file hself]
    · rw [Function.update_of_ne hp, read_congr (hother p hp)]
  · funext p
    by_cases hp : p = name
    · rw [hp, isDir_of_file hself, isDir, hfresh]
    · exact isDir_congr (hother p hp)

theorem create_node (disk : Disk) (path : Bytes) :
    (disk.create path).node = Function.update disk.node path (some (.file [])) := by
  funext p
  rw [Function.update_apply]
  rfl

theorem unlinked_isDir (h : ∀ p, isDir disk p = false → isDir disk' p = false) :
    isDir (unlinked disk disk') = isDir disk := by
  funext p
  cases hp : isDir disk p with
  | true =>
    have hnode : (unlinked disk disk').node p = disk.node p := if_pos hp
    rw [isDir_congr hnode, hp]
  | false =>
    have hnode : (unlinked disk disk').node p = disk'.node p := if_neg (by simp [hp])
    rw [isDir_congr hnode, h p hp]

theorem read_of_isDir {p : Bytes} (h : isDir disk p = true) : disk.read p = none := by
  rw [isDir] at h
  split at h
  · next es hnode => rw [Disk.read, hnode]
  · cases h

theorem unlinked_self : unlinked disk disk = disk := by
  rw [unlinked]
  simp only [ite_self]

theorem unlinked_read (name : Bytes) : (unlinked disk (disk.unlink name)).read =
    Function.update disk.read name none := by
  funext p
  cases hd : isDir disk p with
  | true =>
    have hnode : (unlinked disk (disk.unlink name)).node p = disk.node p := if_pos hd
    rw [read_congr hnode, read_of_isDir hd]
    by_cases hp : p = name
    · rw [hp, Function.update_self]
    · rw [Function.update_of_ne hp, read_of_isDir hd]
  | false =>
    have hnode : (unlinked disk (disk.unlink name)).node p = (disk.unlink name).node p :=
      if_neg (by simp [hd])
    rw [read_congr hnode]
    by_cases hp : p = name
    · rw [hp, Function.update_self]
      simp [Disk.read, Disk.unlink, Disk.put]
    · rw [Function.update_of_ne hp]
      exact read_congr (by simp [Disk.unlink, Disk.put, hp])

theorem handled_effect (h : Handled disk c handler answer disk') :
    disk'.read = replay disk.read (effect (entry c handler answer)).toList ∧
      disk'.handles = (leak (entry c handler answer)).toList ++ disk.handles ∧
      isDir disk' = isDir disk := by
  cases h with
  | listed => exact ⟨rfl, rfl, rfl⟩
  | fetched => exact ⟨rfl, rfl, rfl⟩
  | stored hans =>
    cases hans with
    | @refused code text htext =>
      have hlack : lacksMemory (.err code text) = false := beq_eq_false_iff_ne.2 htext
      rw [effect, leak, entry]
      dsimp only
      rw [hlack]
      exact ⟨rfl, rfl, rfl⟩
    | unbuffered hfresh =>
      obtain ⟨hread, hdir⟩ := file_stored hfresh (create_node disk (fileName (c.req.uri.drop 7)))
      exact ⟨hread, rfl, hdir⟩
    | @failed text disk' htext hsame hopen =>
      have hlack : lacksMemory (.err .serverError text) = false := beq_eq_false_iff_ne.2 htext
      rw [effect, leak, entry]
      dsimp only
      rw [hlack]
      refine ⟨?_, hopen, ?_⟩
      · funext p
        exact read_congr (congrFun hsame p)
      · funext p
        exact isDir_congr (congrFun hsame p)
    | done hfresh hnode hopen =>
      obtain ⟨hread, hdir⟩ := file_stored hfresh hnode
      exact ⟨hread, hopen, hdir⟩
  | kept =>
    rw [unlinked_self]
    exact ⟨rfl, rfl, rfl⟩
  | deleted =>
    refine ⟨unlinked_read _, rfl, unlinked_isDir fun p hp => ?_⟩
    by_cases hname : p = fileName (c.req.uri.drop 7)
    · simp [isDir, Disk.unlink, Disk.put, hname]
    · have hsame : (disk.unlink (fileName (c.req.uri.drop 7))).node p = disk.node p := by
        simp [Disk.unlink, Disk.put, hname]
      rw [isDir_congr hsame, hp]

end Store

section Runs

variable {uriMatch : Bytes → Bytes → Bool} {disk : Disk} {x y z : Server} {c : Call}

theorem step_spec (hw : Wildcard uriMatch) (h : (machine uriMatch disk).Step x c y) : y = x ∨
    ∃ handler answer disk', route uriMatch c.method c.req.uri = some handler ∧
      y = ⟨disk', x.log ++ [entry c handler answer]⟩ ∧ Handled x.disk c handler answer disk' := by
  have hs : step uriMatch x c = some (.ok y) := h
  rw [step] at hs
  split at hs
  · cases hs
    exact .inl rfl
  · next handler hr =>
    rw [serve] at hs
    split at hs
    · cases hs
    · cases hs
    · next answer disk' hh =>
      cases hs
      exact .inr ⟨handler, answer, disk', hr, rfl, handle_spec (routed_part hw hr) hh⟩

/-- What the server tells its clients is what it does: the files are those that
the answers speak of, and every GET was answered from the files at its time. -/
structure Truthful (disk : Disk) (x : Server) : Prop where
  read : x.disk.read = replay disk.read (x.log.filterMap effect)
  handles : x.disk.handles = (x.log.filterMap leak).reverse ++ disk.handles
  dirs : isDir x.disk = isDir disk
  fetched : ∀ before e after, x.log = before ++ e :: after → e.handler = .common →
    Fetches (isDir disk) (replay disk.read (before.filterMap effect)) (fileName e.uri) e.answer

theorem Truthful.answered {handler : Handler} {answer : Answer} {disk' : Disk} (hx : Truthful disk x)
    (hh : Handled x.disk c handler answer disk') :
    Truthful disk ⟨disk', x.log ++ [entry c handler answer]⟩ := by
  obtain ⟨hread, hopen, hdirs⟩ := handled_effect hh
  constructor
  · apply replay_snoc
    rw [← hx.read]
    exact hread
  · rw [List.filterMap_append, List.reverse_append, hopen, hx.handles]
    cases hl : leak (entry c handler answer) with
    | none => simp [hl]
    | some path => simp [hl]
  · exact hdirs.trans hx.dirs
  · intro before e after hlog he
    rcases List.eq_nil_or_concat after with rfl | ⟨after, last, rfl⟩
    · obtain ⟨rfl, hlast⟩ := List.append_inj' hlog rfl
      cases hlast
      cases hh with
      | fetched hans =>
        rw [hx.read, hx.dirs] at hans
        exact hans
      | listed => cases he
      | stored => cases he
      | kept => cases he
      | deleted => cases he
    · rw [List.concat_eq_append, ← List.cons_append, ← List.append_assoc] at hlog
      obtain ⟨hlog, -⟩ := List.append_inj' hlog rfl
      exact hx.fetched before e after hlog he

/-- Over any requests the server is a store of files: each file is what the last
upload or deletion of it has been answered for. -/
theorem server_truthful (hw : Wildcard uriMatch) (hx : Reachable (machine uriMatch disk) x) :
    Truthful disk x := by
  apply hx.invariant
  · rintro x rfl
    exact ⟨rfl, rfl, rfl, fun before e after h _ => by simp at h⟩
  · intro x c y _ htrue hstep
    rcases step_spec hw hstep with rfl | ⟨handler, answer, disk', -, rfl, hh⟩
    · exact htrue
    · exact htrue.answered hh

theorem file_kept {name content : Bytes} {cs : List Call} (hw : Wildcard uriMatch)
    (hrun : Run (machine uriMatch disk) y cs z) (hy : y.disk.node name = some (.file content))
    (hkept : ∀ a ∈ cs, route uriMatch a.method a.req.uri = some .delete →
      fileName (a.req.uri.drop 7) ≠ name) : z.disk.node name = some (.file content) := by
  induction hrun with
  | start => exact hy
  | @step as t a u _ hstep _ ih =>
    have ht := ih (fun b hb => hkept b (List.mem_append_left _ hb))
    rcases step_spec hw hstep with rfl | ⟨handler, answer, disk', hr, rfl, hh⟩
    · exact ht
    have hne : ∀ p, t.disk.node p = none → name ≠ p := by
      rintro p hp rfl
      rw [hp] at ht
      cases ht
    cases hh with
    | listed => exact ht
    | fetched => exact ht
    | stored hans =>
      cases hans with
      | refused => exact ht
      | unbuffered hfresh =>
        rw [create_node, Function.update_of_ne (hne _ hfresh)]
        exact ht
      | failed _ hsame _ => exact (congrFun hsame name).trans ht
      | done hfresh hnode _ =>
        rw [hnode, Function.update_of_ne (hne _ hfresh)]
        exact ht
    | kept =>
      rw [unlinked_self]
      exact ht
    | deleted =>
      have hother := hkept a (List.mem_append_right _ (List.mem_singleton.2 rfl)) hr
      have hnode : (unlinked t.disk (t.disk.unlink (fileName (a.req.uri.drop 7)))).node name =
          (t.disk.unlink (fileName (a.req.uri.drop 7))).node name :=
        if_neg (by simp [isDir_of_file ht])
      rw [hnode, Disk.unlink, Disk.put]
      dsimp only
      rw [if_neg (Ne.symm hother)]
      exact ht

theorem serve_ok {handler : Handler} {answer : Answer} {disk' : Disk}
    (hr : route uriMatch c.method c.req.uri = some handler)
    (hh : handle x.disk c handler = .ok (some (answer, disk'))) :
    (machine uriMatch disk).Step x c ⟨disk', x.log ++ [entry c handler answer]⟩ := by
  show step uriMatch x c = _
  rw [step, hr]
  dsimp only
  rw [serve, hh]
  rfl

theorem filePart_append {front part : Bytes} (h : 63 ∉ front ∧ 35 ∉ front) :
    filePart (front ++ part) = front ++ filePart part := by
  rw [filePart, List.takeWhile_append_of_pos]
  · rfl
  · intro b hb
    have hquery : b ≠ 63 := fun he => h.1 (he ▸ hb)
    have hfragment : b ≠ 35 := fun he => h.2 (he ▸ hb)
    simp [hquery, hfragment]

theorem upload_part {uri : Bytes} (h : uploadPrefix <+: filePart uri) :
    filesPrefix <+: filePart (uri.drop 7) := by
  obtain ⟨rest, hrest⟩ := h.trans (List.takeWhile_prefix _)
  have hdrop : uri.drop 7 = filesPrefix ++ rest := by
    rw [← hrest]
    rfl
  rw [hdrop, filePart_append (by decide)]
  exact List.prefix_append _ _

theorem commonHttpHandler_file {disk : Disk} {stack : PathBuf} {req : Request} {serving : Serving}
    {content : Bytes} (huri : 0 ∉ req.uri) (hfits : (fileName req.uri).length + 1 ≤ filePathMax)
    (hnode : disk.node (fileName req.uri) = some (.file content)) (hopens : serving.opens = true)
    (hmallocs : serving.mallocs = true) (hsends : ∀ i, serving.sends i = true) :
    commonHttpHandler disk stack req serving = .ok (.file (contentType (fileName req.uri)) content) := by
  have hpath := request_path huri (Nat.zero_le _) stack
  rw [List.drop_zero, List.drop_zero, if_neg (Nat.not_lt_of_le hfits)] at hpath
  have hall : sendAll serving content = true := List.all_eq_true.2 (fun i _ => hsends i)
  have hexisting : ∀ mem, existing disk mem (fileName req.uri) = .ok (some (fileName req.uri)) := by
    intro mem
    rw [existing, hnode]
    rfl
  rw [commonHttpHandler, hpath]
  simp only [bind, Except.bind, Returned.pointer, Bool.false_eq_true, if_false, nameAt, within,
    text_append (fileName_free huri), hexisting, hopens, if_true, read_of_file hnode, hmallocs, hall]
  rfl

theorem uploaded_step (hw : Wildcard uriMatch) (hstep : (machine uriMatch disk).Step x c y)
    (hans : y.log = x.log ++ [entry c .upload uploaded]) :
    y.disk.node (fileName (c.req.uri.drop 7)) = some (.file c.up.body) ∧
      (fileName (c.req.uri.drop 7)).length + 1 ≤ filePathMax ∧
      filesPrefix <+: filePart (c.req.uri.drop 7) := by
  have hs : step uriMatch x c = some (.ok y) := hstep
  rcases step_spec hw hstep with rfl | ⟨handler, answer, disk', hr, rfl, hh⟩
  · simp at hans
  rw [step, hr] at hs
  obtain ⟨-, hentry⟩ := List.append_inj' hans rfl
  cases hentry
  refine ⟨?_, ?_, ?_⟩
  · cases hh with
    | stored hdone =>
      generalize hup : uploaded = answer at hdone
      cases hdone with
      | refused => cases hup
      | unbuffered => cases hup
      | failed => cases hup
      | done _ hnode _ =>
        dsimp only
        rw [hnode, Function.update_self]
  · by_contra hlong
    dsimp only at hs
    rw [serve, handle, uploadPostHandler_eq c.req c.free (routed_part hw hr),
      if_pos (Nat.lt_of_not_le hlong)] at hs
    simp [entry, uploaded] at hs
  · cases hm : c.method with
    | get =>
      rw [hm, route_get hw] at hr
      split at hr
      · cases hr
      · split at hr
        · cases hr
        · cases hr
    | post =>
      rw [hm, route_post hw] at hr
      split at hr
      · next h => exact upload_part h
      · split at hr
        · cases hr
        · cases hr

/-- An uploaded file is served as it was sent, until a deletion of it is asked
for, and under every URI that names it. What is called /dir/ is the exception:
these URIs are taken for directories. -/
theorem upload_served {cs : List Call} {g : Call} (hw : Wildcard uriMatch)
    (hstep : (machine uriMatch disk).Step x c y)
    (hans : y.log = x.log ++ [entry c .upload uploaded]) (hrun : Run (machine uriMatch disk) y cs z)
    (hkept : ∀ a ∈ cs, route uriMatch a.method a.req.uri = some .delete →
      fileName (a.req.uri.drop 7) ≠ fileName (c.req.uri.drop 7))
    (hget : g.method = .get) (hname : filePart g.req.uri = filePart (c.req.uri.drop 7))
    (hserving : g.serving.opens = true ∧ g.serving.mallocs = true ∧ ∀ i, g.serving.sends i = true) :
    (machine uriMatch disk).Step z g ⟨z.disk, z.log ++
      [entry g .common (.file (contentType (fileName (c.req.uri.drop 7))) c.up.body)]⟩ ↔
        ¬ dirPrefix <+: filePart g.req.uri := by
  obtain ⟨hnode, hfits, hpart⟩ := uploaded_step hw hstep hans
  have hz := file_kept hw hrun hnode hkept
  have hsame : fileName g.req.uri = fileName (c.req.uri.drop 7) := by rw [fileName, fileName, hname]
  rw [← hname] at hpart
  rw [← hsame] at hz hfits ⊢
  constructor
  · intro hserve hdir
    rcases step_spec hw hserve with heq | ⟨handler, answer, disk', hr, heq, -⟩
    · have hlog := congrArg Server.log heq
      simp at hlog
    · rw [hget, route_get hw, if_pos hdir] at hr
      cases hr
      have hlog := List.append_inj' (congrArg Server.log heq) rfl
      cases hlog.2
  · intro hdir
    apply serve_ok
    · rw [hget, route_get hw, if_neg hdir, if_pos hpart]
    · rw [handle, commonHttpHandler_file g.free hfits hz hserving.1 hserving.2.1 hserving.2.2]
      rfl

end Runs

def wildcard (template uri : Bytes) : Bool :=
  if template.getLast? = some 42 then template.dropLast.isPrefixOf (filePart uri)
  else template == filePart uri

theorem wildcard_matches : Wildcard wildcard := by
  intro front uri _ _
  rw [wildcard, List.getLast?_concat, if_pos rfl, List.dropLast_concat]
  exact List.isPrefixOf_iff_prefix

def putA : Call :=
  ⟨.post, postA, by decide, array, fun _ => [], true, ⟨true, true, fun _ => true⟩, smooth [1, 2, 3] true, 2⟩

def getA : Call :=
  ⟨.get, ⟨bytes ['/', 'a', '?'], []⟩, by decide, array, fun _ => [], true,
    ⟨true, true, fun _ => true⟩, smooth [] true, 0⟩

theorem putA_step : ∃ y, (machine wildcard blank).Step ⟨blank, []⟩ putA y ∧
    y.log = [entry putA .upload uploaded] := by
  have hr : route wildcard putA.method putA.req.uri = some .upload := by
    rw [show putA.method = .post from rfl, route_post wildcard_matches, if_pos (by decide)]
  obtain ⟨disk', hh⟩ : ∃ disk', handle blank putA .upload = .ok (some (uploaded, disk')) := by
    rw [handle, uploadPostHandler_eq putA.req putA.free (by decide)]
    exact ⟨_, rfl⟩
  exact ⟨_, serve_ok hr hh, rfl⟩

theorem server_truthful_putA : ∃ x, x.log = [entry putA .upload uploaded] ∧ Truthful blank x := by
  obtain ⟨y, hstep, hlog⟩ := putA_step
  exact ⟨y, hlog, server_truthful wildcard_matches (.step (.init rfl) hstep)⟩

theorem upload_served_getA : ∃ y, (machine wildcard blank).Step y getA ⟨y.disk, y.log ++
    [entry getA .common (.file "text/plain" [1, 2, 3])]⟩ := by
  obtain ⟨y, hstep, hlog⟩ := putA_step
  exact ⟨y, (upload_served wildcard_matches hstep hlog .start nofun rfl (by decide)
    ⟨rfl, rfl, fun _ => rfl⟩).2 (by decide)⟩

end WirelessGateway.WebServer
