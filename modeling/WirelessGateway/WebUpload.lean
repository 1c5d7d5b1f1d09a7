import WirelessGateway.WebFiles

namespace WirelessGateway.WebUpload

open CJson WebPaths WebFiles

def uploaded : Answer := .seeOther "File uploaded successfully"

structure Creates (disk : Disk) (req : Request) (up : Upload) : Prop where
  fits : (fileName (req.uri.drop 7)).length + 1 ≤ filePathMax
  named : (fileName (req.uri.drop 7)).getLast? ≠ some 47
  fresh : disk.node (fileName (req.uri.drop 7)) = none
  small : up.body.length ≤ maxFileSize
  opens : up.opens = true

/-- Success is a file with the whole body. Any other ending of an upload that
has created its file leaves neither the file nor an open handle, and the same
upload can be tried again. -/
def Atomic (disk : Disk) (stack : PathBuf) (req : Request) (up : Upload) : Prop :=
  ∀ fuel answer disk', uploadPostHandler disk stack req up fuel = .ok (some (answer, disk')) →
    (answer = uploaded → disk'.node (fileName (req.uri.drop 7)) = some (.file up.body) ∧
      disk'.handles = disk.handles) ∧
    (Creates disk req up → answer ≠ uploaded →
      disk'.node (fileName (req.uri.drop 7)) = none ∧ disk'.handles = disk.handles ∧
      ∀ stack' up' fuel' disk'', uploadPostHandler disk' stack' req up' fuel' ≠
        .ok (some (.err .badRequest "File already exists", disk'')))

theorem append_node {disk : Disk} {path content : Bytes} (data : Bytes)
    (h : disk.node path = some (.file content)) :
    (disk.append path data).node path = some (.file (content ++ data)) := by
  simp [Disk.append, h, Disk.put]

theorem append_handles (disk : Disk) (path data : Bytes) :
    (disk.append path data).handles = disk.handles := by
  unfold Disk.append
  split <;> rfl

/-- The endings of the loop, while the file holds the bytes received so far. -/
theorem receiveBody_ends {up : Upload} {path : Bytes} (handles : List Bytes) {fuel : Nat} :
    ∀ {i remaining : Nat} {disk disk' : Disk} {answer : Answer},
      remaining ≤ up.body.length →
      disk.node path = some (.file (up.body.take (up.body.length - remaining))) →
      disk.handles = path :: handles →
      receiveBody up path fuel i remaining disk = some (answer, disk') →
        disk'.handles = handles ∧
        ((answer = uploaded ∧ disk'.node path = some (.file up.body)) ∨
          (∃ text, answer = .err .serverError text) ∧ disk'.node path = none) := by
  induction fuel with
  | zero =>
      intro i remaining disk disk' answer _ _ _ h
      exact absurd h (by simp [receiveBody])
  | succ fuel ih =>
      intro i remaining disk disk' answer hle hnode hopen h
      rw [receiveBody] at h
      split at h
      · rename_i hdone
        cases h
        rw [hdone, Nat.sub_zero, List.take_length] at hnode
        exact ⟨by simp [Disk.fclose, hopen], Or.inl ⟨rfl, hnode⟩⟩
      · split at h
        · exact ih hle hnode hopen h
        · cases h
          exact ⟨by simp [Disk.unlink, Disk.put, Disk.fclose, hopen],
            Or.inr ⟨⟨_, rfl⟩, by simp [Disk.unlink, Disk.put]⟩⟩
        · rename_i received hrecv
          obtain ⟨hpos, hask⟩ := up.recv_le _ _ _ hrecv
          dsimp only at h
          split at h
          · cases h
            exact ⟨by simp [Disk.unlink, Disk.put, Disk.fclose, append_handles, hopen],
              Or.inr ⟨⟨_, rfl⟩, by simp [Disk.unlink, Disk.put]⟩⟩
          · rename_i hall
            have hwritten : up.fwrite i received = received := by
              by_contra hne
              exact hall (Ne.symm hne)
            refine ih (by omega) ?_ (by rw [append_handles, hopen]) h
            rw [append_node _ hnode, hwritten, List.take_take, Nat.min_self, ← List.take_add]
            congr 3
            omega

theorem storeUpload_created {disk : Disk} {name : Bytes} {up : Upload}
    (hnamed : name.getLast? ≠ some 47) (hfresh : disk.node name = none)
    (hsmall : up.body.length ≤ maxFileSize) (hopens : up.opens = true) (fuel : Nat) :
    storeUpload disk name up fuel =
      if up.mallocs then receiveBody up name fuel 0 up.body.length (disk.create name)
      else some (.err .serverError "No mem", disk.create name) := by
  rw [storeUpload, if_neg hnamed, hfresh, if_neg (by simp), if_neg (by omega), hopens,
    if_neg (by simp)]
  cases up.mallocs <;> rfl

theorem storeUpload_exists {disk disk' : Disk} {name : Bytes} {up : Upload} {fuel : Nat}
    (h : storeUpload disk name up fuel = some (.err .badRequest "File already exists", disk')) :
    (disk.node name).isSome = true := by
  by_contra hnone
  have hfresh : disk.node name = none := by simpa using hnone
  by_cases hnamed : name.getLast? = some 47
  · simp [storeUpload, hnamed] at h
  by_cases hsmall : maxFileSize < up.body.length
  · simp [storeUpload, hnamed, hfresh, hsmall] at h
  cases hopens : up.opens with
  | false => simp [storeUpload, hnamed, hfresh, hsmall, hopens] at h
  | true =>
      rw [storeUpload_created hnamed hfresh (by omega) hopens] at h
      split at h
      · obtain ⟨-, hend⟩ := receiveBody_ends disk.handles (Nat.le_refl _)
          (by simp [Disk.create, Disk.put]) rfl h
        rcases hend with ⟨hans, -⟩ | ⟨⟨text, hans⟩, -⟩
        · cases hans
        · cases hans
      · simp at h

theorem storeUpload_refused {disk disk' : Disk} {name : Bytes} {up : Upload} {fuel : Nat}
    {answer : Answer} (h : storeUpload disk name up fuel = some (answer, disk'))
    (hrefused : ¬ (name.getLast? ≠ some 47 ∧ disk.node name = none ∧
      up.body.length ≤ maxFileSize ∧ up.opens = true)) :
    answer ≠ uploaded := by
  rw [storeUpload] at h
  split at h
  · cases h
    exact Answer.noConfusion
  · split at h
    · cases h
      exact Answer.noConfusion
    · split at h
      · cases h
        exact Answer.noConfusion
      · split at h
        · cases h
          exact Answer.noConfusion
        · rename_i hnamed hfresh hsmall hopens
          exact absurd ⟨hnamed, by simpa using hfresh, by omega, by simpa using hopens⟩ hrefused

/-- The one ending that leaves a file behind is the one for want of a buffer. -/
theorem upload_atomic (disk : Disk) (stack : PathBuf) (req : Request) (up : Upload)
    (huri : 0 ∉ req.uri) (hskip : 7 ≤ req.uri.length) :
    Atomic disk stack req up ↔ (Creates disk req up → up.mallocs = true) := by
  constructor
  · intro hatomic hc
    by_contra hmalloc
    have hrun := uploadPostHandler_eq req huri hskip disk stack up 0
    rw [if_neg (by have := hc.fits; omega),
      storeUpload_created hc.named hc.fresh hc.small hc.opens, if_neg hmalloc] at hrun
    obtain ⟨hnode, -⟩ := (hatomic 0 _ _ hrun).2 hc Answer.noConfusion
    simp [Disk.create, Disk.put] at hnode
  · intro hmalloc fuel answer disk' hrun
    rw [uploadPostHandler_eq req huri hskip] at hrun
    by_cases hfits : filePathMax < (fileName (req.uri.drop 7)).length + 1
    · rw [if_pos hfits] at hrun
      cases hrun
      exact ⟨fun h => Answer.noConfusion h, fun hc => absurd hc.fits (by omega)⟩
    · rw [if_neg hfits, Except.ok.injEq] at hrun
      by_cases hgoes : (fileName (req.uri.drop 7)).getLast? ≠ some 47 ∧
          disk.node (fileName (req.uri.drop 7)) = none ∧
          up.body.length ≤ maxFileSize ∧ up.opens = true
      · obtain ⟨hnamed, hfresh, hsmall, hopens⟩ := hgoes
        have hc : Creates disk req up := ⟨by omega, hnamed, hfresh, hsmall, hopens⟩
        rw [storeUpload_created hnamed hfresh hsmall hopens, if_pos (hmalloc hc)] at hrun
        obtain ⟨hclosed, hend⟩ := receiveBody_ends disk.handles (Nat.le_refl _)
          (by simp [Disk.create, Disk.put]) rfl hrun
        rcases hend with ⟨rfl, hnode⟩ | ⟨⟨text, rfl⟩, hnode⟩
        · exact ⟨fun _ => ⟨hnode, hclosed⟩, fun _ hne => absurd rfl hne⟩
        · refine ⟨fun h => Answer.noConfusion h, fun _ _ => ⟨hnode, hclosed, ?_⟩⟩
          intro stack' up' fuel' disk'' hretry
          rw [uploadPostHandler_eq req huri hskip, if_neg hfits, Except.ok.injEq] at hretry
          simpa [hnode] using storeUpload_exists hretry
      · refine ⟨fun h => absurd h (storeUpload_refused hrun hgoes), fun hc => ?_⟩
        exact absurd ⟨hc.named, hc.fresh, hc.small, hc.opens⟩ hgoes

def postA : Request :=
  ⟨bytes ['/', 'u', 'p', 'l', 'o', 'a', 'd', '/', 'a'], []⟩

theorem upload_atomic_postA : Atomic blank array postA (smooth [1, 2, 3] true) :=
  (upload_atomic blank array postA (smooth [1, 2, 3] true) (by decide) (by decide)).2
    (fun _ => rfl)

/-- Without a buffer the file and its handle stay, and the retry is refused. -/
theorem upload_unbuffered_left :
    ∃ disk', uploadPostHandler blank array postA (smooth [1] false) 0 =
        .ok (some (.err .serverError "No mem", disk')) ∧
      disk'.handles ≠ blank.handles ∧
      uploadPostHandler disk' array postA (smooth [1] true) 2 =
        .ok (some (.err .badRequest "File already exists", disk')) ∧
      ¬ Atomic blank array postA (smooth [1] false) := by
  have hrun : uploadPostHandler blank array postA (smooth [1] false) 0 =
      .ok (some (.err .serverError "No mem", blank.create (fileName (bytes ['/', 'a'])))) := by
    rw [uploadPostHandler_eq postA (by decide) (by decide)]
    rfl
  refine ⟨_, hrun, by simp [Disk.create, blank], ?_, ?_⟩
  · rw [uploadPostHandler_eq postA (by decide) (by decide)]
    rfl
  · intro hatomic
    have hc : Creates blank postA (smooth [1] false) :=
      ⟨by decide, by decide, rfl, by decide, rfl⟩
    obtain ⟨hnode, -⟩ := (hatomic 0 _ _ hrun).2 hc Answer.noConfusion
    exact absurd hnode (by simp [Disk.create, Disk.put, postA, bytes])

end WirelessGateway.WebUpload
