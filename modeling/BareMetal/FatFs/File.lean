import BareMetal.FatFs.Volume

/-!
# Files of FatFs

The calls of `ff.c` that work on a file object: open, read, write, seek, sync and close. An
object is blank while its `fs` is null; `f_open` validates it, and blanks it again if it
fails; `f_close` blanks it **only if** the sync before it succeeded and the object is still
valid.

What happens inside a volume – following a path, extending a directory, walking a cluster
chain, moving sectors – depends on what is on the disk and on how the transfers end. Each
call therefore takes what those steps return as an input, one field for each step of the C
function that can fail, and is otherwise the C function: its order of checks, its flags and
the fields of the object it writes.
-/

namespace BareMetal

namespace FatFs

/-- The results of the internal functions of `ff.c` that work inside a mounted volume
(`follow_path`, `dir_register`, `remove_chain`, `move_window`, `sync_fs`). -/
inductive InnerResult where
  | ok | diskErr | intErr | noFile | noPath | invalidName | denied
  deriving DecidableEq, Repr

def InnerResult.toFResult : InnerResult → FResult
  | .ok => .ok
  | .diskErr => .diskErr
  | .intErr => .intErr
  | .noFile => .noFile
  | .noPath => .noPath
  | .invalidName => .invalidName
  | .denied => .denied

theorem InnerResult.toFResult_eq_ok_iff {r : InnerResult} : r.toFResult = .ok ↔ r = .ok := by
  cases r <;> simp [InnerResult.toFResult]

theorem InnerResult.toFResult_ne_notEnoughCore (r : InnerResult) :
    r.toFResult ≠ .notEnoughCore := by
  cases r <;> simp [InnerResult.toFResult]

/-! ### Opening -/

/-- What `f_open` meets: the mount of the volume if it is not mounted yet, whether there is
memory for the name buffer, what following the path returns and finds, how creating and
truncating end, the directory entry, and how the seek to the end of the file ends. -/
structure OpenIo where
  mount : MountIo
  nambuf : Bool
  follow : InnerResult
  noName : Bool
  attr : BitVec 8
  register : InnerResult
  truncate : InnerResult
  sclust : BitVec 32
  objsize : BitVec 32
  seek : InnerResult
  deriving DecidableEq, Repr

/-- The mode bits `f_open` looks at. -/
def openMask : BitVec 8 :=
  faRead ||| faWrite ||| faCreateAlways ||| faCreateNew ||| faOpenAlways ||| faOpenAppend

/-- The part of `f_open` that creates or opens a file, after the path has been followed with
result `res`; the mode gains `FA_CREATE_ALWAYS` when there was nothing to open. -/
def createOrOpen (mode : BitVec 8) (res : FResult) (io : OpenIo) : FResult × BitVec 8 :=
  if has mode (faCreateAlways ||| faOpenAlways ||| faCreateNew) then
    let r : FResult × BitVec 8 :=
      if res ≠ .ok then
        -- the mode changes for every failure, but only a missing file is created
        (if res = .noFile then io.register.toFResult else res, mode ||| faCreateAlways)
      else if has io.attr (amRdo ||| amDir) then (.denied, mode)
      else if has mode faCreateNew then (.exist, mode)
      else (.ok, mode)
    if r.1 = .ok ∧ has r.2 faCreateAlways then (io.truncate.toFResult, r.2) else r
  else
    let r : FResult :=
      if res = .ok then
        if has io.attr amDir then .noFile
        else if has mode faWrite && has io.attr amRdo then .denied
        else .ok
      else res
    (r, mode)

/-- The object `f_open` makes, before it seeks: a file that was created or truncated is
empty. -/
def openedFil (v : Volumes) (p : FsPtr) (mode : BitVec 8) (io : OpenIo) : Fil :=
  let fresh := has mode faCreateAlways
  { obj := ⟨some p, (v.fatfs p).id, if fresh then 0#32 else io.sclust,
      if fresh then 0#32 else io.objsize⟩
    flag := if fresh then mode ||| faModified else mode
    err := .ok
    fptr := 0#32 }

/-- A blank object, with the rest of its fields as they were. -/
def Fil.clear (fil : Fil) : Fil := { fil with obj := { fil.obj with fs := none } }

/-- The object is validated and, if the file is to be appended to, moved to its end. -/
def openAt (v : Volumes) (p : FsPtr) (mode : BitVec 8) (io : OpenIo) : FResult × Fil :=
  let fil := openedFil v p mode io
  if has mode faSeekend && fil.obj.objsize != 0#32 then
    (io.seek.toFResult, { fil with fptr := fil.obj.objsize })
  else
    (.ok, fil)

/-- What following the path comes to: the origin directory itself is no file. -/
def OpenIo.followed (io : OpenIo) : FResult :=
  if io.follow = .ok ∧ io.noName then .invalidName else io.follow.toFResult

/-- `f_open` inside the volume it has found. -/
def openIn (v : Volumes) (fil : Fil) (p : FsPtr) (mode : BitVec 8) (io : OpenIo) :
    FResult × Fil :=
  let r := createOrOpen mode io.followed io
  if r.1 = .ok then openAt v p r.2 io else (r.1, fil)

/-- `f_open`. When there is no memory for the name buffer the call returns at once, without
blanking the object. -/
def fOpen (v : Volumes) (fil : Fil) (path : Path) (mode : BitVec 8) (io : OpenIo) :
    FResult × Fil × Volumes :=
  match findVolume v path (mode &&& openMask) io.mount with
  | ((.ok, some p), _, w) =>
      if !io.nambuf then
        (.notEnoughCore, fil, w)
      else
        let o := openIn w fil p (mode &&& openMask) io
        (o.1, if o.1 = .ok then o.2 else o.2.clear, w)
  | ((res, _), _, w) => (res, fil.clear, w)

/-! ### Reading, writing and seeking -/

/-- What the transfer loop of a call leaves: how much was moved, the error it aborted with
if it did, and the fields of the object. -/
structure BodyIo where
  count : BitVec 32
  abort : Option InnerResult
  flag : BitVec 8
  sclust : BitVec 32
  objsize : BitVec 32
  fptr : BitVec 32
  deriving DecidableEq, Repr

/-- Run the transfer loop of a call; `ABORT` keeps the error in the object. -/
def Fil.transfer (fil : Fil) (io : BodyIo) : (FResult × BitVec 32) × Fil :=
  let fil' := { fil with
    obj := { fil.obj with sclust := io.sclust, objsize := io.objsize }
    flag := io.flag
    fptr := io.fptr }
  match io.abort with
  | none => ((.ok, io.count), fil')
  | some res => ((res.toFResult, io.count), { fil' with err := res.toFResult })

/-- The checks at the head of `f_read` and `f_write`: the object is valid, has not failed
before, and was opened for the access. -/
def fAccess (v : Volumes) (fil : Fil) (access : BitVec 8) (io : BodyIo) :
    (FResult × BitVec 32) × Fil :=
  if validate v fil.obj ≠ .ok then ((validate v fil.obj, 0#32), fil)
  else if fil.err ≠ .ok then ((fil.err, 0#32), fil)
  else if !has fil.flag access then ((.denied, 0#32), fil)
  else fil.transfer io

/-- `f_read`. -/
def fRead (v : Volumes) (fil : Fil) (io : BodyIo) : (FResult × BitVec 32) × Fil :=
  fAccess v fil faRead io

/-- `f_write`. -/
def fWrite (v : Volumes) (fil : Fil) (io : BodyIo) : (FResult × BitVec 32) × Fil :=
  fAccess v fil faWrite io

/-- `f_lseek`, which moves along the cluster chain and may extend it. -/
def fLseek (v : Volumes) (fil : Fil) (io : BodyIo) : FResult × Fil :=
  if validate v fil.obj ≠ .ok then (validate v fil.obj, fil)
  else if fil.err ≠ .ok then (fil.err, fil)
  else ((fil.transfer io).1.1, (fil.transfer io).2)

/-! ### Syncing and closing -/

/-- What `f_sync` meets: the write of the private sector buffer, the read of the directory
sector, and the flush of the volume. -/
structure SyncIo where
  write : DResult
  window : InnerResult
  sync : InnerResult
  deriving DecidableEq, Repr

/-- `f_sync`. -/
def fSync (v : Volumes) (fil : Fil) (io : SyncIo) : FResult × Fil :=
  if validate v fil.obj ≠ .ok then
    (validate v fil.obj, fil)
  else if has fil.flag faModified then
    if has fil.flag faDirty && io.write != .ok then
      (.diskErr, fil)
    else
      let fil := { fil with flag := fil.flag &&& ~~~faDirty }
      if io.window = .ok then
        -- the flag goes whatever `sync_fs` returns
        (io.sync.toFResult, { fil with flag := fil.flag &&& ~~~faModified })
      else
        (io.window.toFResult, fil)
  else
    (.ok, fil)

/-- `f_close`. -/
def fClose (v : Volumes) (fil : Fil) (io : SyncIo) : FResult × Fil :=
  match fSync v fil io with
  | (.ok, fil) =>
      if validate v fil.obj = .ok then (.ok, fil.clear) else (validate v fil.obj, fil)
  | (res, fil) => (res, fil)

/-! ### What a call does to the validity of an object -/

/-- Two objects belong to one mount of one volume. -/
def FfObjId.Same (a b : FfObjId) : Prop := b.fs = a.fs ∧ b.id = a.id

theorem FfObjId.Same.refl (a : FfObjId) : a.Same a := ⟨rfl, rfl⟩

/-- A transfer leaves the object with its volume. -/
theorem Fil.transfer_same (fil : Fil) (io : BodyIo) : fil.obj.Same (fil.transfer io).2.obj := by
  unfold Fil.transfer
  split <;> exact ⟨rfl, rfl⟩

theorem fAccess_same (v : Volumes) (fil : Fil) (access : BitVec 8) (io : BodyIo) :
    fil.obj.Same (fAccess v fil access io).2.obj := by
  unfold fAccess
  split_ifs
  · exact .refl _
  · exact .refl _
  · exact .refl _
  · exact Fil.transfer_same fil io

theorem fLseek_same (v : Volumes) (fil : Fil) (io : BodyIo) :
    fil.obj.Same (fLseek v fil io).2.obj := by
  unfold fLseek
  split_ifs
  · exact .refl _
  · exact .refl _
  · exact Fil.transfer_same fil io

/-- A sync does not touch the identity of the object. -/
theorem fSync_obj (v : Volumes) (fil : Fil) (io : SyncIo) :
    (fSync v fil io).2.obj = fil.obj := by
  simp only [fSync]
  split
  · rfl
  · split
    · split
      · rfl
      · split <;> rfl
    · rfl

/-- A sync succeeds on a valid object whose transfers succeed. -/
theorem fSync_ok {v : Volumes} {fil : Fil} {io : SyncIo} (hvalid : validate v fil.obj = .ok)
    (hio : has fil.flag faModified →
      (has fil.flag faDirty → io.write = .ok) ∧ io.window = .ok ∧ io.sync = .ok) :
    (fSync v fil io).1 = .ok := by
  simp only [fSync, hvalid, ne_eq, not_true_eq_false, if_false]
  split
  · rename_i hmod
    obtain ⟨hwrite, hwindow, hsync⟩ := hio hmod
    split
    · rename_i hdirty
      simp only [Bool.and_eq_true, bne_iff_ne] at hdirty
      exact absurd (hwrite hdirty.1) hdirty.2
    · simp [hsync, InnerResult.toFResult]
  · rfl

/-- **A close that succeeds blanks the object**, and it succeeds on a valid object whose
sync succeeds. -/
theorem fClose_ok {v : Volumes} {fil : Fil} {io : SyncIo} (hvalid : validate v fil.obj = .ok)
    (hsync : (fSync v fil io).1 = .ok) :
    (fClose v fil io).1 = .ok ∧ (fClose v fil io).2.obj.fs = none := by
  have hobj := fSync_obj v fil io
  unfold fClose
  split
  · rename_i fil' heq
    rw [heq] at hobj
    rw [if_pos (by rw [show fil'.obj = fil.obj from hobj]; exact hvalid)]
    exact ⟨rfl, rfl⟩
  · rename_i res fil' hne heq
    rw [heq] at hsync
    exact absurd hsync hne

/-- A sync that succeeds found a valid object, and its transfers succeeded. -/
theorem fSync_ok_imp {v : Volumes} {fil : Fil} {io : SyncIo} (h : (fSync v fil io).1 = .ok) :
    validate v fil.obj = .ok ∧ (has fil.flag faModified →
      (has fil.flag faDirty → io.write = .ok) ∧ io.window = .ok ∧ io.sync = .ok) := by
  simp only [fSync] at h
  split at h
  · rename_i hinvalid
    exact absurd h hinvalid
  · rename_i hvalid
    refine ⟨not_not.mp hvalid, fun hmod => ?_⟩
    rw [if_pos hmod] at h
    split at h
    · simp at h
    · rename_i hwrite
      split at h
      · rename_i hwindow
        refine ⟨fun hdirty => ?_, hwindow, InnerResult.toFResult_eq_ok_iff.mp h⟩
        simpa [hdirty] using hwrite
      · rename_i hwindow
        exact absurd (InnerResult.toFResult_eq_ok_iff.mp h) hwindow

/-- So did the sync of a close that succeeds. -/
theorem fClose_ok_imp {v : Volumes} {fil : Fil} {io : SyncIo} (h : (fClose v fil io).1 = .ok) :
    validate v fil.obj = .ok ∧ (has fil.flag faModified →
      (has fil.flag faDirty → io.write = .ok) ∧ io.window = .ok ∧ io.sync = .ok) := by
  refine fSync_ok_imp ?_
  unfold fClose at h
  split at h
  · rename_i fil' heq
    rw [heq]
  · rename_i res fil' hne heq
    exact absurd h hne

/-- A close that succeeds leaves a blank object. -/
theorem fClose_fs_of_ok {v : Volumes} {fil : Fil} {io : SyncIo}
    (hres : (fClose v fil io).1 = .ok) : (fClose v fil io).2.obj.fs = none := by
  obtain ⟨hvalid, hsync⟩ := fClose_ok_imp hres
  exact (fClose_ok hvalid (fSync_ok hvalid hsync)).2

/-- A close that fails leaves the object as it was. -/
theorem fClose_fs_of_ne {v : Volumes} {fil : Fil} {io : SyncIo}
    (hres : (fClose v fil io).1 ≠ .ok) : (fClose v fil io).2.obj = fil.obj := by
  have hobj := fSync_obj v fil io
  unfold fClose at hres ⊢
  split at hres
  · rename_i fil' heq
    rw [heq] at hobj
    split at hres
    · exact absurd rfl hres
    · rename_i hinvalid
      rw [if_neg hinvalid]
      exact hobj
  · rename_i res fil' hne heq
    rw [heq] at hobj
    exact hobj

/-- The seek to the end of the file moves the position and nothing else. -/
theorem openAt_fields (v : Volumes) (p : FsPtr) (m : BitVec 8) (io : OpenIo) :
    (openAt v p m io).2.obj = (openedFil v p m io).obj ∧
      (openAt v p m io).2.flag = (openedFil v p m io).flag ∧
      (openAt v p m io).2.err = (openedFil v p m io).err := by
  unfold openAt
  dsimp only
  split <;> exact ⟨rfl, rfl, rfl⟩

/-- Inside a volume, an open that succeeds makes the object. -/
theorem openIn_ok_imp {v : Volumes} {fil : Fil} {p : FsPtr} {mode : BitVec 8} {io : OpenIo}
    (h : (openIn v fil p mode io).1 = .ok) :
    (createOrOpen mode io.followed io).1 = .ok ∧
      openIn v fil p mode io = openAt v p (createOrOpen mode io.followed io).2 io := by
  by_cases hres : (createOrOpen mode io.followed io).1 = .ok
  · exact ⟨hres, if_pos hres⟩
  · rw [openIn, if_neg hres] at h
    exact absurd h hres

theorem openIn_fs {v : Volumes} {fil : Fil} {p : FsPtr} {mode : BitVec 8} {io : OpenIo}
    (h : (openIn v fil p mode io).1 = .ok) : (openIn v fil p mode io).2.obj.fs = some p := by
  rw [(openIn_ok_imp h).2, (openAt_fields _ _ _ _).1]
  rfl

/-- **Opening** either succeeds and validates the object, or fails and leaves it blank if it
was. -/
theorem fOpen_fs {v : Volumes} {fil : Fil} (hblank : fil.obj.fs = none) (path : Path)
    (mode : BitVec 8) (io : OpenIo) :
    ((fOpen v fil path mode io).1 = .ok ∧ (fOpen v fil path mode io).2.1.obj.fs ≠ none) ∨
      ((fOpen v fil path mode io).1 ≠ .ok ∧ (fOpen v fil path mode io).2.1.obj.fs = none) := by
  unfold fOpen
  split
  · rename_i p calls w hfind
    split
    · exact Or.inr ⟨by simp, hblank⟩
    · by_cases hres : (openIn w fil p (mode &&& openMask) io).1 = .ok
      · simp only [if_pos hres]
        exact Or.inl ⟨hres, by simp [openIn_fs hres]⟩
      · simp only [if_neg hres]
        exact Or.inr ⟨hres, rfl⟩
  · rename_i res q calls w hne hfind
    refine Or.inr ⟨fun hok => ?_, rfl⟩
    have hsome : ∃ p, (findVolume v path (mode &&& openMask) io.mount).1.2 = some p :=
      findVolume_ok (by rw [hfind]; exact hok)
    obtain ⟨p, hp⟩ := hsome
    rw [hfind] at hp
    exact hne p hok hp

/-- The volumes an open leaves are those that `find_volume` leaves. -/
theorem fOpen_vols (v : Volumes) (fil : Fil) (path : Path) (mode : BitVec 8) (io : OpenIo) :
    (fOpen v fil path mode io).2.2 = (findVolume v path (mode &&& openMask) io.mount).2.2 := by
  unfold fOpen
  split
  · rename_i p calls w hfind
    rw [hfind]
    split <;> rfl
  · rename_i hfind
    rw [hfind]

/-- What an open does in a volume that it has found. -/
theorem fOpen_of_found {v w : Volumes} {path : Path} {mode : BitVec 8} {io : OpenIo} {p : FsPtr}
    {calls : List DiskCall}
    (hfind : findVolume v path (mode &&& openMask) io.mount = ((.ok, some p), calls, w))
    (hmem : io.nambuf = true) (fil : Fil) :
    fOpen v fil path mode io = ((openIn w fil p (mode &&& openMask) io).1,
      if (openIn w fil p (mode &&& openMask) io).1 = .ok then
        (openIn w fil p (mode &&& openMask) io).2
      else (openIn w fil p (mode &&& openMask) io).2.clear, w) := by
  simp only [fOpen, hfind, hmem, Bool.not_true, Bool.false_eq_true, if_false]

/-- **An open that succeeds** has found its volume and memory for the name, has created or found
the file, and leaves the object that `openAt` makes. -/
theorem fOpen_ok_imp {v : Volumes} {fil : Fil} {path : Path} {mode : BitVec 8} {io : OpenIo}
    (h : (fOpen v fil path mode io).1 = .ok) :
    let m := createOrOpen (mode &&& openMask) io.followed io
    ∃ p calls w, findVolume v path (mode &&& openMask) io.mount = ((.ok, some p), calls, w) ∧
      io.nambuf = true ∧ m.1 = .ok ∧ (openAt w p m.2 io).1 = .ok ∧
      (fOpen v fil path mode io).2 = ((openAt w p m.2 io).2, w) := by
  unfold fOpen at h ⊢
  split at h
  · rename_i p calls w hfind
    rw [hfind]
    dsimp only at h ⊢
    split at h
    · simp at h
    · rename_i hmem
      obtain ⟨hmode, heq⟩ := openIn_ok_imp h
      rw [if_neg hmem, if_pos h]
      rw [heq] at h ⊢
      exact ⟨p, calls, w, rfl, by simpa using hmem, hmode, h, rfl⟩
  · rename_i res q calls w hne hfind
    have hok : (findVolume v path (mode &&& openMask) io.mount).1.1 = .ok := by
      rw [hfind]
      exact h
    obtain ⟨p, hp⟩ := findVolume_ok hok
    rw [hfind] at hp
    exact absurd hp (hne p h)

/-- The mode of the object is that of the call, with `FA_CREATE_ALWAYS` if there was nothing to
open. -/
theorem createOrOpen_mode (mode : BitVec 8) (res : FResult) (io : OpenIo) :
    (createOrOpen mode res io).2 = mode ∨
      res ≠ .ok ∧ (createOrOpen mode res io).2 = mode ||| faCreateAlways := by
  unfold createOrOpen
  dsimp only
  split_ifs <;> simp_all

theorem createOrOpen_ne_notEnoughCore (mode : BitVec 8) {res : FResult} (io : OpenIo)
    (hres : res ≠ .notEnoughCore) : (createOrOpen mode res io).1 ≠ .notEnoughCore := by
  have hreg := io.register.toFResult_ne_notEnoughCore
  have htrunc := io.truncate.toFResult_ne_notEnoughCore
  unfold createOrOpen
  dsimp only
  split_ifs <;> simp_all

theorem openIn_ne_notEnoughCore (v : Volumes) (fil : Fil) (p : FsPtr) (mode : BitVec 8)
    (io : OpenIo) : (openIn v fil p mode io).1 ≠ .notEnoughCore := by
  have hfollow : io.followed ≠ .notEnoughCore := by
    unfold OpenIo.followed
    split
    · simp
    · exact io.follow.toFResult_ne_notEnoughCore
  have hcreate := createOrOpen_ne_notEnoughCore mode io hfollow
  simp only [openIn]
  split
  · simp only [openAt]
    split
    · exact io.seek.toFResult_ne_notEnoughCore
    · simp
  · exact hcreate

/-- **Opening runs out of memory only for its name buffer.** -/
theorem fOpen_ne_notEnoughCore {v : Volumes} {fil : Fil} {path : Path} {mode : BitVec 8}
    {io : OpenIo} (hmem : io.nambuf = true) :
    (fOpen v fil path mode io).1 ≠ .notEnoughCore := by
  have hfind := findVolume_ne_notEnoughCore v path (mode &&& openMask) io.mount
  unfold fOpen
  split
  · rename_i p calls w _
    simp only [hmem, Bool.not_true, Bool.false_eq_true, if_false]
    exact openIn_ne_notEnoughCore w fil p (mode &&& openMask) io
  · rename_i res q calls w _ heq
    rw [heq] at hfind
    exact hfind

end FatFs

end BareMetal
