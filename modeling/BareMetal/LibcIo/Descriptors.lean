import BareMetal.Runs
import BareMetal.FatFs.File
import BareMetal.LibcIo.Errno

/-!
# File descriptors

The calls newlib makes for file descriptors, and the table of sixteen file objects behind
them. There is no list of the descriptors in use: a slot is taken when its object has a
volume, so `_open_r` hands out the first slot whose `obj.fs` is null, and it is FatFs that
sets and clears that field. `f_close` clears it only when the sync before it succeeds and
the object is still valid, and `_close_r` returns the error and leaves it at that: a
descriptor that is closed after its volume was unmounted or remounted, or while the disk
fails, keeps its slot for ever.

Which descriptors are **live** is a function of the history (`BareMetal.LibcIo.live`): those
that `_open_r` has returned and `_close_r` has not been called on since. The table follows
the live descriptors (`BareMetal.LibcIo.DescriptorsOk`) along every run in which a
descriptor is closed while its object is valid and its last transfers succeed
(`BareMetal.LibcIo.descriptorsOk_of_closable`); any other close leaks its slot
(`BareMetal.LibcIo.not_descriptorsOk_of_leak`).

Volumes come and go, and drives lose and regain their medium, between any two calls. The
bounce buffers that the read and write calls put before an unaligned buffer do not matter to
the descriptors and are left out.
-/

namespace BareMetal

namespace LibcIo

open FatFs

/-! ### The code -/

/-- `MAX_FILE_DESCRIPTORS`. -/
abbrev maxFileDescriptors : ℕ := 16

/-- The volumes of FatFs and `file_descriptor`. -/
structure Files where
  vols : Volumes
  fil : Fin maxFileDescriptors → Fil

/-- Power-on: nothing is mounted and every object is blank. -/
def Files.init : Files := ⟨Volumes.init, fun _ => Fil.blank⟩

/-- `whence` of a seek. -/
inductive Whence where
  | set | cur | fromEnd | other
  deriving DecidableEq, Repr

/-- A call of the file layer with what it meets on the disk, or a change under it: a volume
is mounted or unmounted, a drive changes its status. -/
inductive FileCall where
  | openR (path : Path) (cFlags : BitVec 32) (io : OpenIo)
  | readR (fd : ℤ) (io : BodyIo)
  | writeR (fd : ℤ) (n : BitVec 32) (io : BodyIo)
  | lseekR (fd : ℤ) (ptr : BitVec 32) (dir : Whence) (io : BodyIo)
  | closeR (fd : ℤ) (io : SyncIo)
  | mount (fs : Option FsPtr) (path : Path) (opt : Bool) (io : MountIo)
  | medium (pdrv : Fin ffVolumes) (status : DStatus)
  deriving DecidableEq

/-- What a call returns, and what it stores in `r->_errno` if it does. -/
structure FileResult where
  ret : ℤ
  errno : Option Errno
  deriving DecidableEq, Repr

/-- The open flags of newlib that `_open_r` looks at: `O_WRONLY | O_RDWR`, `O_APPEND`,
`O_CREAT`, `O_TRUNC`. -/
def oWriting : BitVec 32 := 0x3#32
def oAppend : BitVec 32 := 0x8#32
def oCreat : BitVec 32 := 0x200#32
def oTrunc : BitVec 32 := 0x400#32

/-- The FatFs mode of an open call. -/
def openFlags (cFlags : BitVec 32) : BitVec 8 :=
  (if has cFlags oWriting then faWrite else faRead) |||
    (if has cFlags oCreat then (if has cFlags oTrunc then faCreateAlways else faOpenAlways)
      else 0#8) |||
    (if has cFlags oAppend then faOpenAppend else 0#8)

/-- `get_descr`. -/
def getDescr (fd : ℤ) : Option (Fin maxFileDescriptors) :=
  if h : 0 ≤ fd - 3 ∧ fd - 3 < maxFileDescriptors then some ⟨(fd - 3).toNat, by omega⟩ else none

/-- The search of `_open_r` for a slot. -/
def freeDescr (s : Files) : Option (Fin maxFileDescriptors) :=
  Fin.find? fun i => (s.fil i).obj.fs.isNone

/-- Replace a file object. -/
def Files.setFil (s : Files) (i : Fin maxFileDescriptors) (fil : Fil) : Files :=
  { s with fil := Function.update s.fil i fil }

/-- `_open_r`. -/
def openR (s : Files) (path : Path) (cFlags : BitVec 32) (io : OpenIo) : FileResult × Files :=
  match freeDescr s with
  | none => (⟨-1, some .enomem⟩, s)
  | some i =>
      let r := fOpen s.vols (s.fil i) path (openFlags cFlags) io
      let t : Files := ⟨r.2.2, Function.update s.fil i r.2.1⟩
      if r.1 ≠ .ok then (⟨-1, rc2errno r.1⟩, t) else (⟨i + 3, none⟩, t)

/-- `_read_r`. -/
def readR (s : Files) (fd : ℤ) (io : BodyIo) : FileResult × Files :=
  if fd = 1 ∨ fd = 2 then (⟨-1, none⟩, s)
  else
    match getDescr fd with
    | none => (⟨-1, some .ebadf⟩, s)
    | some i =>
        let r := fRead s.vols (s.fil i) io
        if r.1.1 ≠ .ok then (⟨-1, rc2errno r.1.1⟩, s.setFil i r.2)
        else (⟨r.1.2.toInt, none⟩, s.setFil i r.2)

/-- `_write_r`; descriptors 1 and 2 are the console. -/
def writeR (s : Files) (fd : ℤ) (n : BitVec 32) (io : BodyIo) : FileResult × Files :=
  if fd = 1 ∨ fd = 2 then (⟨n.toInt, none⟩, s)
  else
    match getDescr fd with
    | none => (⟨-1, some .ebadf⟩, s)
    | some i =>
        let r := fWrite s.vols (s.fil i) io
        if r.1.1 ≠ .ok then (⟨-1, rc2errno r.1.1⟩, s.setFil i r.2)
        else (⟨r.1.2.toInt, none⟩, s.setFil i r.2)

/-- Where a seek goes, in 32-bit arithmetic. -/
def seekDest (fil : Fil) (ptr : BitVec 32) : Whence → Option (BitVec 32)
  | .set => some ptr
  | .cur => some (ptr + fil.fptr)
  | .fromEnd => some (ptr + fil.obj.objsize)
  | .other => none

/-- `_lseek_r`. -/
def lseekR (s : Files) (fd : ℤ) (ptr : BitVec 32) (dir : Whence) (io : BodyIo) :
    FileResult × Files :=
  match getDescr fd with
  | none => (⟨-1, some .ebadf⟩, s)
  | some i =>
      match seekDest (s.fil i) ptr dir with
      | none => (⟨-1, some .einval⟩, s)
      | some dest =>
          let r := fLseek s.vols (s.fil i) io
          if r.1 ≠ .ok then (⟨-1, rc2errno r.1⟩, s.setFil i r.2)
          else (⟨dest.toInt, none⟩, s.setFil i r.2)

/-- `_close_r`. -/
def closeR (s : Files) (fd : ℤ) (io : SyncIo) : FileResult × Files :=
  match getDescr fd with
  | none => (⟨-1, some .ebadf⟩, s)
  | some i =>
      -- on an error nothing is done about the slot
      let r := fClose s.vols (s.fil i) io
      if r.1 ≠ .ok then (⟨-1, rc2errno r.1⟩, s.setFil i r.2) else (⟨0, none⟩, s.setFil i r.2)

/-- One call, or one change under the file layer. -/
def fileStep (s : Files) : FileCall → FileResult × Files
  | .openR path cFlags io => openR s path cFlags io
  | .readR fd io => readR s fd io
  | .writeR fd n io => writeR s fd n io
  | .lseekR fd ptr dir io => lseekR s fd ptr dir io
  | .closeR fd io => closeR s fd io
  | .mount fs path opt io => (⟨0, none⟩, { s with vols := (fMount s.vols fs path opt io).2.2 })
  | .medium pdrv status =>
      (⟨0, none⟩, { s with vols := { s.vols with
        status := Function.update s.vols.status pdrv status } })

/-! ### Live descriptors -/

/-- **A descriptor is live** if `_open_r` has returned it and `_close_r` has not been called
on it since, whatever that call returned. -/
def live : List (FileCall × FileResult) → ℤ → Bool
  | [], _ => false
  | (.openR .., r) :: h, fd => (r.errno == none && r.ret == fd) || live h fd
  | (.closeR fd' _, _) :: h, fd => fd' != fd && live h fd
  | _ :: h, fd => live h fd

/-- A slot is taken. -/
def Occupied (s : Files) (i : Fin maxFileDescriptors) : Prop := (s.fil i).obj.fs ≠ none

instance (s : Files) (i : Fin maxFileDescriptors) : Decidable (Occupied s i) :=
  inferInstanceAs (Decidable ((s.fil i).obj.fs ≠ none))

/-- The last call, if it was an open while nothing was live, was not refused for want of
memory. -/
def NotRefused : List (FileCall × FileResult) → Prop
  | (.openR .., r) :: h => (∀ fd, live h fd = false) → r.errno ≠ some .enomem
  | _ => True

/-- **The table follows the live descriptors**: a slot is taken exactly if its descriptor is
live, live descriptors have different objects, and with nothing live an open finds a
slot. -/
structure DescriptorsOk (h : List (FileCall × FileResult)) (s : Files) : Prop where
  occupied_iff : ∀ i : Fin maxFileDescriptors, Occupied s i ↔ live h (i + 3) = true
  distinct : ∀ fd fd', live h fd = true → live h fd' = true → getDescr fd = getDescr fd' → fd = fd'
  notRefused : NotRefused h

/-- The transfers with which a sync of an object ends succeed. -/
def SyncSucceeds (fil : Fil) (io : SyncIo) : Prop :=
  has fil.flag faModified → (has fil.flag faDirty → io.write = .ok) ∧ io.window = .ok ∧ io.sync = .ok

/-- A descriptor whose slot is taken is closed only while its object is valid and the
transfers of its sync succeed, and an open, if no slot is taken, finds memory for the name
buffer of FatFs. -/
def Closable (s : Files) : FileCall → Prop
  | .closeR fd io => ∀ i, getDescr fd = some i → Occupied s i →
      validate s.vols (s.fil i).obj = .ok ∧ SyncSucceeds (s.fil i) io
  | .openR _ _ io => (∀ i, ¬Occupied s i) → io.nambuf = true
  | _ => True

/-! ### Descriptors and slots -/

theorem getDescr_add_three (i : Fin maxFileDescriptors) : getDescr (i + 3) = some i := by
  have hi := i.isLt
  rw [getDescr, dif_pos (by omega)]
  simp

theorem getDescr_eq_some {fd : ℤ} {i : Fin maxFileDescriptors} (h : getDescr fd = some i) :
    fd = i + 3 := by
  unfold getDescr at h
  split at h
  · obtain rfl := Option.some.inj h
    simp only
    omega
  · simp at h

theorem freeDescr_eq_some {s : Files} {i : Fin maxFileDescriptors} (h : freeDescr s = some i) :
    (s.fil i).obj.fs = none := by
  simpa using Fin.eq_true_of_find?_eq_some h

theorem freeDescr_eq_none {s : Files} (h : freeDescr s = none) (i : Fin maxFileDescriptors) :
    Occupied s i := by
  have hsome := Fin.eq_false_of_find?_eq_none h i
  simp only [Option.isNone_eq_false_iff] at hsome
  exact Option.isSome_iff_ne_none.mp hsome

/-! ### What a call does to the table -/

theorem setFil_self (s : Files) (i : Fin maxFileDescriptors) (fil : Fil) :
    (s.setFil i fil).fil i = fil := Function.update_self _ _ _

theorem setFil_of_ne {i j : Fin maxFileDescriptors} (hj : j ≠ i) (s : Files) (fil : Fil) :
    (s.setFil i fil).fil j = s.fil j := Function.update_of_ne hj _ _

/-- A call leaves the volumes, and every object with its mount. -/
def SameSlots (s u : Files) : Prop := u.vols = s.vols ∧ ∀ i, (s.fil i).obj.Same (u.fil i).obj

theorem SameSlots.refl (s : Files) : SameSlots s s := ⟨rfl, fun _ => .refl _⟩

/-- Replacing an object by one of the same mount. -/
theorem sameSlots_setFil {s : Files} {i : Fin maxFileDescriptors} {fil : Fil}
    (h : (s.fil i).obj.Same fil.obj) : SameSlots s (s.setFil i fil) := by
  refine ⟨rfl, fun j => ?_⟩
  by_cases hj : j = i
  · subst hj
    rw [setFil_self]
    exact h
  · rw [setFil_of_ne hj]
    exact .refl _

theorem readR_sameSlots (s : Files) (fd : ℤ) (io : BodyIo) : SameSlots s (readR s fd io).2 := by
  unfold readR
  split
  · exact .refl s
  · split
    · exact .refl s
    · dsimp only
      split <;> exact sameSlots_setFil (fAccess_same _ _ _ _)

theorem writeR_sameSlots (s : Files) (fd : ℤ) (n : BitVec 32) (io : BodyIo) :
    SameSlots s (writeR s fd n io).2 := by
  unfold writeR
  split
  · exact .refl s
  · split
    · exact .refl s
    · dsimp only
      split <;> exact sameSlots_setFil (fAccess_same _ _ _ _)

theorem lseekR_sameSlots (s : Files) (fd : ℤ) (ptr : BitVec 32) (dir : Whence) (io : BodyIo) :
    SameSlots s (lseekR s fd ptr dir io).2 := by
  unfold lseekR
  split
  · exact .refl s
  · split
    · exact .refl s
    · dsimp only
      split <;> exact sameSlots_setFil (fLseek_same _ _ _)

/-- **An open call** finds the table full, or fails and leaves the table's volumes as they
were, or takes a free slot. -/
theorem openR_cases (s : Files) (path : Path) (cFlags : BitVec 32) (io : OpenIo) :
    (openR s path cFlags io = (⟨-1, some .enomem⟩, s) ∧ ∀ i, Occupied s i) ∨
      ((openR s path cFlags io).1.errno ≠ none ∧
        (io.nambuf = true → (openR s path cFlags io).1.errno ≠ some .enomem) ∧
        ∀ j, ((openR s path cFlags io).2.fil j).obj.fs = (s.fil j).obj.fs) ∨
      ∃ i, (s.fil i).obj.fs = none ∧ (openR s path cFlags io).1 = ⟨i + 3, none⟩ ∧
        Occupied (openR s path cFlags io).2 i ∧
        ∀ j ≠ i, (openR s path cFlags io).2.fil j = s.fil j := by
  unfold openR
  split
  · rename_i hfull
    exact Or.inl ⟨rfl, freeDescr_eq_none hfull⟩
  · rename_i i hfree
    have hblank := freeDescr_eq_some hfree
    have hother : ∀ j ≠ i, Function.update s.fil i
        (fOpen s.vols (s.fil i) path (openFlags cFlags) io).2.1 j = s.fil j :=
      fun j hj => Function.update_of_ne hj _ _
    rcases fOpen_fs (v := s.vols) hblank path (openFlags cFlags) io with ⟨hok, hfs⟩ | ⟨hne, hfs⟩
    · refine Or.inr (Or.inr ⟨i, hblank, ?_, ?_, ?_⟩)
      · simp [hok]
      · simpa [Occupied, hok] using hfs
      · simpa [hok] using hother
    · refine Or.inr (Or.inl ⟨?_, fun hmem => ?_, fun j => ?_⟩)
      · simp [hne, rc2errno_eq_none_iff]
      · simpa [hne, rc2errno_eq_enomem_iff] using fOpen_ne_notEnoughCore hmem
      · simp only [ne_eq, hne, not_false_eq_true, if_true]
        by_cases hj : j = i
        · subst hj
          rw [Function.update_self, hfs, hblank]
        · rw [hother j hj]

/-- An open call that finds no slot does nothing. -/
theorem openR_of_full {s : Files} (hfull : freeDescr s = none) (path : Path)
    (cFlags : BitVec 32) (io : OpenIo) :
    openR s path cFlags io = (⟨-1, some .enomem⟩, s) := by
  unfold openR
  split
  · rfl
  · rename_i i hfree
    exact absurd (hfree.symm.trans hfull) (Option.some_ne_none i)

/-- An open call that finds a slot returns what `f_open` returns for it. -/
theorem openR_of_free {s : Files} {i : Fin maxFileDescriptors} (hfree : freeDescr s = some i)
    {path : Path} {cFlags : BitVec 32} {io : OpenIo} {r : FResult × Fil × Volumes}
    (hr : fOpen s.vols (s.fil i) path (openFlags cFlags) io = r) :
    openR s path cFlags io = (if r.1 ≠ .ok then ⟨-1, rc2errno r.1⟩ else ⟨i + 3, none⟩,
      ⟨r.2.2, Function.update s.fil i r.2.1⟩) := by
  subst hr
  unfold openR
  rw [hfree]
  dsimp only
  split <;> rfl

/-- An open call that succeeds has found a slot, and `f_open` has succeeded. -/
theorem openR_ok_imp {s : Files} {path : Path} {cFlags : BitVec 32} {io : OpenIo}
    (h : (openR s path cFlags io).1.errno = none) :
    ∃ i, freeDescr s = some i ∧ (fOpen s.vols (s.fil i) path (openFlags cFlags) io).1 = .ok := by
  cases hfree : freeDescr s with
  | none =>
    rw [openR_of_full hfree] at h
    exact absurd h (Option.some_ne_none _)
  | some i =>
    generalize hr : fOpen s.vols (s.fil i) path (openFlags cFlags) io = r
    rw [openR_of_free hfree hr] at h
    refine ⟨i, rfl, ?_⟩
    rw [hr]
    by_contra hne
    rw [if_pos hne] at h
    exact hne (rc2errno_eq_none_iff.mp h)

/-- **A close call** that meets a closable descriptor frees its slot, and only its slot. -/
theorem closeR_fs {s : Files} {fd : ℤ} {io : SyncIo} (hok : Closable s (.closeR fd io))
    (j : Fin maxFileDescriptors) :
    ((closeR s fd io).2.fil j).obj.fs = if fd = j + 3 then none else (s.fil j).obj.fs := by
  unfold closeR
  split
  · rename_i hnone
    have hne : fd ≠ j + 3 := by
      rintro rfl
      rw [getDescr_add_three] at hnone
      simp at hnone
    rw [if_neg hne]
  · rename_i i hi
    have hfil : ((s.setFil i (fClose s.vols (s.fil i) io).2).fil j).obj.fs =
        if fd = j + 3 then none else (s.fil j).obj.fs := by
      by_cases hj : j = i
      · subst hj
        rw [if_pos (getDescr_eq_some hi), setFil_self]
        by_cases hocc : Occupied s j
        · obtain ⟨hvalid, hsync⟩ := hok j hi hocc
          exact (fClose_ok hvalid (fSync_ok hvalid hsync)).2
        · -- a blank object is not valid, so the close fails and leaves it blank
          have hblank : (s.fil j).obj.fs = none := by simpa [Occupied] using hocc
          have hfail : (fClose s.vols (s.fil j) io).1 ≠ .ok := by
            simp [fClose, fSync, validate, hblank]
          rw [fClose_fs_of_ne hfail, hblank]
      · have hne : fd ≠ j + 3 := by
          rw [getDescr_eq_some hi]
          intro hcon
          exact hj (Fin.ext (by omega))
        rw [if_neg hne, setFil_of_ne hj]
    dsimp only
    split <;> exact hfil

/-! ### The invariant -/

/-- The invariant of the table: a slot is taken exactly if its descriptor is live, and only
descriptors of slots are. -/
structure FilesInv (h : List (FileCall × FileResult)) (s : Files) : Prop where
  occupied_iff : ∀ i : Fin maxFileDescriptors, Occupied s i ↔ live h (i + 3) = true
  range : ∀ fd, live h fd = true → ∃ i : Fin maxFileDescriptors, fd = i + 3

/-- Calls that leave the volumes of the objects and the live descriptors alone. -/
theorem FilesInv.keep {h : List (FileCall × FileResult)} {s t : Files} (hinv : FilesInv h s)
    {e : FileCall} {o : FileResult} (hlive : ∀ fd, live ((e, o) :: h) fd = live h fd)
    (hfs : ∀ j, (t.fil j).obj.fs = (s.fil j).obj.fs) : FilesInv ((e, o) :: h) t where
  occupied_iff i := by
    rw [hlive, ← hinv.occupied_iff i, Occupied, hfs i, Occupied]
  range fd hfd := hinv.range fd (by rwa [hlive] at hfd)

/-- With nothing live, every slot is free. -/
theorem FilesInv.not_occupied {h : List (FileCall × FileResult)} {s : Files}
    (hinv : FilesInv h s) (hnone : ∀ fd, live h fd = false) (i : Fin maxFileDescriptors) :
    ¬Occupied s i := by
  rw [hinv.occupied_iff i, hnone]
  exact Bool.false_ne_true

theorem filesInv_openR {h : List (FileCall × FileResult)} {s : Files} (hinv : FilesInv h s)
    (path : Path) (cFlags : BitVec 32) {io : OpenIo}
    (hmem : (∀ i, ¬Occupied s i) → io.nambuf = true) :
    FilesInv ((.openR path cFlags io, (openR s path cFlags io).1) :: h)
        (openR s path cFlags io).2 ∧
      NotRefused ((.openR path cFlags io, (openR s path cFlags io).1) :: h) := by
  rcases openR_cases s path cFlags io with ⟨hfull, hocc⟩ | ⟨herr, hmemory, hfs⟩ |
    ⟨i, hblank, hret, hocc, hother⟩
  · -- the table is full, which it is not with nothing live
    rw [hfull]
    refine ⟨hinv.keep (fun fd => by simp [live]) fun _ => rfl, fun hnone => ?_⟩
    exact absurd (hocc 0) (hinv.not_occupied hnone 0)
  · -- FatFs refused, and the slot is as blank as before
    refine ⟨hinv.keep (fun fd => ?_) hfs, fun hnone => hmemory (hmem (hinv.not_occupied hnone))⟩
    simp [live, herr]
  · -- slot `i` was blank and its descriptor becomes live
    rw [hret]
    refine ⟨⟨fun j => ?_, fun fd hfd => ?_⟩, fun _ => by simp⟩
    · by_cases hj : j = i
      · subst hj
        exact iff_of_true hocc (by simp [live])
      · have hne : ((i : ℤ) + 3 == (j : ℤ) + 3) = false := by
          rw [beq_eq_false_iff_ne]
          intro hcon
          exact hj (Fin.ext (by omega))
        rw [Occupied, hother j hj]
        simpa [Occupied, live, hne] using hinv.occupied_iff j
    · simp only [live, Bool.or_eq_true, Bool.and_eq_true, beq_iff_eq] at hfd
      rcases hfd with ⟨-, rfl⟩ | hfd
      · exact ⟨i, rfl⟩
      · exact hinv.range fd hfd

theorem filesInv_closeR {h : List (FileCall × FileResult)} {s : Files} (hinv : FilesInv h s)
    {fd : ℤ} {io : SyncIo} (hok : Closable s (.closeR fd io)) :
    FilesInv ((.closeR fd io, (closeR s fd io).1) :: h) (closeR s fd io).2 where
  occupied_iff i := by
    rw [Occupied, closeR_fs hok i]
    by_cases hfd : fd = i + 3
    · simp [live, hfd]
    · simpa [Occupied, live, hfd] using hinv.occupied_iff i
  range fd' hfd' := by
    simp only [live, Bool.and_eq_true] at hfd'
    exact hinv.range fd' hfd'.2

/-- **Every call keeps the invariant**, and no open is refused while nothing is live. -/
theorem filesInv_step {h : List (FileCall × FileResult)} {s : Files} (hinv : FilesInv h s)
    {e : FileCall} (hok : Closable s e) :
    FilesInv ((e, (fileStep s e).1) :: h) (fileStep s e).2 ∧
      NotRefused ((e, (fileStep s e).1) :: h) := by
  cases e with
  | openR path cFlags io => exact filesInv_openR hinv path cFlags hok
  | readR fd io =>
    exact ⟨hinv.keep (fun _ => rfl) fun j => ((readR_sameSlots s fd io).2 j).1, trivial⟩
  | writeR fd n io =>
    exact ⟨hinv.keep (fun _ => rfl) fun j => ((writeR_sameSlots s fd n io).2 j).1, trivial⟩
  | lseekR fd ptr dir io =>
    exact ⟨hinv.keep (fun _ => rfl) fun j => ((lseekR_sameSlots s fd ptr dir io).2 j).1, trivial⟩
  | closeR fd io => exact ⟨filesInv_closeR hinv hok, trivial⟩
  | mount fs path opt io => exact ⟨hinv.keep (fun _ => rfl) fun _ => rfl, trivial⟩
  | medium pdrv status => exact ⟨hinv.keep (fun _ => rfl) fun _ => rfl, trivial⟩

/-! ### Every run -/

/-- **The table follows the live descriptors along every run** in which descriptors are
closed while their objects are valid and their last transfers succeed. -/
theorem descriptorsOk_of_closable {h : List (FileCall × FileResult)} {s : Files}
    (hr : Reach (fnStep fileStep) Closable Files.init h s) : DescriptorsOk h s := by
  have hinv : FilesInv h s ∧ NotRefused h := by
    refine hr.fnInvariant (fun h s => FilesInv h s ∧ NotRefused h) ⟨⟨fun i => ?_, ?_⟩, trivial⟩ ?_
    · simp [Occupied, live, Files.init, Fil.blank]
    · simp [live]
    · rintro h s e ⟨hinv, -⟩ hok
      exact filesInv_step hinv hok
  refine ⟨hinv.1.occupied_iff, fun fd fd' hfd hfd' heq => ?_, hinv.2⟩
  obtain ⟨i, rfl⟩ := hinv.1.range fd hfd
  obtain ⟨j, rfl⟩ := hinv.1.range fd' hfd'
  rw [getDescr_add_three, getDescr_add_three] at heq
  rw [Option.some.inj heq]

/-- A card with a FAT volume on which nothing fails. -/
def mountGood : MountIo := ⟨0#8, .fat32⟩

/-- An open of an existing file on such a card. -/
def openGood : OpenIo :=
  ⟨mountGood, true, .ok, false, 0#8, .ok, .ok, 5#32, 100#32, .ok⟩

/-- A sync without errors. -/
def syncGood : SyncIo := ⟨.ok, .ok, .ok⟩

/-- The path of a file on the card. -/
def sdFile : Path := some ['/', 's', 'd', '/', 'a']

/-- A file is opened for writing and closed again. -/
theorem descriptorsOk_of_closable_openClose :
    let r := runFn fileStep [] Files.init [.mount (some .sd) (some ['/', 's', 'd']) false mountGood,
      .openR sdFile oWriting openGood, .closeR 3 syncGood]
    DescriptorsOk r.1 r.2 ∧ r.1.head? = some (.closeR 3 syncGood, ⟨0, none⟩) := by
  intro r
  have hclose : Closable (runFn fileStep [] Files.init
      [.mount (some .sd) (some ['/', 's', 'd']) false mountGood,
        .openR sdFile oWriting openGood]).2 (.closeR 3 syncGood) := by
    intro i hi hocc
    obtain rfl : (0 : Fin maxFileDescriptors) = i := Option.some.inj hi
    exact ⟨by decide, fun _ => ⟨fun _ => rfl, rfl, rfl⟩⟩
  have hreach : Reach (fnStep fileStep) Closable Files.init r.1 r.2 :=
    reach_runFn ⟨trivial, fun _ => rfl, hclose, trivial⟩
  exact ⟨descriptorsOk_of_closable hreach, by decide⟩

/-- **Closing after a remount leaks the slot.** The volume of an open file is mounted again;
the close finds the object invalid, returns an error, and the slot stays taken although the
descriptor has been closed. -/
theorem not_descriptorsOk_remount :
    let r := runFn fileStep [] Files.init [.mount (some .sd) (some ['/', 's', 'd']) false mountGood,
      .openR sdFile oWriting openGood, .mount (some .sd) (some ['/', 's', 'd']) false mountGood,
      .closeR 3 syncGood]
    Reach (fnStep fileStep) Always Files.init r.1 r.2 ∧
      r.1.head? = some (.closeR 3 syncGood, ⟨-1, some .ebadf⟩) ∧ live r.1 3 = false ∧
      (r.2.fil 0).obj.fs = some .sd ∧ ¬DescriptorsOk r.1 r.2 := by
  intro r
  refine ⟨reach_runFn okAlong_always, by decide, by decide, by decide, fun hok => ?_⟩
  have hlive := (hok.occupied_iff 0).mp (by decide)
  exact absurd hlive (by decide)

/-! ### The condition is needed -/

/-- **A close that breaks the condition leaks its slot**: the slot is still taken and its
descriptor is not live. -/
theorem not_descriptorsOk_of_leak {h : List (FileCall × FileResult)} {s : Files} {fd : ℤ}
    {io : SyncIo} (hbad : ¬Closable s (.closeR fd io)) :
    ¬DescriptorsOk ((.closeR fd io, (closeR s fd io).1) :: h) (closeR s fd io).2 := by
  simp only [Closable, Classical.not_imp, not_forall] at hbad
  obtain ⟨i, hi, hocc, hfail⟩ := hbad
  have hres : (fClose s.vols (s.fil i) io).1 ≠ .ok := fun hok => hfail (fClose_ok_imp hok)
  have htaken : Occupied (closeR s fd io).2 i := by
    simp only [closeR, hi, if_pos hres, Occupied, setFil_self, fClose_fs_of_ne hres]
    exact hocc
  intro hok
  have hlive := (hok.occupied_iff i).mp htaken
  rw [getDescr_eq_some hi] at hlive
  simp [live] at hlive

end LibcIo

end BareMetal
