import BareMetal.FatFs.Write
import BareMetal.LibcIo.Descriptors

/-!
# The modes of an open call

`_open_r` translates the flags of newlib into the mode bits of FatFs, and three of them do not
survive the translation. `O_RDWR` becomes `FA_WRITE` alone, so that such a descriptor cannot be
read. `O_TRUNC` counts only next to `O_CREAT`, and then also for a descriptor that is open for
reading. And `O_APPEND` becomes `FA_OPEN_APPEND`, which contains `FA_OPEN_ALWAYS` and creates a
file that is missing.

What a path leads to is a `BareMetal.LibcIo.Target`, and `BareMetal.LibcIo.openTarget` is the
call together with what it leaves there. The modes are honoured for exactly the calls that stay
clear of the three (`BareMetal.LibcIo.openHonoured_iff`).
-/

namespace BareMetal

namespace LibcIo

open FatFs

/-! ### The code -/

/-- The access modes of newlib. -/
def oRdonly : BitVec 32 := 0x0#32
def oWronly : BitVec 32 := 0x1#32
def oRdwr : BitVec 32 := 0x2#32

/-- The access mode of an open call. -/
def accMode (cFlags : BitVec 32) : BitVec 32 := cFlags &&& oWriting

/-- A directory entry and the bytes of its file. -/
structure FileEntry where
  attr : BitVec 8
  sclust : BitVec 32
  content : List (BitVec 8)
  length_lt : content.length < 2 ^ 32

/-- What creating or truncating a file leaves: no cluster and no bytes. -/
def FileEntry.empty : FileEntry := ⟨amArc, 0#32, [], by decide⟩

/-- Why a path leads nowhere; the last is a path that ends at a directory without a name. -/
inductive PathError where
  | noPath | invalidName | diskErr | intErr | origin
  deriving DecidableEq, Repr

/-- What a path leads to on its volume: a directory without the entry, an entry, or nothing. -/
inductive Target where
  | missing
  | file (e : FileEntry)
  | unreachable (r : PathError)

/-- The rest of what an open call meets: the mount of the volume if it is not mounted, whether
there is memory for the name, and how registering a new entry, freeing the clusters of an old
one and following them to the end of the file end. A directory that is extended does not run
into its own end. -/
structure OpenEnv where
  mount : MountIo
  nambuf : Bool
  register : InnerResult
  truncate : InnerResult
  seek : InnerResult
  register_ne : register ≠ .noFile ∧ register ≠ .noPath

/-- What `follow_path` returns. -/
def PathError.follow : PathError → InnerResult
  | .noPath => .noPath
  | .invalidName => .invalidName
  | .diskErr => .diskErr
  | .intErr => .intErr
  | .origin => .ok

/-- What `f_open` meets at a target. An entry without a cluster has nothing to free. -/
def OpenEnv.io (env : OpenEnv) : Target → OpenIo
  | .missing =>
      ⟨env.mount, env.nambuf, .noFile, false, 0#8, env.register, .ok, 0#32, 0#32, env.seek⟩
  | .file e =>
      ⟨env.mount, env.nambuf, .ok, false, e.attr, env.register,
        if e.sclust = 0#32 then .ok else env.truncate, e.sclust,
        BitVec.ofNat 32 e.content.length, env.seek⟩
  | .unreachable r =>
      ⟨env.mount, env.nambuf, r.follow, r = .origin, 0#8, env.register, .ok, 0#32, 0#32, env.seek⟩

/-- The mode of FatFs, as `f_open` reads it. -/
def openMode (cFlags : BitVec 32) : BitVec 8 := openFlags cFlags &&& openMask

/-- What `f_open` leaves at a target: a missing entry is registered, and a file is emptied before
its clusters are freed, however that ends. -/
def openEntry (mode : BitVec 8) (env : OpenEnv) : Target → Target
  | .missing =>
      if has mode (faCreateAlways ||| faOpenAlways ||| faCreateNew) ∧ env.register = .ok then
        .file .empty
      else .missing
  | .file e =>
      if has mode faCreateAlways ∧ has mode faCreateNew = false ∧
          has e.attr (amRdo ||| amDir) = false then
        .file .empty
      else .file e
  | .unreachable r => .unreachable r

/-- `_open_r`, with what it leaves at the target: `f_open` gets there if there is a slot, the
volume is found and there is memory for the name. -/
def openTarget (s : Files) (path : Path) (cFlags : BitVec 32) (t : Target) (env : OpenEnv) :
    (FileResult × Files) × Target :=
  (openR s path cFlags (env.io t),
    if (freeDescr s).isSome ∧
        (findVolume s.vols path (openMode cFlags) env.mount).1.1 = .ok ∧ env.nambuf then
      openEntry (openMode cFlags) env t
    else t)

/-! ### The property -/

/-- A descriptor can be read: a read that meets no error succeeds. -/
def Readable (s : Files) (fd : ℤ) : Prop :=
  ∀ io : BodyIo, io.abort = none → (readR s fd io).1.errno = none

/-- A descriptor can be written. -/
def Writable (s : Files) (fd : ℤ) : Prop :=
  ∀ (n : BitVec 32) (io : BodyIo), io.abort = none → (writeR s fd n io).1.errno = none

/-- There is no such file: its directory has no such entry, or there is no such directory. -/
def Target.Absent : Target → Prop
  | .missing => True
  | .unreachable r => r = .noPath
  | .file _ => False

/-- The access modes that write. -/
def Writing (cFlags : BitVec 32) : Prop := accMode cFlags = oWronly ∨ accMode cFlags = oRdwr

/-- The call gets to the target: a slot is free, the volume can be used, and there is memory for
the name. -/
def Reached (s : Files) (path : Path) (cFlags : BitVec 32) (env : OpenEnv) : Prop :=
  (∃ i, (s.fil i).obj.fs = none) ∧
    VolumeReady s.vols path (openMode cFlags &&& ~~~faRead != 0#8) env.mount ∧ env.nambuf = true

/-- **The mode of an open call is honoured**: a descriptor can be read and written as the access
mode says; a missing file is created only with `O_CREAT`, and without it is reported as missing
by a call that gets to look; and a file loses its content only with `O_TRUNC` and an access mode
that writes, and then it does. -/
structure OpenHonoured (s : Files) (path : Path) (cFlags : BitVec 32) (t : Target)
    (env : OpenEnv) : Prop where
  readable : ∀ fd, (openTarget s path cFlags t env).1.1 = ⟨fd, none⟩ →
    (Readable (openTarget s path cFlags t env).1.2 fd ↔
      accMode cFlags = oRdonly ∨ accMode cFlags = oRdwr)
  writable : ∀ fd, (openTarget s path cFlags t env).1.1 = ⟨fd, none⟩ →
    (Writable (openTarget s path cFlags t env).1.2 fd ↔ Writing cFlags)
  created : t.Absent → (openTarget s path cFlags t env).2 ≠ t → has cFlags oCreat = true
  reported : t.Absent → has cFlags oCreat = false → Reached s path cFlags env →
    (openTarget s path cFlags t env).1.1 = ⟨-1, some .enoent⟩ ∧
      (openTarget s path cFlags t env).2 = t
  kept : ∀ e e', t = .file e → (openTarget s path cFlags t env).2 = .file e' →
    e'.content = e.content ∨ has cFlags oTrunc = true ∧ Writing cFlags
  discarded : ∀ e e', t = .file e → (openTarget s path cFlags t env).2 = .file e' →
    (openTarget s path cFlags t env).1.1.errno = none → has cFlags oTrunc = true →
    Writing cFlags → e'.content = []

/-! ### When it is -/

/-- The file is emptied. -/
def Empties (cFlags : BitVec 32) (e : FileEntry) : Prop :=
  has cFlags oCreat = true ∧ has cFlags oTrunc = true ∧ has e.attr (amRdo ||| amDir) = false

/-- The target can be opened: a missing file can be registered, where the flags ask for it; the
attributes of a file allow it, and its clusters can be freed or followed, where that is
needed. -/
def Opens (cFlags : BitVec 32) (env : OpenEnv) : Target → Prop
  | .missing => (has cFlags oCreat = true ∨ has cFlags oAppend = true) ∧ env.register = .ok
  | .file e =>
      (if has cFlags oCreat = true ∨ has cFlags oAppend = true then
        has e.attr (amRdo ||| amDir) = false
      else has e.attr amDir = false ∧ (has cFlags oWriting = true → has e.attr amRdo = false)) ∧
      (Empties cFlags e → e.sclust = 0#32 ∨ env.truncate = .ok) ∧
      (has cFlags oAppend = true → Empties cFlags e ∨ e.content = [] ∨ env.seek = .ok)
  | .unreachable _ => False

/-- **The flags stay clear of what the translation loses**: a target that can be opened is opened
with `O_RDONLY` or `O_WRONLY`; a missing file is not opened with `O_APPEND` alone; a file that
has content is emptied only with an access mode that writes; and `O_TRUNC` for such a file comes
with `O_CREAT`. -/
structure Translated (cFlags : BitVec 32) (t : Target) (env : OpenEnv) : Prop where
  access : Opens cFlags env t → accMode cFlags = oRdonly ∨ accMode cFlags = oWronly
  append : t = .missing → has cFlags oAppend = true → has cFlags oCreat = true
  kept : ∀ e, t = .file e → Empties cFlags e → e.content = [] ∨ Writing cFlags
  discarded : ∀ e, t = .file e → Opens cFlags env t → has cFlags oTrunc = true →
    Writing cFlags → e.content = [] ∨ has cFlags oCreat = true

/-! ### The mode bits -/

section Mode

variable (cFlags : BitVec 32)

theorem has_openMode_create :
    has (openMode cFlags) (faCreateAlways ||| faOpenAlways ||| faCreateNew) =
      (has cFlags oCreat || has cFlags oAppend) := by
  unfold openMode openFlags
  cases has cFlags oWriting <;> cases has cFlags oCreat <;> cases has cFlags oTrunc <;>
    cases has cFlags oAppend <;> decide

theorem has_openMode_createAlways :
    has (openMode cFlags) faCreateAlways = (has cFlags oCreat && has cFlags oTrunc) ∧
      has (openMode cFlags) faCreateNew = false := by
  unfold openMode openFlags
  cases has cFlags oWriting <;> cases has cFlags oCreat <;> cases has cFlags oTrunc <;>
    cases has cFlags oAppend <;> decide

/-- The bit `f_open` adds when it creates a file. -/
theorem has_openMode_gained : has (openMode cFlags ||| faCreateAlways) faCreateAlways = true := by
  unfold openMode openFlags
  cases has cFlags oWriting <;> cases has cFlags oCreat <;> cases has cFlags oTrunc <;>
    cases has cFlags oAppend <;> decide

/-- The bits that decide about access, before and after `f_open` has added its own. -/
theorem has_openMode_access {m : BitVec 8}
    (hm : m = openMode cFlags ∨ m = openMode cFlags ||| faCreateAlways) :
    (has m faRead = !has cFlags oWriting ∧ has m faWrite = has cFlags oWriting) ∧
      (has (m ||| faModified) faRead = !has cFlags oWriting ∧
        has (m ||| faModified) faWrite = has cFlags oWriting) ∧
      has m faSeekend = has cFlags oAppend := by
  rcases hm with rfl | rfl <;> unfold openMode openFlags <;>
    cases has cFlags oWriting <;> cases has cFlags oCreat <;> cases has cFlags oTrunc <;>
    cases has cFlags oAppend <;> decide

theorem has_oWriting_eq_false_iff : has cFlags oWriting = false ↔ accMode cFlags = oRdonly := by
  simp [has, accMode, oRdonly]

end Mode

/-! ### Reading and writing what was opened -/

theorem fAccess_ok_iff {v : Volumes} {fil : Fil} {access : BitVec 8} {io : BodyIo}
    (habort : io.abort = none) :
    (fAccess v fil access io).1.1 = .ok ↔ Accepts v fil access := by
  constructor
  · intro hok
    by_contra hnot
    exact (fAccess_of_not_accepts hnot io).1 hok
  · intro haccepts
    rw [fAccess_of_accepts haccepts, Fil.transfer, habort]

/-- A call that translates a result of FatFs reports no error exactly if there is none. -/
theorem errno_eq_none_iff {res : FResult} {ret : ℤ} {s s' : Files} :
    (if res ≠ .ok then ((⟨-1, rc2errno res⟩ : FileResult), s) else (⟨ret, none⟩, s')).1.errno =
      none ↔ res = .ok := by
  split
  · exact rc2errno_eq_none_iff
  · rename_i hres
    simpa using hres

/-- A descriptor can be read exactly if `f_read` accepts its object. -/
theorem readable_iff {s : Files} {i : Fin maxFileDescriptors} :
    Readable s (i + 3) ↔ Accepts s.vols (s.fil i) faRead := by
  have hne : ¬((i : ℤ) + 3 = 1 ∨ (i : ℤ) + 3 = 2) := by omega
  have hcall : ∀ io : BodyIo, io.abort = none →
      ((readR s (i + 3) io).1.errno = none ↔ Accepts s.vols (s.fil i) faRead) := by
    intro io habort
    rw [← fAccess_ok_iff habort]
    simp only [readR, if_neg hne, getDescr_add_three]
    exact errno_eq_none_iff
  constructor
  · intro h
    exact (hcall ⟨0#32, none, 0#8, 0#32, 0#32, 0#32⟩ rfl).mp (h _ rfl)
  · intro h io habort
    exact (hcall io habort).mpr h

/-- A descriptor can be written exactly if `f_write` accepts its object. -/
theorem writable_iff {s : Files} {i : Fin maxFileDescriptors} :
    Writable s (i + 3) ↔ Accepts s.vols (s.fil i) faWrite := by
  have hne : ¬((i : ℤ) + 3 = 1 ∨ (i : ℤ) + 3 = 2) := by omega
  have hcall : ∀ (n : BitVec 32) (io : BodyIo), io.abort = none →
      ((writeR s (i + 3) n io).1.errno = none ↔ Accepts s.vols (s.fil i) faWrite) := by
    intro n io habort
    rw [← fAccess_ok_iff habort]
    simp only [writeR, if_neg hne, getDescr_add_three]
    exact errno_eq_none_iff
  constructor
  · intro h
    exact (hcall 0#32 ⟨0#32, none, 0#8, 0#32, 0#32, 0#32⟩ rfl).mp (h _ _ rfl)
  · intro h n io habort
    exact (hcall n io habort).mpr h

/-! ### What `f_open` finds -/

section Found

variable (cFlags : BitVec 32) (env : OpenEnv)

/-- A missing file is registered with `O_CREAT`, and with `O_APPEND`. -/
theorem createOrOpen_missing :
    createOrOpen (openMode cFlags) (env.io .missing).followed (env.io .missing) =
      if has cFlags oCreat || has cFlags oAppend then
        (env.register.toFResult, openMode cFlags ||| faCreateAlways)
      else (.noFile, openMode cFlags) := by
  have hgained := has_openMode_gained cFlags
  have hfollowed : (env.io .missing).followed = .noFile := by
    simp [OpenEnv.io, OpenIo.followed, InnerResult.toFResult]
  simp only [createOrOpen, has_openMode_create cFlags, hfollowed]
  split
  · by_cases hreg : env.register = .ok
    · simp [OpenEnv.io, hreg, hgained, InnerResult.toFResult]
    · simp [OpenEnv.io, InnerResult.toFResult_eq_ok_iff, hreg]
  · simp

/-- A file is emptied with `O_CREAT` and `O_TRUNC`, and its attributes are looked at. -/
theorem createOrOpen_file (e : FileEntry) :
    createOrOpen (openMode cFlags) (env.io (.file e)).followed (env.io (.file e)) =
      (if has cFlags oCreat || has cFlags oAppend then
        if has e.attr (amRdo ||| amDir) then .denied
        else if has cFlags oCreat && has cFlags oTrunc then
          (if e.sclust = 0#32 then InnerResult.ok else env.truncate).toFResult
        else .ok
      else if has e.attr amDir then .noFile
      else if has cFlags oWriting && has e.attr amRdo then .denied
      else .ok, openMode cFlags) := by
  obtain ⟨halways, hnew⟩ := has_openMode_createAlways cFlags
  have hwrite := (has_openMode_access cFlags (Or.inl rfl)).1.2
  have hfollowed : (env.io (.file e)).followed = .ok := by
    simp [OpenEnv.io, OpenIo.followed, InnerResult.toFResult]
  simp only [createOrOpen, has_openMode_create cFlags, hfollowed, hnew, hwrite]
  split
  · by_cases hattr : has e.attr (amRdo ||| amDir) = true
    · simp [OpenEnv.io, hattr]
    · cases hempty : (has cFlags oCreat && has cFlags oTrunc) <;>
        simp [OpenEnv.io, hattr, halways, hempty]
  · simp [OpenEnv.io]

/-- A path that leads nowhere is not opened. -/
theorem createOrOpen_unreachable (r : PathError) :
    (createOrOpen (openMode cFlags) (env.io (.unreachable r)).followed
      (env.io (.unreachable r))).1 ≠ .ok := by
  have hfollowed : (env.io (.unreachable r)).followed ≠ .ok ∧
      (env.io (.unreachable r)).followed ≠ .noFile := by
    cases r <;> simp [OpenEnv.io, OpenIo.followed, PathError.follow, InnerResult.toFResult]
  simp only [createOrOpen]
  split <;> simp [hfollowed]

/-- The object is made unless the seek to the end of the file, where there is one, fails. -/
theorem openAt_ok_iff {v : Volumes} {p : FsPtr} {m : BitVec 8} {io : OpenIo} :
    (openAt v p m io).1 = .ok ↔ (has m faSeekend = true →
      has m faCreateAlways = true ∨ io.objsize = 0#32 ∨ io.seek = .ok) := by
  cases hseek : has m faSeekend with
  | false => simp [openAt, hseek]
  | true =>
    cases hfresh : has m faCreateAlways with
    | true => simp [openAt, openedFil, hseek, hfresh]
    | false =>
      by_cases hsize : io.objsize = 0#32
      · simp [openAt, openedFil, hseek, hfresh, hsize]
      · simp [openAt, openedFil, hseek, hfresh, hsize, InnerResult.toFResult_eq_ok_iff]

theorem FileEntry.objsize_eq_zero_iff {e : FileEntry} :
    BitVec.ofNat 32 e.content.length = 0#32 ↔ e.content = [] := by
  rw [← BitVec.toNat_inj, BitVec.toNat_ofNat, Nat.mod_eq_of_lt e.length_lt]
  exact List.length_eq_zero_iff

/-- A file is found fit to be opened if its attributes allow it and its clusters, where it is
emptied, can be freed. -/
theorem createOrOpen_file_ok_iff (e : FileEntry) :
    (createOrOpen (openMode cFlags) (env.io (.file e)).followed (env.io (.file e))).1 = .ok ↔
      (if has cFlags oCreat = true ∨ has cFlags oAppend = true then
        has e.attr (amRdo ||| amDir) = false
      else has e.attr amDir = false ∧ (has cFlags oWriting = true → has e.attr amRdo = false)) ∧
      (Empties cFlags e → e.sclust = 0#32 ∨ env.truncate = .ok) := by
  simp only [createOrOpen_file, ← Bool.or_eq_true, Empties]
  cases hflags : has cFlags oCreat || has cFlags oAppend with
  | false =>
    have hcreat := (Bool.or_eq_false_iff.mp hflags).1
    cases has e.attr amDir <;> cases has cFlags oWriting <;> cases has e.attr amRdo <;>
      simp [hcreat]
  | true =>
    cases hattr : has e.attr (amRdo ||| amDir) with
    | true => simp
    | false =>
      cases hempty : has cFlags oCreat && has cFlags oTrunc with
      | false =>
        have hnot : ¬(has cFlags oCreat = true ∧ has cFlags oTrunc = true) := by
          rw [← Bool.and_eq_true, hempty]
          exact Bool.false_ne_true
        simp only [if_true, Bool.false_eq_true, if_false, and_true, hnot, false_imp_iff]
      | true =>
        obtain ⟨hcreat, htrunc⟩ := Bool.and_eq_true_iff.mp hempty
        by_cases hclust : e.sclust = 0#32
        · simp [hclust, InnerResult.toFResult]
        · simp [hclust, hcreat, htrunc, InnerResult.toFResult_eq_ok_iff]

/-- **What can be opened is opened**, and nothing else. -/
theorem openIn_ok_iff (v : Volumes) (fil : Fil) (p : FsPtr) (t : Target) :
    (openIn v fil p (openMode cFlags) (env.io t)).1 = .ok ↔ Opens cFlags env t := by
  cases t with
  | missing =>
    simp only [openIn, createOrOpen_missing, Opens, ← Bool.or_eq_true]
    cases hflags : has cFlags oCreat || has cFlags oAppend with
    | false => simp
    | true =>
      by_cases hreg : env.register = .ok
      · simp only [hreg, InnerResult.toFResult, if_true, and_self, iff_true]
        exact openAt_ok_iff.mpr fun _ => Or.inl (has_openMode_gained cFlags)
      · have hres : env.register.toFResult ≠ .ok := by
          rwa [ne_eq, InnerResult.toFResult_eq_ok_iff]
        simp [hres, hreg]
  | file e =>
    have hmode : (createOrOpen (openMode cFlags) (env.io (.file e)).followed
        (env.io (.file e))).2 = openMode cFlags := by rw [createOrOpen_file]
    have hopen : (openIn v fil p (openMode cFlags) (env.io (.file e))).1 = .ok ↔
        (createOrOpen (openMode cFlags) (env.io (.file e)).followed (env.io (.file e))).1 = .ok ∧
          (openAt v p (openMode cFlags) (env.io (.file e))).1 = .ok := by
      simp only [openIn, hmode]
      split
      · rename_i hok
        simp [hok]
      · rename_i hne
        simp [hne]
    rw [hopen, createOrOpen_file_ok_iff, openAt_ok_iff, (has_openMode_createAlways cFlags).1,
      (has_openMode_access cFlags (Or.inl rfl)).2.2, Opens, and_assoc]
    refine and_congr_right fun hattr => and_congr_right fun _ => ?_
    refine imp_congr_right fun happend => ?_
    rw [if_pos (Or.inr happend)] at hattr
    simp only [OpenEnv.io, FileEntry.objsize_eq_zero_iff, Empties, hattr, and_true,
      Bool.and_eq_true]
  | unreachable r =>
    simp only [openIn, if_neg (createOrOpen_unreachable cFlags env r), Opens, iff_false]
    exact createOrOpen_unreachable cFlags env r

/-- **The object of an open call** can be read if the access mode does not write, and written if
it does. -/
theorem accepts_openIn {w : Volumes} {p : FsPtr} {fil : Fil} {t : Target}
    (hmounted : (w.fatfs p).fsType ≠ 0 ∧ has (w.status (w.fatfs p).pdrv) staNoinit = false)
    (hok : (openIn w fil p (openMode cFlags) (env.io t)).1 = .ok) :
    let o := (openIn w fil p (openMode cFlags) (env.io t)).2
    (Accepts w o faRead ↔ has cFlags oWriting = false) ∧
      (Accepts w o faWrite ↔ has cFlags oWriting = true) := by
  have hmode := (createOrOpen_mode (openMode cFlags) (env.io t).followed (env.io t)).imp_right
    And.right
  rw [(openIn_ok_imp hok).2]
  generalize (createOrOpen (openMode cFlags) (env.io t).followed (env.io t)).2 = m at hmode
  obtain ⟨⟨hread, hwrite⟩, ⟨hreadModified, hwriteModified⟩, -⟩ := has_openMode_access cFlags hmode
  -- the seek to the end leaves the flags and the identity of the object
  have hobject : ∀ access, Accepts w (openAt w p m (env.io t)).2 access ↔
      has (if has m faCreateAlways then m ||| faModified else m) access = true := by
    intro access
    obtain ⟨hobj, hflag, herr⟩ := openAt_fields w p m (env.io t)
    rw [Accepts, hobj, hflag, herr]
    simp [openedFil, validate, hmounted]
  dsimp only
  rw [hobject, hobject]
  split
  · rw [hreadModified, hwriteModified]
    simp
  · rw [hread, hwrite]
    simp

end Found

/-! ### The call as a whole -/

section Call

variable {s : Files} {path : Path} {cFlags : BitVec 32} {t : Target} {env : OpenEnv}

theorem OpenEnv.io_mount (env : OpenEnv) (t : Target) :
    (env.io t).mount = env.mount ∧ (env.io t).nambuf = env.nambuf := by
  cases t <;> exact ⟨rfl, rfl⟩

theorem reached_iff : Reached s path cFlags env ↔ (freeDescr s).isSome ∧
    (findVolume s.vols path (openMode cFlags) env.mount).1.1 = .ok ∧ env.nambuf = true := by
  have hfree : (∃ i, (s.fil i).obj.fs = none) ↔ (freeDescr s).isSome = true := by
    cases h : freeDescr s with
    | none =>
      have hocc := freeDescr_eq_none h
      simpa [Occupied] using hocc
    | some i =>
      simpa using ⟨i, freeDescr_eq_some h⟩
  rw [Reached, findVolume_ok_iff, hfree]

/-- A call that does not get to the target fails and leaves it. -/
theorem openTarget_of_not_reached (h : ¬Reached s path cFlags env) :
    (openTarget s path cFlags t env).1.1.errno ≠ none ∧
      (openTarget s path cFlags t env).2 = t := by
  obtain ⟨hmount, hmem⟩ := env.io_mount t
  constructor
  · intro hok
    obtain ⟨i, hfree, hopen⟩ := openR_ok_imp hok
    obtain ⟨p, calls, w, hfind, hnambuf, -⟩ := fOpen_ok_imp hopen
    rw [hmount] at hfind
    rw [hmem] at hnambuf
    refine h (reached_iff.mpr ⟨?_, ?_, hnambuf⟩)
    · rw [hfree]
      rfl
    · rw [openMode, hfind]
  · rw [reached_iff] at h
    exact if_neg h

/-- **What a call does that gets to the target.** -/
theorem openTarget_of_reached (h : Reached s path cFlags env) :
    ∃ (i : Fin maxFileDescriptors) (p : FsPtr) (w : Volumes) (o : FResult × Fil),
      o = openIn w (s.fil i) p (openMode cFlags) (env.io t) ∧
      ((w.fatfs p).fsType ≠ 0 ∧ has (w.status (w.fatfs p).pdrv) staNoinit = false) ∧
      (openTarget s path cFlags t env).2 = openEntry (openMode cFlags) env t ∧
      (o.1 = .ok → (openTarget s path cFlags t env).1 =
        (⟨i + 3, none⟩, ⟨w, Function.update s.fil i o.2⟩)) ∧
      (o.1 ≠ .ok → (openTarget s path cFlags t env).1.1 = ⟨-1, rc2errno o.1⟩) := by
  obtain ⟨hfree, hfind, hmem⟩ := reached_iff.mp h
  obtain ⟨i, hi⟩ := Option.isSome_iff_exists.mp hfree
  obtain ⟨p, hp⟩ := findVolume_ok hfind
  obtain ⟨hmount, hnambuf⟩ := env.io_mount t
  obtain ⟨calls, w, hfound⟩ : ∃ calls w, findVolume s.vols path (openFlags cFlags &&& openMask)
      (env.io t).mount = ((.ok, some p), calls, w) := by
    rw [hmount]
    exact ⟨_, _, Prod.ext (Prod.ext hfind hp) rfl⟩
  have hopen := fOpen_of_found hfound (hnambuf.trans hmem) (s.fil i)
  generalize ho : openIn w (s.fil i) p (openFlags cFlags &&& openMask) (env.io t) = o at hopen
  have hcall : (openTarget s path cFlags t env).1 = _ := openR_of_free hi hopen
  refine ⟨i, p, w, o, ho.symm, findVolume_mounted hfound, if_pos (reached_iff.mp h), ?_, ?_⟩
  · intro hok
    rw [hcall, if_pos hok, if_neg (not_not.mpr hok)]
  · intro hne
    rw [hcall, if_pos hne]

/-- **What can be opened is opened**, for reading if the access mode does not write and for
writing otherwise. -/
theorem openTarget_opens (h : Reached s path cFlags env) (hopens : Opens cFlags env t) :
    ∃ fd, (openTarget s path cFlags t env).1.1 = ⟨fd, none⟩ ∧
      (Readable (openTarget s path cFlags t env).1.2 fd ↔ accMode cFlags = oRdonly) ∧
      (Writable (openTarget s path cFlags t env).1.2 fd ↔ accMode cFlags ≠ oRdonly) := by
  obtain ⟨i, p, w, o, ho, hmounted, -, hopened, -⟩ := openTarget_of_reached (t := t) h
  have hok : o.1 = .ok := by
    rw [ho, openIn_ok_iff]
    exact hopens
  obtain ⟨hread, hwrite⟩ := accepts_openIn cFlags env hmounted (ho ▸ hok)
  rw [← ho] at hread hwrite
  rw [hopened hok]
  refine ⟨i + 3, rfl, ?_, ?_⟩
  · rw [readable_iff, ← has_oWriting_eq_false_iff, ← hread]
    simp only [Function.update_self]
  · rw [writable_iff, ne_eq, ← has_oWriting_eq_false_iff, Bool.not_eq_false, ← hwrite]
    simp only [Function.update_self]

/-- Nothing else is. -/
theorem openTarget_of_not_opens (h : Reached s path cFlags env) (hopens : ¬Opens cFlags env t) :
    (openTarget s path cFlags t env).1.1.errno ≠ none := by
  obtain ⟨i, p, w, o, ho, -, -, -, hfailed⟩ := openTarget_of_reached (t := t) h
  have hne : o.1 ≠ .ok := by
    rw [ho, ne_eq, openIn_ok_iff]
    exact hopens
  rw [hfailed hne, ne_eq, rc2errno_eq_none_iff]
  exact hne

/-- A missing file that is not registered is reported as missing. -/
theorem openTarget_missing_noFile (h : Reached s path cFlags env)
    (hcreat : has cFlags oCreat = false) (happend : has cFlags oAppend = false) :
    (openTarget s path cFlags .missing env).1.1 = ⟨-1, some .enoent⟩ := by
  obtain ⟨i, p, w, o, ho, -, -, -, hfailed⟩ := openTarget_of_reached (t := .missing) h
  have hres : o.1 = .noFile := by
    rw [ho]
    simp [openIn, createOrOpen_missing, hcreat, happend]
  rw [hfailed (by simp [hres]), hres]
  rfl

/-- So is a file whose directory is missing, whatever the flags. -/
theorem openTarget_noPath (h : Reached s path cFlags env) :
    (openTarget s path cFlags (.unreachable .noPath) env).1.1 = ⟨-1, some .enoent⟩ := by
  obtain ⟨i, p, w, o, ho, -, -, -, hfailed⟩ := openTarget_of_reached (t := .unreachable .noPath) h
  have hfollowed : (env.io (.unreachable .noPath)).followed = .noPath := by
    simp [OpenEnv.io, OpenIo.followed, PathError.follow, InnerResult.toFResult]
  have hcreate : (createOrOpen (openMode cFlags) .noPath (env.io (.unreachable .noPath))).1 =
      .noPath := by
    simp only [createOrOpen]
    split <;> simp
  have hres : o.1 = .noPath := by
    rw [ho, openIn, hfollowed, if_neg (by rw [hcreate]; decide)]
    exact hcreate
  rw [hfailed (by simp [hres]), hres]
  rfl

/-- With `O_APPEND` a missing file is registered, or the call fails for another reason. -/
theorem openTarget_missing_append (h : Reached s path cFlags env)
    (happend : has cFlags oAppend = true) :
    (openTarget s path cFlags .missing env).1.1 ≠ ⟨-1, some .enoent⟩ := by
  by_cases hopens : Opens cFlags env .missing
  · obtain ⟨fd, hfd, -⟩ := openTarget_opens h hopens
    simp [hfd]
  · obtain ⟨i, p, w, o, ho, -, -, -, hfailed⟩ := openTarget_of_reached (t := .missing) h
    have hreg : env.register ≠ .ok := fun hok => hopens ⟨Or.inr happend, hok⟩
    have hres : o.1 = env.register.toFResult := by
      rw [ho]
      simp [openIn, createOrOpen_missing, happend, InnerResult.toFResult_eq_ok_iff, hreg]
    obtain ⟨hnoFile, hnoPath⟩ := env.register_ne
    rw [hfailed (by rwa [hres, ne_eq, InnerResult.toFResult_eq_ok_iff]), hres]
    cases hcase : env.register <;> simp_all [InnerResult.toFResult, rc2errno]

theorem openTarget_snd (h : Reached s path cFlags env) :
    (openTarget s path cFlags t env).2 = openEntry (openMode cFlags) env t := by
  obtain ⟨i, p, w, o, -, -, hentry, -⟩ := openTarget_of_reached (t := t) h
  exact hentry

/-- What a call leaves that gets to a missing file. -/
theorem openEntry_missing (hne : openEntry (openMode cFlags) env .missing ≠ .missing) :
    has cFlags oCreat = true ∨ has cFlags oAppend = true := by
  simp only [openEntry, has_openMode_create, Bool.or_eq_true] at hne
  split at hne
  · rename_i h
    exact h.1
  · exact absurd rfl hne

/-- What a call leaves that gets to a file. -/
theorem openEntry_file (env : OpenEnv) (e : FileEntry) :
    (Empties cFlags e ∧ openEntry (openMode cFlags) env (.file e) = .file .empty) ∨
      ¬Empties cFlags e ∧ openEntry (openMode cFlags) env (.file e) = .file e := by
  obtain ⟨halways, hnew⟩ := has_openMode_createAlways cFlags
  have hcond : (has (openMode cFlags) faCreateAlways = true ∧
      has (openMode cFlags) faCreateNew = false ∧ has e.attr (amRdo ||| amDir) = false) ↔
        Empties cFlags e := by
    rw [halways, Bool.and_eq_true, and_assoc]
    simp only [hnew, true_and, Empties]
  by_cases h : Empties cFlags e
  · exact Or.inl ⟨h, if_pos (hcond.mpr h)⟩
  · exact Or.inr ⟨h, if_neg (mt hcond.mp h)⟩

/-- The object that is made has the size of the file that is left. -/
theorem openIn_objsize {w : Volumes} {fil : Fil} {p : FsPtr}
    (hok : (openIn w fil p (openMode cFlags) (env.io t)).1 = .ok) :
    ∃ e, openEntry (openMode cFlags) env t = .file e ∧
      (openIn w fil p (openMode cFlags) (env.io t)).2.obj.objsize =
        BitVec.ofNat 32 e.content.length := by
  have hopens := (openIn_ok_iff cFlags env w fil p t).mp hok
  rw [(openIn_ok_imp hok).2, (openAt_fields _ _ _ _).1]
  cases t with
  | missing =>
    have hflags : (has cFlags oCreat || has cFlags oAppend) = true := by
      rw [Bool.or_eq_true]
      exact hopens.1
    refine ⟨.empty, if_pos ⟨by rw [has_openMode_create, hflags], hopens.2⟩, ?_⟩
    rw [createOrOpen_missing, if_pos hflags]
    simp [openedFil, has_openMode_gained, FileEntry.empty]
  | file e =>
    rw [createOrOpen_file]
    rcases openEntry_file env e with ⟨hempties, hempty⟩ | ⟨hnot, hsame⟩
    · refine ⟨.empty, hempty, ?_⟩
      simp [openedFil, (has_openMode_createAlways cFlags).1, hempties.1, hempties.2.1,
        FileEntry.empty]
    · refine ⟨e, hsame, ?_⟩
      have hkept : (has cFlags oCreat && has cFlags oTrunc) = false := by
        by_contra hcon
        obtain ⟨hcreat, htrunc⟩ := Bool.and_eq_true_iff.mp (Bool.not_eq_false _ ▸ hcon)
        have hattr := hopens.1
        rw [if_pos (Or.inl hcreat)] at hattr
        exact hnot ⟨hcreat, htrunc, hattr⟩
      simp [openedFil, (has_openMode_createAlways cFlags).1, hkept, OpenEnv.io]
  | unreachable r => exact hopens.elim

end Call

/-! ### Exactly when -/

section Exactly

variable {s : Files} {path : Path} {cFlags : BitVec 32} {t : Target} {env : OpenEnv}

/-- A call that does not get to the target keeps the property. -/
theorem openHonoured_of_not_reached (h : ¬Reached s path cFlags env) :
    OpenHonoured s path cFlags t env := by
  obtain ⟨hfail, hsame⟩ := openTarget_of_not_reached (t := t) h
  constructor
  · intro fd hfd
    exact absurd (by rw [hfd]) hfail
  · intro fd hfd
    exact absurd (by rw [hfd]) hfail
  · intro _ hcreated
    exact absurd hsame hcreated
  · intro _ _ hreached
    exact absurd hreached h
  · intro e e' he he'
    rw [hsame, he] at he'
    rw [Target.file.inj he']
    exact Or.inl rfl
  · intro e e' _ _ hok
    exact absurd hok hfail

/-- The property asks for flags that survive the translation. -/
theorem OpenHonoured.translated (hreached : Reached s path cFlags env)
    (h : OpenHonoured s path cFlags t env) : Translated cFlags t env := by
  have hentry := openTarget_snd (t := t) hreached
  constructor
  · intro hopens
    obtain ⟨fd, hfd, hread, hwrite⟩ := openTarget_opens hreached hopens
    rw [h.readable fd hfd] at hread
    rw [h.writable fd hfd] at hwrite
    by_cases hrdonly : accMode cFlags = oRdonly
    · exact Or.inl hrdonly
    · rcases hwrite.mpr hrdonly with hwronly | hrdwr
      · exact Or.inr hwronly
      · exact absurd (hread.mp (Or.inr hrdwr)) hrdonly
  · rintro rfl happend
    by_contra hcreat
    have hreport := h.reported trivial (by simpa using hcreat) hreached
    exact openTarget_missing_append hreached happend hreport.1
  · rintro e rfl hempties
    rcases openEntry_file env e with ⟨-, hempty⟩ | ⟨hnot, -⟩
    · rcases h.kept e _ rfl (hentry.trans hempty) with hcontent | ⟨-, hwriting⟩
      · exact Or.inl hcontent.symm
      · exact Or.inr hwriting
    · exact absurd hempties hnot
  · rintro e rfl hopens htrunc hwriting
    obtain ⟨fd, hfd, -⟩ := openTarget_opens hreached hopens
    rcases openEntry_file env e with ⟨hempties, -⟩ | ⟨-, hsame⟩
    · exact Or.inr hempties.1
    · exact Or.inl (h.discarded e e rfl (hentry.trans hsame) (by rw [hfd]) htrunc hwriting)

/-- A call that returns a descriptor has opened the target. -/
theorem opens_of_returned (hreached : Reached s path cFlags env)
    (hok : (openTarget s path cFlags t env).1.1.errno = none) : Opens cFlags env t := by
  by_contra hnot
  exact openTarget_of_not_opens hreached hnot hok

/-- A descriptor that is returned can be read or written, and its access mode is not `O_RDWR`. -/
theorem Translated.access_of_returned (hreached : Reached s path cFlags env)
    (h : Translated cFlags t env) {fd : ℤ}
    (hfd : (openTarget s path cFlags t env).1.1 = ⟨fd, none⟩) :
    accMode cFlags ≠ oRdwr ∧ (accMode cFlags = oRdonly ∨ accMode cFlags = oWronly) ∧
      (Readable (openTarget s path cFlags t env).1.2 fd ↔ accMode cFlags = oRdonly) ∧
      (Writable (openTarget s path cFlags t env).1.2 fd ↔ accMode cFlags ≠ oRdonly) := by
  have hopens : Opens cFlags env t := opens_of_returned hreached (by rw [hfd])
  have haccess := h.access hopens
  obtain ⟨fd', hfd', hread, hwrite⟩ := openTarget_opens hreached hopens
  obtain rfl : fd' = fd := congrArg FileResult.ret (hfd'.symm.trans hfd)
  refine ⟨?_, haccess, hread, hwrite⟩
  rcases haccess with hrdonly | hwronly
  · rw [hrdonly]
    decide
  · rw [hwronly]
    decide

/-- What is missing, and is not to be created, is reported and stays missing. -/
theorem Translated.reported_of_absent (hreached : Reached s path cFlags env)
    (h : Translated cFlags t env) (habsent : t.Absent) (hcreat : has cFlags oCreat = false) :
    (openTarget s path cFlags t env).1.1 = ⟨-1, some .enoent⟩ ∧
      (openTarget s path cFlags t env).2 = t := by
  have hentry := openTarget_snd (t := t) hreached
  cases t with
  | missing =>
    have happend : has cFlags oAppend = false := by
      by_contra hne
      rw [h.append rfl (by simpa using hne)] at hcreat
      exact Bool.noConfusion hcreat
    refine ⟨openTarget_missing_noFile hreached hcreat happend, ?_⟩
    by_contra hcreated
    rw [hentry] at hcreated
    rcases openEntry_missing hcreated with hcon | hcon
    · rw [hcreat] at hcon
      exact Bool.noConfusion hcon
    · rw [happend] at hcon
      exact Bool.noConfusion hcon
  | file e => exact habsent.elim
  | unreachable r =>
    obtain rfl : r = .noPath := habsent
    exact ⟨openTarget_noPath hreached, hentry⟩

/-- The flags that survive the translation are honoured. -/
theorem Translated.honoured (hreached : Reached s path cFlags env)
    (h : Translated cFlags t env) : OpenHonoured s path cFlags t env := by
  have hentry := openTarget_snd (t := t) hreached
  constructor
  · intro fd hfd
    obtain ⟨hrdwr, -, hread, -⟩ := h.access_of_returned hreached hfd
    rw [hread, or_iff_left hrdwr]
  · intro fd hfd
    obtain ⟨hrdwr, haccess, -, hwrite⟩ := h.access_of_returned hreached hfd
    rw [hwrite, Writing, or_iff_left hrdwr]
    constructor
    · intro hne
      exact haccess.resolve_left hne
    · intro hwronly
      rw [hwronly]
      decide
  · intro habsent hcreated
    rw [hentry] at hcreated
    cases t with
    | missing =>
      rcases openEntry_missing hcreated with hcreat | happend
      · exact hcreat
      · exact h.append rfl happend
    | file e => exact habsent.elim
    | unreachable r => exact absurd rfl hcreated
  · intro habsent hcreat _
    exact h.reported_of_absent hreached habsent hcreat
  · rintro e e' rfl he'
    rw [hentry] at he'
    rcases openEntry_file env e with ⟨hempties, hempty⟩ | ⟨-, hsame⟩
    · rw [hempty] at he'
      obtain rfl := Target.file.inj he'
      rcases h.kept e rfl hempties with hcontent | hwriting
      · exact Or.inl hcontent.symm
      · exact Or.inr ⟨hempties.2.1, hwriting⟩
    · rw [hsame] at he'
      rw [Target.file.inj he']
      exact Or.inl rfl
  · rintro e e' rfl he' hok htrunc hwriting
    have hopens := opens_of_returned hreached hok
    rw [hentry] at he'
    rcases openEntry_file env e with ⟨-, hempty⟩ | ⟨hnot, hsame⟩
    · rw [hempty] at he'
      rw [← Target.file.inj he']
      rfl
    · rw [hsame] at he'
      rw [← Target.file.inj he']
      rcases h.discarded e rfl hopens htrunc hwriting with hcontent | hcreat
      · exact hcontent
      · have hattr := hopens.1
        rw [if_pos (Or.inl hcreat)] at hattr
        exact absurd ⟨hcreat, htrunc, hattr⟩ hnot

end Exactly

/-- **The mode of an open call is honoured if and only if** the call does not get to the target, or
its flags stay clear of what the translation loses. -/
theorem openHonoured_iff (s : Files) (path : Path) (cFlags : BitVec 32) (t : Target)
    (env : OpenEnv) :
    OpenHonoured s path cFlags t env ↔ (Reached s path cFlags env → Translated cFlags t env) := by
  constructor
  · intro h hreached
    exact h.translated hreached
  · intro h
    by_cases hreached : Reached s path cFlags env
    · exact (h hreached).honoured hreached
    · exact openHonoured_of_not_reached hreached

/-- A card on which nothing fails. -/
def envGood : OpenEnv := ⟨mountGood, true, .ok, .ok, .ok, by decide⟩

/-- The card is mounted. -/
def cardMounted : Files :=
  (runFn fileStep [] Files.init [.mount (some .sd) (some ['/', 's', 'd']) false mountGood]).2

/-- A file of one byte. -/
def oneByteFile : FileEntry := ⟨amArc, 5#32, [1#8], by decide⟩

/-- **What the translation loses.** A file that is opened with `O_RDWR` cannot be read; `O_TRUNC`
with `O_WRONLY` does not empty it, and `O_CREAT | O_TRUNC` empties it for a reader; and `O_APPEND`
creates a file that is missing. -/
theorem not_openHonoured_rdwr :
    let rdwr := openTarget cardMounted sdFile oRdwr (.file oneByteFile) envGood
    (rdwr.1.1 = ⟨3, none⟩ ∧
      (readR rdwr.1.2 3 ⟨1#32, none, 0#8, 5#32, 1#32, 1#32⟩).1 = ⟨-1, some .eperm⟩ ∧
      ¬OpenHonoured cardMounted sdFile oRdwr (.file oneByteFile) envGood) ∧
    ¬OpenHonoured cardMounted sdFile (oWronly ||| oTrunc) (.file oneByteFile) envGood ∧
    ¬OpenHonoured cardMounted sdFile (oCreat ||| oTrunc) (.file oneByteFile) envGood ∧
    ¬OpenHonoured cardMounted sdFile (oWronly ||| oAppend) .missing envGood := by
  refine ⟨⟨by decide, by decide, fun h => ?_⟩, fun h => ?_, fun h => ?_, fun h => ?_⟩
  · have hread := (h.readable 3 (by decide)).mpr (Or.inr (by decide))
    exact absurd (hread ⟨1#32, none, 0#8, 5#32, 1#32, 1#32⟩ rfl) (by decide)
  · have hcontent := h.discarded oneByteFile oneByteFile rfl rfl (by decide) (by decide)
      (Or.inl (by decide))
    exact absurd hcontent (by decide)
  · rcases h.kept oneByteFile .empty rfl rfl with hcontent | ⟨-, hwriting⟩
    · exact absurd hcontent (by decide)
    · rcases hwriting with hcon | hcon
      · exact absurd hcon (by decide)
      · exact absurd hcon (by decide)
  · have hcreat := h.created trivial (by intro hcon; cases hcon)
    exact absurd hcreat (by decide)

end LibcIo

end BareMetal
