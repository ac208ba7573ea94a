import BareMetal.FatFs.MountId
import BareMetal.LibcIo.Append
import BareMetal.LibcIo.Stat

/-!
# Dead descriptors

A descriptor is open from the call of `_open_r` that returns it to the call of `_close_r` that
succeeds, unless its volume is taken away or mounted again before that. Every other number should
be refused with `EBADF` and without any effect, but `get_descr` looks at the range of the number
only, and leaves the rest to the `validate` of FatFs, which compares mount IDs. Two calls do not
get there: `_fstat_r` reads the object whatever it is, and returns 0 with the size some earlier
file had; and `_lseek_r` refuses an unknown `whence` first, with another error.

All other calls refuse every dead descriptor (`BareMetal.LibcIo.rejected_iff`), as long as there
have been fewer than 65536 mounts: then the mount IDs begin again
(`BareMetal.FatFs.validate_of_wrap`).

Which descriptors are open is watched beside the calls: `BareMetal.LibcIo.watchStep` is
`BareMetal.LibcIo.fileStep` with a table of the open descriptors, each with its volume. It is not
the notion of `BareMetal.LibcIo.live`, for which every call of `_close_r` ends a descriptor: here
one that returns an error does not, since it leaves the object in its slot and the calls that follow
do what they would have done before it (`BareMetal.LibcIo.calls_after_failed_close`). If it has
failed in `sync_fs` the file is no longer marked as modified, and the next `_close_r` succeeds
without writing anything (`BareMetal.LibcIo.closeR_after_failed_sync`).
-/

namespace BareMetal

namespace LibcIo

open FatFs

/-! ### The open descriptors -/

/-- The files, and for each descriptor the volume it is open on. -/
structure Watched where
  files : Files
  opened : Fin maxFileDescriptors → Option FsPtr

def Watched.init : Watched := ⟨Files.init, fun _ => none⟩

/-- The call mounts the volume of an object, or takes it away: `_open_r`, if it finds a slot, may
have to mount the volume of its path; `f_mount` takes away the volume of its path and the object
it is given. -/
def renewed (s : Files) : FileCall → FsPtr → Bool
  | .openR path _ _, p =>
      (freeDescr s).isSome && volumeOf s.vols path == some p && unmounted s.vols p
  | .mount fs path _ _, p =>
      (getLdnumber s.vols path).isSome && (volumeOf s.vols path == some p || fs == some p)
  | _, _ => false

/-- The descriptors that stay open when volumes are mounted or taken away. -/
def Watched.kept (t : Watched) (e : FileCall) (i : Fin maxFileDescriptors) : Option FsPtr :=
  (t.opened i).filter fun p => !renewed t.files e p

/-- The descriptors that are open after a call. -/
def Watched.track (t : Watched) (e : FileCall) (r : FileResult) :
    Fin maxFileDescriptors → Option FsPtr :=
  match e, r.errno with
  | .openR path _ _, none =>
      match getDescr r.ret with
      | some i => Function.update (t.kept e) i (volumeOf t.files.vols path)
      | none => t.kept e
  | .closeR fd _, none =>
      match getDescr fd with
      | some i => Function.update (t.kept e) i none
      | none => t.kept e
  | _, _ => t.kept e

/-- A call, and which descriptors it leaves open. -/
def watchStep (t : Watched) (e : FileCall) : FileResult × Watched :=
  ((fileStep t.files e).1, ⟨(fileStep t.files e).2, t.track e (fileStep t.files e).1⟩)

/-- Every run of the file layer is watched in this way. -/
theorem reach_watchStep {h : List (FileCall × FileResult)} {s : Files}
    (hr : Reach (fnStep fileStep) Always Files.init h s) :
    ∃ t, Reach (fnStep watchStep) Always Watched.init h t ∧ t.files = s := by
  refine hr.fnInvariant (fun h s => ∃ t, Reach (fnStep watchStep) Always Watched.init h t ∧
    t.files = s) ⟨Watched.init, .start, rfl⟩ ?_
  rintro h s e ⟨t, ht, rfl⟩ -
  exact ⟨(watchStep t e).2, ht.next trivial rfl, rfl⟩

/-- **A descriptor is dead**: it is not the console, and it is not open. -/
def Dead (t : Watched) (fd : ℤ) : Prop :=
  fd ≠ 1 ∧ fd ≠ 2 ∧ ∀ i, getDescr fd = some i → t.opened i = none

/-! ### The calls -/

/-- A call on a descriptor, with its memory and what it meets. -/
inductive FdCall where
  | read (ptr : ℕ) (n : BitVec 32) (io : ReadEnd) (block : ℕ)
      (apart : Apart block n.toNat ptr n.toNat)
  | write (data : WriteData) (e : WriteEnd)
  | lseek (ptr : BitVec 32) (dir : Whence) (io : BodyIo)
  | fstat
  | close (io : SyncIo)

/-- What a call on a descriptor returns and leaves: the file objects, the contents of the files,
the memory, and the `struct stat` if it is written to. -/
structure FdOutcome where
  result : FileResult
  files : Files
  content : Fin maxFileDescriptors → ℕ → BitVec 8
  mem : Mem
  stat : Option Stat

def fdCall (s : Files) (content : Fin maxFileDescriptors → ℕ → BitVec 8) (m : Mem) (fd : ℤ) :
    FdCall → FdOutcome
  | .read ptr n io block apart =>
      let r := readRInto s content m ⟨fd, ptr, n, io, block, apart⟩
      ⟨r.1.1, r.1.2, content, r.2, none⟩
  | .write data e =>
      let r := writeRData s content fd data e
      ⟨r.1.1, r.2.1, r.2.2, m, none⟩
  | .lseek ptr dir io =>
      let r := lseekR s fd ptr dir io
      ⟨r.1, r.2, content, m, none⟩
  | .fstat =>
      let r := fstatR s fd
      ⟨r.1, s, content, m, r.2⟩
  | .close io =>
      let r := closeR s fd io
      ⟨r.1, r.2, content, m, none⟩

/-- **A call is rejected**: it returns a negative result with `EBADF`, and leaves everything as it
is. -/
def Rejected (s : Files) (content : Fin maxFileDescriptors → ℕ → BitVec 8) (m : Mem) (fd : ℤ)
    (c : FdCall) : Prop :=
  ∃ ret < 0, fdCall s content m fd c = ⟨⟨ret, some .ebadf⟩, s, content, m, none⟩

/-- The call gets to the `validate` of FatFs. -/
def FdCall.Validates : FdCall → Prop
  | .fstat => False
  | .lseek _ dir _ => dir ≠ .other
  | _ => True

/-- There are mount IDs left. -/
def NoWrap (t : Watched) (_ : FileCall) : Prop := t.files.vols.fsid ≠ 0xFFFF#16

/-! ### What a call does to a slot -/

/-- **What a step does to a slot**: its object stays what it is, and open unless its volume is
renewed; it is blank; or it is open on a volume, with a mount ID that has been given out. -/
inductive SlotStep (t : Watched) (e : FileCall) (u : Files) (i : Fin maxFileDescriptors)
    (o : Option FsPtr) : Prop
  | kept (ho : o = t.kept e i) (hfs : (u.fil i).obj.fs = (t.files.fil i).obj.fs)
      (hid : (u.fil i).obj.id = (t.files.fil i).obj.id)
  | blank (ho : o = none) (hfs : (u.fil i).obj.fs = none)
  | opened (p : FsPtr) (ho : o = some p) (hfs : (u.fil i).obj.fs = some p)
      (hid : (u.fil i).obj.id = (u.vols.fatfs p).id)

/-- The invariant: no mount ID is above the last one; an open descriptor has an object of its
volume; and the object of any other is blank, or of a mount that is over. -/
structure WatchInv (t : Watched) : Prop where
  ids : ∀ p, (t.files.vols.fatfs p).id.toNat ≤ t.files.vols.fsid.toNat
  slots : ∀ i p, (t.files.fil i).obj.fs = some p →
    (t.files.fil i).obj.id.toNat ≤ t.files.vols.fsid.toNat
  opened : ∀ i p, t.opened i = some p → (t.files.fil i).obj.fs = some p
  stale : ∀ i p, (t.files.fil i).obj.fs = some p → t.opened i = none →
    (t.files.vols.fatfs p).fsType = 0 ∨ (t.files.fil i).obj.id ≠ (t.files.vols.fatfs p).id

theorem kept_eq_some {t : Watched} {e : FileCall} {i : Fin maxFileDescriptors} {p : FsPtr} :
    t.kept e i = some p ↔ t.opened i = some p ∧ renewed t.files e p = false := by
  simp [Watched.kept, Option.filter_eq_some_iff]

/-- **A step keeps the invariant** if it renews the volumes it should and does to each slot one of
the three things. -/
theorem WatchInv.step {t : Watched} (hinv : WatchInv t) {e : FileCall} {u : Files}
    {opened : Fin maxFileDescriptors → Option FsPtr}
    (hvols : Renews (fun p => renewed t.files e p = true) t.files.vols u.vols)
    (hslots : ∀ i, SlotStep t e u i (opened i)) : WatchInv ⟨u, opened⟩ := by
  have hfsid := hvols.fsid_le
  have hids : ∀ p, (u.vols.fatfs p).id.toNat ≤ u.vols.fsid.toNat := by
    intro p
    have hid := hvols.id_le p
    have hold := hinv.ids p
    omega
  refine ⟨hids, fun i p hfs => ?_, fun i p hp => ?_, fun i p hfs hnone => ?_⟩
  · cases hslots i with
    | kept ho hsame hid =>
      have hold := hinv.slots i p (hsame ▸ hfs)
      simp only [hid]
      omega
    | blank ho hblank => simp [hblank] at hfs
    | opened q ho hq hid =>
      simp only [hid]
      exact hids q
  · cases hslots i with
    | kept ho hsame hid =>
      have hold := (kept_eq_some.mp (ho.symm.trans hp)).1
      exact hsame.trans (hinv.opened i p hold)
    | blank ho hblank => simp [show opened i = some p from hp] at ho
    | opened q ho hq hid =>
      exact hq.trans (ho.symm.trans hp)
  · cases hslots i with
    | kept ho hsame hid =>
      simp only [hid]
      have hold := hsame.symm.trans hfs
      by_cases hrenewed : renewed t.files e p = true
      · -- the object holds an old number, and the volume has none or a new one
        refine (hvols.renewed p hrenewed).imp_right fun hlt hcon => ?_
        have hle := hinv.slots i p hold
        rw [hcon] at hle
        omega
      · rw [hvols.same p hrenewed]
        refine hinv.stale i p hold ?_
        -- had it been open, it would have been so on this volume, and stayed so
        cases hopened : t.opened i with
        | none => rfl
        | some q =>
          obtain rfl : q = p := Option.some.inj ((hinv.opened i q hopened).symm.trans hold)
          have hkept := kept_eq_some.mpr ⟨hopened, by simpa using hrenewed⟩
          rw [← ho, show opened i = none from hnone] at hkept
          exact absurd hkept.symm (Option.some_ne_none _)
    | blank ho hblank => simp [hblank] at hfs
    | opened q ho hq hid => simp [show opened i = none from hnone] at ho

/-! ### Every call -/

section Step

variable {t : Watched}

/-- A call that renews no volume and leaves every object keeps the invariant. -/
theorem WatchInv.same (hinv : WatchInv t) {e : FileCall} {u : Files}
    (hsame : SameSlots t.files u) (hnone : ∀ p, renewed t.files e p = false) :
    WatchInv ⟨u, t.kept e⟩ := by
  refine hinv.step (e := e) ?_ fun i => .kept rfl (hsame.2 i).1 (hsame.2 i).2
  rw [hsame.1]
  exact (Renews.refl _).congr fun p => by simp [hnone p]

/-- A slot that another one is replaced beside. -/
theorem slotStep_of_ne {e : FileCall} {i j : Fin maxFileDescriptors} (hj : j ≠ i)
    {vols : Volumes} {fil : Fil} {o : Option FsPtr} :
    SlotStep t e ⟨vols, Function.update t.files.fil i fil⟩ j
      (Function.update (t.kept e) i o j) := by
  refine .kept (Function.update_of_ne hj _ _) ?_ ?_
  · simp only [Function.update_of_ne hj]
  · simp only [Function.update_of_ne hj]

/-- **An open call** renews the volume it mounts, and opens the slot it has found or leaves it
blank. -/
theorem watchInv_openR (hinv : WatchInv t) (hwrap : t.files.vols.fsid ≠ 0xFFFF#16) (path : Path)
    (cFlags : BitVec 32) (io : OpenIo) : WatchInv (watchStep t (.openR path cFlags io)).2 := by
  cases hfree : freeDescr t.files with
  | none =>
    simp only [watchStep, fileStep, openR_of_full hfree, Watched.track]
    exact hinv.same (.refl _) fun p => by simp [renewed, hfree]
  | some i =>
    have hblank := freeDescr_eq_some hfree
    have hvols : Renews (fun p => renewed t.files (.openR path cFlags io) p = true) t.files.vols
        (fOpen t.files.vols (t.files.fil i) path (openFlags cFlags) io).2.2 := by
      rw [fOpen_vols]
      refine (findVolume_renews hwrap path _ io.mount).congr fun p => ?_
      simp [renewed, hfree]
    generalize hr : fOpen t.files.vols (t.files.fil i) path (openFlags cFlags) io = r at hvols
    simp only [watchStep, fileStep, openR_of_free hfree hr, Watched.track]
    rcases fOpen_object hblank path (openFlags cFlags) io hr with
      ⟨hok, p, hvol, hfs, hid⟩ | ⟨hne, hnone⟩
    · simp only [ne_eq, hok, not_true_eq_false, if_false, getDescr_add_three]
      refine hinv.step (e := .openR path cFlags io) hvols fun j => ?_
      by_cases hj : j = i
      · subst hj
        refine .opened p ?_ ?_ ?_
        · rw [Function.update_self, hvol]
        · simp only [Function.update_self, hfs]
        · simp only [Function.update_self, hid]
      · exact slotStep_of_ne hj
    · have herrno : rc2errno r.1 ≠ none := by rwa [ne_eq, rc2errno_eq_none_iff]
      obtain ⟨errno, herr⟩ := Option.ne_none_iff_exists'.mp herrno
      simp only [ne_eq, hne, not_false_eq_true, if_true, herr]
      refine hinv.step (e := .openR path cFlags io) hvols fun j => ?_
      by_cases hj : j = i
      · subst hj
        refine .blank ?_ (by simp only [Function.update_self, hnone])
        -- a blank slot was not open
        cases hkept : t.kept (.openR path cFlags io) j with
        | none => rfl
        | some p =>
          have hopened := hinv.opened j p (kept_eq_some.mp hkept).1
          exact absurd (hopened.symm.trans hblank) (Option.some_ne_none p)
      · refine .kept rfl ?_ ?_
        · simp only [Function.update_of_ne hj]
        · simp only [Function.update_of_ne hj]

/-- **A close call** leaves its slot blank, or as it was. -/
theorem watchInv_closeR (hinv : WatchInv t) (fd : ℤ) (io : SyncIo) :
    WatchInv (watchStep t (.closeR fd io)).2 := by
  cases hi : getDescr fd with
  | none =>
    simp only [watchStep, fileStep, closeR, hi, Watched.track]
    exact hinv.same (.refl _) fun _ => rfl
  | some i =>
    by_cases hok : (fClose t.files.vols (t.files.fil i) io).1 = .ok
    · simp only [watchStep, fileStep, closeR, hi, hok, ne_eq, not_true_eq_false, if_false,
        Watched.track]
      refine hinv.step (e := .closeR fd io) ((Renews.refl _).congr fun p => by simp [renewed]) ?_
      intro j
      by_cases hj : j = i
      · subst hj
        refine .blank (Function.update_self _ _ _) ?_
        rw [setFil_self, fClose_fs_of_ok hok]
      · exact slotStep_of_ne hj
    · have herrno : rc2errno (fClose t.files.vols (t.files.fil i) io).1 ≠ none := by
        rwa [ne_eq, rc2errno_eq_none_iff]
      obtain ⟨errno, herr⟩ := Option.ne_none_iff_exists'.mp herrno
      simp only [watchStep, fileStep, closeR, hi, ne_eq, hok, not_false_eq_true, if_true, herr,
        Watched.track]
      have hobj := fClose_fs_of_ne hok
      refine hinv.same (e := .closeR fd io) (sameSlots_setFil ?_) fun _ => rfl
      rw [hobj]
      exact .refl _

theorem watchInv_mount (hinv : WatchInv t) (hwrap : t.files.vols.fsid ≠ 0xFFFF#16)
    (fs : Option FsPtr) (path : Path) (opt : Bool) (io : MountIo) :
    WatchInv (watchStep t (.mount fs path opt io)).2 := by
  refine hinv.step (e := .mount fs path opt io) ?_ fun i => .kept rfl rfl rfl
  refine (fMount_renews hwrap fs path opt io).congr fun p => ?_
  simp [renewed]

/-- **Every call keeps the invariant.** -/
theorem watchInv_step (hinv : WatchInv t) {e : FileCall} (hwrap : NoWrap t e) :
    WatchInv (watchStep t e).2 := by
  cases e with
  | openR path cFlags io => exact watchInv_openR hinv hwrap path cFlags io
  | readR fd io => exact hinv.same (e := .readR fd io) (readR_sameSlots _ fd io) fun _ => rfl
  | writeR fd n io =>
    exact hinv.same (e := .writeR fd n io) (writeR_sameSlots _ fd n io) fun _ => rfl
  | lseekR fd ptr dir io =>
    exact hinv.same (e := .lseekR fd ptr dir io) (lseekR_sameSlots _ fd ptr dir io) fun _ => rfl
  | closeR fd io => exact watchInv_closeR hinv fd io
  | mount fs path opt io => exact watchInv_mount hinv hwrap fs path opt io
  | medium pdrv status =>
    refine hinv.step (e := .medium pdrv status) ?_ fun i => .kept rfl rfl rfl
    exact ⟨Nat.le_refl _, fun _ => Nat.le_max_right _ _, fun _ _ => rfl,
      fun p hp => absurd hp Bool.false_ne_true⟩

end Step

theorem watchInv_init : WatchInv Watched.init := by
  refine ⟨fun p => Nat.le_refl _, fun i p h => ?_, fun i p h => ?_, fun i p h => ?_⟩
  · simp [Watched.init, Files.init, Fil.blank] at h
  · simp [Watched.init] at h
  · simp [Watched.init, Files.init, Fil.blank] at h

/-! ### After a close that has failed -/

section FailedClose

theorem fSync_eq_flag (v : Volumes) (fil : Fil) (io : SyncIo) :
    ∃ flag, (fSync v fil io).2 = { fil with flag := flag } ∧
      has flag faRead = has fil.flag faRead ∧ has flag faWrite = has fil.flag faWrite := by
  have hread : ∀ x : BitVec 8, has (x &&& ~~~faDirty) faRead = has x faRead ∧
      has (x &&& ~~~faDirty &&& ~~~faModified) faRead = has x faRead := by decide
  have hwrite : ∀ x : BitVec 8, has (x &&& ~~~faDirty) faWrite = has x faWrite ∧
      has (x &&& ~~~faDirty &&& ~~~faModified) faWrite = has x faWrite := by decide
  unfold fSync
  dsimp only
  split_ifs
  · exact ⟨fil.flag, rfl, rfl, rfl⟩
  · exact ⟨fil.flag, rfl, rfl, rfl⟩
  · exact ⟨_, rfl, (hread _).2, (hwrite _).2⟩
  · exact ⟨_, rfl, (hread _).1, (hwrite _).1⟩
  · exact ⟨fil.flag, rfl, rfl, rfl⟩

/-- A close that fails has changed nothing of the object but what its buffers are. -/
theorem fClose_eq_flag {v : Volumes} {fil : Fil} {io : SyncIo} (hfail : (fClose v fil io).1 ≠ .ok) :
    ∃ flag, (fClose v fil io).2 = { fil with flag := flag } ∧
      has flag faRead = has fil.flag faRead ∧ has flag faWrite = has fil.flag faWrite := by
  obtain ⟨flag, heq, hflags⟩ := fSync_eq_flag v fil io
  refine ⟨flag, ?_, hflags⟩
  unfold fClose at hfail ⊢
  split at hfail
  · rename_i fil' hsync
    rw [hsync] at heq
    split at hfail
    · exact absurd rfl hfail
    · rename_i hinvalid
      rw [if_neg hinvalid]
      exact heq
  · rename_i res fil' hne hsync
    rw [hsync] at heq
    exact heq

/-- What the loop of a call leaves is the call's result, whatever the object was. -/
theorem transfer_fst (fil fil' : Fil) (io : BodyIo) : (fil'.transfer io).1 = (fil.transfer io).1 := by
  unfold Fil.transfer
  cases io.abort <;> rfl

theorem fAccess_fst_flag (v : Volumes) (fil : Fil) {flag access : BitVec 8}
    (h : has flag access = has fil.flag access) (io : BodyIo) :
    (fAccess v { fil with flag := flag } access io).1 = (fAccess v fil access io).1 := by
  simp only [fAccess, h, apply_ite Prod.fst]
  rw [transfer_fst fil]

theorem fLseek_fst_flag (v : Volumes) (fil : Fil) (flag : BitVec 8) (io : BodyIo) :
    (fLseek v { fil with flag := flag } io).1 = (fLseek v fil io).1 := by
  simp only [fLseek, apply_ite Prod.fst]
  rw [transfer_fst fil]

/-- What `_read_r` and `_write_r` return for the result of FatFs and the bytes it has moved. -/
def bytesOr (r : FResult × BitVec 32) : FileResult :=
  if r.1 ≠ .ok then ⟨-1, rc2errno r.1⟩ else ⟨r.2.toInt, none⟩

section Results

variable (s : Files) {fd : ℤ} {i : Fin maxFileDescriptors} (hi : getDescr fd = some i) (io : BodyIo)

include hi

theorem not_console_of_getDescr : ¬(fd = 1 ∨ fd = 2) := by
  have := getDescr_eq_some hi
  omega

theorem readR_fst : (readR s fd io).1 = bytesOr (fRead s.vols (s.fil i) io).1 := by
  rw [readR, if_neg (not_console_of_getDescr hi), hi]
  exact apply_ite Prod.fst _ _ _

theorem writeR_fst (n : BitVec 32) :
    (writeR s fd n io).1 = bytesOr (fWrite s.vols (s.fil i) io).1 := by
  rw [writeR, if_neg (not_console_of_getDescr hi), hi]
  exact apply_ite Prod.fst _ _ _

theorem lseekR_fst (ptr : BitVec 32) (dir : Whence) :
    (lseekR s fd ptr dir io).1 = match seekDest (s.fil i) ptr dir with
      | none => ⟨-1, some .einval⟩
      | some dest => bytesOr ((fLseek s.vols (s.fil i) io).1, dest) := by
  rw [lseekR, hi]
  dsimp only
  cases seekDest (s.fil i) ptr dir with
  | none => rfl
  | some dest => exact apply_ite Prod.fst _ _ _

end Results

variable {t : Watched} {fd : ℤ} {io : SyncIo}

/-- **A descriptor stays open when `_close_r` fails**, and the calls that follow return what they
would have returned before. -/
theorem calls_after_failed_close {i : Fin maxFileDescriptors} (hi : getDescr fd = some i)
    (hfail : (closeR t.files fd io).1.errno ≠ none) :
    let u := (watchStep t (.closeR fd io)).2
    u.opened i = t.opened i ∧ fstatR u.files fd = fstatR t.files fd ∧
      ∀ body : BodyIo, (readR u.files fd body).1 = (readR t.files fd body).1 ∧
        (∀ n, (writeR u.files fd n body).1 = (writeR t.files fd n body).1) ∧
        ∀ ptr dir, (lseekR u.files fd ptr dir body).1 = (lseekR t.files fd ptr dir body).1 := by
  have hne : (fClose t.files.vols (t.files.fil i) io).1 ≠ .ok := by
    intro hok
    simp [closeR, hi, hok] at hfail
  obtain ⟨flag, heq, hread, hwrite⟩ := fClose_eq_flag hne
  obtain ⟨errno, herr⟩ := Option.ne_none_iff_exists'.mp
    (show rc2errno (fClose t.files.vols (t.files.fil i) io).1 ≠ none by
      rwa [ne_eq, rc2errno_eq_none_iff])
  have hstep : (watchStep t (.closeR fd io)).2 =
      ⟨t.files.setFil i { t.files.fil i with flag := flag }, t.kept (.closeR fd io)⟩ := by
    simp only [watchStep, fileStep, closeR, hi, ne_eq, hne, not_false_eq_true, if_true, herr,
      Watched.track, heq]
  have hkept : t.kept (.closeR fd io) i = t.opened i := by
    cases hopened : t.opened i <;> simp [Watched.kept, hopened, renewed]
  have hself : (t.files.setFil i { t.files.fil i with flag := flag }).fil i =
      { t.files.fil i with flag := flag } := setFil_self _ _ _
  rw [hstep]
  refine ⟨hkept, by simp only [fstatR, hi, hself], fun body => ⟨?_, fun n => ?_, fun ptr dir => ?_⟩⟩
  · rw [readR_fst _ hi, readR_fst _ hi, hself, fRead, fAccess_fst_flag _ _ hread]
    rfl
  · rw [writeR_fst _ hi, writeR_fst _ hi, hself, fWrite, fAccess_fst_flag _ _ hwrite]
    rfl
  · rw [lseekR_fst _ hi, lseekR_fst _ hi, hself, fLseek_fst_flag]
    rfl

/-- **A close that has failed in `sync_fs` is not made up for**: the next one succeeds, whatever the
disk does. -/
theorem closeR_after_failed_sync {s : Files} {i : Fin maxFileDescriptors} (hi : getDescr fd = some i)
    (hvalid : validate s.vols (s.fil i).obj = .ok) (hmod : has (s.fil i).flag faModified = true)
    (hwrite : io.write = .ok) (hwindow : io.window = .ok) (hsync : io.sync ≠ .ok) (io' : SyncIo) :
    (closeR s fd io).1.ret = -1 ∧ (closeR (closeR s fd io).2 fd io').1 = ⟨0, none⟩ := by
  have hne : io.sync.toFResult ≠ .ok := by
    rwa [ne_eq, InnerResult.toFResult_eq_ok_iff]
  have hgone : ∀ x : BitVec 8, has (x &&& ~~~faDirty &&& ~~~faModified) faModified = false := by decide
  have hclose : fClose s.vols (s.fil i) io = (io.sync.toFResult,
      { s.fil i with flag := (s.fil i).flag &&& ~~~faDirty &&& ~~~faModified }) := by
    have hfsync : fSync s.vols (s.fil i) io = (io.sync.toFResult,
        { s.fil i with flag := (s.fil i).flag &&& ~~~faDirty &&& ~~~faModified }) := by
      simp [fSync, hvalid, hmod, hwrite, hwindow]
    unfold fClose
    rw [hfsync]
    split
    · rename_i heq
      exact absurd (Prod.mk.inj heq).1 hne
    · rename_i heq
      exact heq.symm
  have hfirst : closeR s fd io = (⟨-1, rc2errno io.sync.toFResult⟩,
      s.setFil i { s.fil i with flag := (s.fil i).flag &&& ~~~faDirty &&& ~~~faModified }) := by
    simp [closeR, hi, hclose, hne]
  rw [hfirst]
  refine ⟨rfl, ?_⟩
  have hvols : ∀ f, (s.setFil i f).vols = s.vols := fun _ => rfl
  simp [closeR, hi, setFil_self, hvols, fClose, fSync, hvalid, hgone]

end FailedClose

/-! ### What is refused -/

section Refused

variable (s : Files) (content : Fin maxFileDescriptors → ℕ → BitVec 8) (m : Mem) {fd : ℤ}

/-- Every call refuses a number that is out of range. -/
theorem rejected_of_range (hconsole : ¬(fd = 1 ∨ fd = 2)) (hnone : getDescr fd = none)
    (c : FdCall) : Rejected s content m fd c := by
  refine ⟨-1, by decide, ?_⟩
  cases c with
  | read ptr n io block apart => simp only [fdCall, readRInto, hconsole, hnone, if_false]
  | write data e => simp only [fdCall, writeRData, hconsole, hnone, if_false]
  | lseek ptr dir io => simp only [fdCall, lseekR, hnone]
  | fstat => simp only [fdCall, fstatR, hnone]
  | close io => simp only [fdCall, closeR, hnone]

theorem setFil_fil (i : Fin maxFileDescriptors) : s.setFil i (s.fil i) = s := by
  rw [Files.setFil, Function.update_eq_self]

/-- A call that gets to `validate` refuses an object that is not valid. -/
theorem rejected_of_invalid (hconsole : ¬(fd = 1 ∨ fd = 2)) {i : Fin maxFileDescriptors}
    (hi : getDescr fd = some i) (hinvalid : validate s.vols (s.fil i).obj = .invalidObject)
    {c : FdCall} (hc : c.Validates) : Rejected s content m fd c := by
  refine ⟨-1, by decide, ?_⟩
  cases c with
  | read ptr n io block apart =>
    simp [fdCall, readRInto, hconsole, hi, fReadInto, fRead, fAccess, hinvalid, setFil_fil,
      rc2errno]
  | write data e =>
    have hnot : ¬Accepts s.vols (s.fil i) faWrite := by
      rintro ⟨hvalid, -⟩
      rw [hinvalid] at hvalid
      exact absurd hvalid (by decide)
    obtain ⟨-, -, hfil, hcontent⟩ := fWriteData_of_not_accepts (content i) data.bytes e hnot
    have hres : (fWriteData s.vols (s.fil i) (content i) data.bytes e).1.1.1 = .invalidObject := by
      simp [fWriteData, fWrite, fAccess, hinvalid]
    simp [fdCall, writeRData, hconsole, hi, hres, hfil, hcontent, setFil_fil, rc2errno]
  | lseek ptr dir io =>
    cases hdest : seekDest (s.fil i) ptr dir with
    | none => exact absurd (seekDest_eq_none_iff.mp hdest) hc
    | some dest =>
      simp [fdCall, lseekR, hi, hdest, fLseek, hinvalid, setFil_fil, rc2errno]
  | fstat => exact hc.elim
  | close io =>
    simp [fdCall, closeR, hi, fClose, fSync, hinvalid, setFil_fil, rc2errno]

/-- The calls that do not get there accept it, or refuse for another reason. -/
theorem not_rejected {i : Fin maxFileDescriptors} (hi : getDescr fd = some i) {c : FdCall}
    (hc : ¬c.Validates) : ¬Rejected s content m fd c := by
  rintro ⟨ret, -, hcall⟩
  have hresult := congrArg FdOutcome.result hcall
  cases c with
  | read ptr n io block apart => exact hc trivial
  | write data e => exact hc trivial
  | lseek ptr dir io =>
    obtain rfl : dir = .other := not_not.mp hc
    simp [fdCall, lseekR, hi, seekDest] at hresult
  | fstat => simp [fdCall, fstatR, hi] at hresult
  | close io => exact hc trivial

end Refused

/-! ### Every run -/

/-- **Dead descriptors are rejected** in every run with mount IDs left, by every call that gets to
`validate`, and out of the range of the table by all; and by no other. -/
theorem rejected_iff {h : List (FileCall × FileResult)} {t : Watched}
    (hr : Reach (fnStep watchStep) NoWrap Watched.init h t) {fd : ℤ} (hdead : Dead t fd)
    (content : Fin maxFileDescriptors → ℕ → BitVec 8) (m : Mem) (c : FdCall) :
    Rejected t.files content m fd c ↔ getDescr fd = none ∨ c.Validates := by
  have hinv : WatchInv t := by
    refine hr.fnInvariant (fun _ t => WatchInv t) watchInv_init ?_
    intro h t e hinv hwrap
    exact watchInv_step hinv hwrap
  obtain ⟨hone, htwo, hclosed⟩ := hdead
  have hconsole : ¬(fd = 1 ∨ fd = 2) := by
    rintro (hcon | hcon)
    · exact hone hcon
    · exact htwo hcon
  cases hi : getDescr fd with
  | none => exact iff_of_true (rejected_of_range t.files content m hconsole hi c) (Or.inl rfl)
  | some i =>
    have hinvalid : validate t.files.vols (t.files.fil i).obj = .invalidObject :=
      validate_of_stale fun p hp => hinv.stale i p hp (hclosed i hi)
    constructor
    · intro hrejected
      by_contra hnot
      exact not_rejected t.files content m hi (fun hc => hnot (Or.inr hc)) hrejected
    · rintro (hnone | hc)
      · exact absurd hnone (Option.some_ne_none i)
      · exact rejected_of_invalid t.files content m hconsole hi hinvalid hc

/-- A file is opened, and its volume is taken away and mounted again. -/
def remountedRun : List (FileCall × FileResult) × Watched :=
  runFn watchStep [] Watched.init [.mount (some .sd) (some ['/', 's', 'd']) false mountGood,
    .openR sdFile oWriting openGood, .mount none (some ['/', 's', 'd']) false mountGood,
    .mount (some .sd) (some ['/', 's', 'd']) true mountGood]

/-- Its descriptor is dead, and a read of one byte is rejected. -/
theorem rejected_iff_remounted :
    Rejected remountedRun.2.files (fun _ _ => 0#8) (fun _ => 0#8) 3
      (.read 0 1#32 ⟨none, 0#32, 0#8⟩ 8 (by decide)) := by
  have hreach : Reach (fnStep watchStep) NoWrap Watched.init remountedRun.1 remountedRun.2 := by
    refine reach_runFn ⟨?_, ?_, ?_, ?_, trivial⟩ <;> unfold NoWrap <;> decide
  refine (rejected_iff hreach ⟨by decide, by decide, fun i hi => ?_⟩ _ _ _).mpr (Or.inr trivial)
  obtain rfl : (0 : Fin maxFileDescriptors) = i := Option.some.inj hi
  decide

/-- **Two calls accept a dead descriptor, or refuse it for another reason.** Before anything has
been opened, and for a file whose volume has been mounted again, `_fstat_r` returns 0 and fills in
the structure; and `_lseek_r` with an unknown `whence` answers `EINVAL`. -/
theorem not_rejected_fstat :
    (Dead Watched.init 3 ∧ fstatR Watched.init.files 3 = (⟨0, none⟩, some ⟨.reg, 0, 0, 512, 0⟩) ∧
      ¬Rejected Watched.init.files (fun _ _ => 0#8) (fun _ => 0#8) 3 .fstat) ∧
    Reach (fnStep watchStep) Always Watched.init remountedRun.1 remountedRun.2 ∧
    Dead remountedRun.2 3 ∧
    (fstatR remountedRun.2.files 3 = (⟨0, none⟩, some ⟨.reg, 100, 0, 512, 0⟩) ∧
      ¬Rejected remountedRun.2.files (fun _ _ => 0#8) (fun _ => 0#8) 3 .fstat) ∧
    ¬Rejected remountedRun.2.files (fun _ _ => 0#8) (fun _ => 0#8) 3
      (.lseek 0#32 .other ⟨0#32, none, 0#8, 0#32, 0#32, 0#32⟩) := by
  have hslot : getDescr 3 = some 0 := by decide
  have hdead : Dead remountedRun.2 3 := by
    refine ⟨by decide, by decide, fun i hi => ?_⟩
    obtain rfl : (0 : Fin maxFileDescriptors) = i := Option.some.inj hi
    decide
  refine ⟨⟨⟨by decide, by decide, fun i _ => rfl⟩, rfl, not_rejected _ _ _ hslot id⟩,
    reach_runFn okAlong_always, hdead, ⟨by decide, not_rejected _ _ _ hslot id⟩, ?_⟩
  exact not_rejected _ _ _ hslot fun hc => hc rfl

end LibcIo

end BareMetal
