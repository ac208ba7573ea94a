import BareMetal.FatFs.Defs
import Mathlib.Data.Fin.Tuple.Basic
import Mathlib.Logic.Function.Basic

/-!
# Volumes of FatFs

Which volume a path is on, whether that volume is mounted, and whether an open object still
belongs to a mounted volume. This is the part of `ff.c` that everything else goes through:
a call with a path begins with `find_volume`, a call with an open object begins with
`validate`, and `f_mount` is the only function that registers a volume or takes it away.

The contents of a volume do not matter here. What the disk layer answers while a volume is
being mounted – the status `disk_initialize` leaves behind, and whether the sectors read
look like a FAT volume – is an input (`BareMetal.FatFs.MountIo`), and every call says which
disk functions it reached, in order (`BareMetal.FatFs.DiskCall`).

A path is a list of characters, or `none` for a null pointer, which `f_unmount(0)` passes:
`BareMetal.FatFs.getLdnumber` answers `-1` to it, and `f_mount` then returns
`FR_INVALID_DRIVE` and does nothing (`BareMetal.FatFs.fMount_null`).
-/

namespace BareMetal

namespace FatFs

/-! ### State -/

/-- A path argument, `none` for a null pointer. -/
abbrev Path := Option (List Char)

/-- The volumes: `FatFs[]`, the `FATFS` objects, the last mount ID, the current volume, and
the status of each drive as `disk_status` reports it. -/
structure Volumes where
  fatFs : Fin ffVolumes → Option FsPtr
  fatfs : FsPtr → Fatfs
  fsid : BitVec 16
  currVol : Fin ffVolumes
  status : Fin ffVolumes → DStatus

/-- Power-on: nothing is registered and no drive is initialized. -/
def Volumes.init : Volumes :=
  ⟨fun _ => none, fun _ => ⟨0, 0, 0#16⟩, 0#16, 0, fun _ => staNoinit⟩

/-- A call of the disk layer. -/
inductive DiskCall where
  | diskStatus (pdrv : Fin ffVolumes)
  | diskInitialize (pdrv : Fin ffVolumes)
  | diskRead (pdrv : Fin ffVolumes)
  | diskWrite (pdrv : Fin ffVolumes)
  deriving DecidableEq, Repr

/-- What the boot sectors of a drive look like. -/
inductive BootCheck where
  | diskErr
  | noFilesystem
  /-- A FAT volume of sub-type `kind + 1`. -/
  | fat (kind : Fin 3)
  deriving DecidableEq, Repr

/-- A FAT32 volume. -/
def BootCheck.fat32 : BootCheck := .fat 2

/-- What the disk layer answers while a volume is mounted: the status `disk_initialize`
leaves and returns, and what the sectors read from it look like. -/
structure MountIo where
  init : DStatus
  check : BootCheck
  deriving DecidableEq, Repr

/-! ### The volume of a path -/

/-- `FF_VOLUME_STRS`. -/
def volumeStr : Fin ffVolumes → List Char
  | 0 => ['s', 'd']
  | 1 => ['f', 'l', 'a', 's', 'h']
  | 2 => ['u', 's', 'b', '0']
  | 3 => ['u', 's', 'b', '1']
  | 4 => ['u', 's', 'b', '2']
  | 5 => ['u', 's', 'b', '3']

/-- The comparison of a volume name with what follows the first slash of a path, in which
letters are made upper case on both sides. The name has to end where a component ends. -/
def matchVolume : List Char → List Char → Bool
  | [], [] => true
  | [], tc :: _ => tc == '/' || tc < ' '
  | _ :: _, [] => false
  | c :: sp, tc :: tp => c.toUpper == tc.toUpper && matchVolume sp tp

/-- The part of a path up to the first colon or control character, and whether it was a
colon that ended it. -/
def hasColon : List Char → Bool
  | [] => false
  | tc :: tt => tc == ':' || (' ' ≤ tc && hasColon tt)

/-- `get_ldnumber`, with `none` for `-1`. With a colon only a single digit before it names a
volume; a first component that is a volume name is one; any other path is on the current
volume. -/
def getLdnumber (v : Volumes) : Path → Option (Fin ffVolumes)
  | none => none
  | some path =>
      if hasColon path then
        match path with
        | d :: ':' :: _ =>
            if d.isDigit then
              let i := d.toNat - '0'.toNat
              if h : i < ffVolumes then some ⟨i, h⟩ else none
            else none
        | _ => none
      else
        match path with
        | '/' :: rest =>
            match Fin.find? fun i => matchVolume (volumeStr i) rest with
            | some i => some i
            | none => some v.currVol
        | _ => some v.currVol

/-! ### Mounting -/

/-- Replace a `FATFS` object. -/
def Volumes.setFs (v : Volumes) (p : FsPtr) (fs : Fatfs) : Volumes :=
  { v with fatfs := Function.update v.fatfs p fs }

/-- Clear the `fs_type` of an object, if there is one. -/
def Volumes.clearFs (v : Volumes) : Option FsPtr → Volumes
  | some p => v.setFs p { v.fatfs p with fsType := 0 }
  | none => v

/-- The second half of `find_volume`: the object is not valid, so try to mount the volume.
The object is cleared, bound to its drive, and filled only at the very end. -/
def mountVolume (v : Volumes) (p : FsPtr) (vol : Fin ffVolumes) (write : Bool) (io : MountIo) :
    FResult × List DiskCall × Volumes :=
  -- from here on the object is not mounted, until the volume has been recognized
  let w := { v.setFs p { v.fatfs p with fsType := 0, pdrv := vol } with
    status := Function.update v.status vol io.init }
  if has io.init staNoinit then
    (.notReady, [.diskInitialize vol], w)
  else if write && has io.init staProtect then
    (.writeProtected, [.diskInitialize vol], w)
  else
    match io.check with
    | .diskErr => (.diskErr, [.diskInitialize vol, .diskRead vol], w)
    | .noFilesystem => (.noFilesystem, [.diskInitialize vol, .diskRead vol], w)
    | .fat kind =>
        (.ok, [.diskInitialize vol, .diskRead vol],
          { w.setFs p ⟨kind + 1, vol, w.fsid + 1#16⟩ with fsid := w.fsid + 1#16 })

/-- `find_volume`: the result, the object found, the disk functions reached. -/
def findVolume (v : Volumes) (path : Path) (mode : BitVec 8) (io : MountIo) :
    (FResult × Option FsPtr) × List DiskCall × Volumes :=
  match getLdnumber v path with
  | none => ((.invalidDrive, none), [], v)
  | some vol =>
      match v.fatFs vol with
      | none => ((.notEnabled, none), [], v)
      | some p =>
          let fs := v.fatfs p
          let write : Bool := mode &&& ~~~faRead != 0#8
          let stat := v.status fs.pdrv
          if fs.fsType ≠ 0 then
            if !has stat staNoinit then
              ((if write && has stat staProtect then .writeProtected else .ok, some p),
                [.diskStatus fs.pdrv], v)
            else
              -- the drive has lost its medium since: mount again
              let r := mountVolume v p vol write io
              ((r.1, some p), .diskStatus fs.pdrv :: r.2.1, r.2.2)
          else
            let r := mountVolume v p vol write io
            ((r.1, some p), r.2.1, r.2.2)

/-- `f_mount`; `f_unmount(path)` is `f_mount(0, path, 0)`. -/
def fMount (v : Volumes) (fs : Option FsPtr) (path : Path) (opt : Bool) (io : MountIo) :
    FResult × List DiskCall × Volumes :=
  match getLdnumber v path with
  | none => (.invalidDrive, [], v)
  | some vol =>
      let v := (v.clearFs (v.fatFs vol)).clearFs fs
      let v := { v with fatFs := Function.update v.fatFs vol fs }
      if opt then
        let r := findVolume v path 0#8 io
        (r.1.1, r.2)
      else
        (.ok, [], v)

/-- `validate`: the object belongs to a volume that is mounted as it was when the object was
opened, on a drive that is still initialized. -/
def validate (v : Volumes) (obj : FfObjId) : FResult :=
  match obj.fs with
  | none => .invalidObject
  | some p =>
      if (v.fatfs p).fsType ≠ 0 ∧ obj.id = (v.fatfs p).id ∧
          has (v.status (v.fatfs p).pdrv) staNoinit = false then
        .ok
      else
        .invalidObject

/-! ### What they do -/

/-- **Unmounting with a null path does nothing.** -/
theorem fMount_null (v : Volumes) (fs : Option FsPtr) (opt : Bool) (io : MountIo) :
    fMount v fs none opt io = (.invalidDrive, [], v) := rfl

theorem setFs_self (v : Volumes) (p : FsPtr) (fs : Fatfs) : (v.setFs p fs).fatfs p = fs := by
  simp only [Volumes.setFs, Function.update_self]

theorem setFs_of_ne {p q : FsPtr} (hq : q ≠ p) (v : Volumes) (fs : Fatfs) :
    (v.setFs p fs).fatfs q = v.fatfs q := by
  simp only [Volumes.setFs, Function.update_of_ne hq]

/-- The drive of a disk call. -/
def DiskCall.pdrv : DiskCall → Fin ffVolumes
  | .diskStatus pdrv | .diskInitialize pdrv | .diskRead pdrv | .diskWrite pdrv => pdrv

/-- **What an attempt to mount can do**: whatever it returns, the object is bound to the
drive of the volume, the drive has the status `disk_initialize` left, and all disk calls were
to that drive. -/
theorem mountVolume_inv (v : Volumes) (p : FsPtr) (vol : Fin ffVolumes) (write : Bool)
    (io : MountIo) :
    ∃ res calls fs fsid, res ≠ .notEnoughCore ∧ (∀ c ∈ calls, c.pdrv = vol) ∧ fs.pdrv = vol ∧
      mountVolume v p vol write io = (res, calls, { v.setFs p fs with
        status := Function.update v.status vol io.init, fsid := fsid }) := by
  unfold mountVolume
  dsimp only
  split
  · exact ⟨_, _, _, _, by simp, by simp [DiskCall.pdrv], rfl, rfl⟩
  · split
    · exact ⟨_, _, _, _, by simp, by simp [DiskCall.pdrv], rfl, rfl⟩
    · split
      · exact ⟨_, _, _, _, by simp, by simp [DiskCall.pdrv], rfl, rfl⟩
      · exact ⟨_, _, _, _, by simp, by simp [DiskCall.pdrv], rfl, rfl⟩
      · -- the object is written twice, and the second time is what stays
        rename_i kind _
        refine ⟨.ok, [.diskInitialize vol, .diskRead vol], ⟨kind + 1, vol, v.fsid + 1#16⟩,
          v.fsid + 1#16, by simp, ?_, rfl, ?_⟩
        · simp [DiskCall.pdrv]
        · simp only [Volumes.setFs, Function.update_idem]

/-- **What `find_volume` can do**: it finds no volume and does nothing; or it finds the object
of the path's volume mounted, asks for the status of its drive and does nothing; or it tries
to mount that volume. -/
theorem findVolume_inv (v : Volumes) (path : Path) (mode : BitVec 8) (io : MountIo) :
    (∃ res, res ≠ .ok ∧ res ≠ .notEnoughCore ∧
      findVolume v path mode io = ((res, none), [], v)) ∨
    ∃ vol p, getLdnumber v path = some vol ∧ v.fatFs vol = some p ∧
      ((∃ res, res ≠ .notEnoughCore ∧ (v.fatfs p).fsType ≠ 0 ∧
        findVolume v path mode io = ((res, some p), [.diskStatus (v.fatfs p).pdrv], v)) ∨
      ∃ write asked, (∀ c ∈ asked, (v.fatfs p).fsType ≠ 0 ∧ c.pdrv = (v.fatfs p).pdrv) ∧
        findVolume v path mode io = (((mountVolume v p vol write io).1, some p),
          asked ++ (mountVolume v p vol write io).2.1, (mountVolume v p vol write io).2.2)) := by
  unfold findVolume
  split
  · exact Or.inl ⟨.invalidDrive, by simp, by simp, rfl⟩
  · rename_i vol hvol
    split
    · exact Or.inl ⟨.notEnabled, by simp, by simp, rfl⟩
    · rename_i p hp
      refine Or.inr ⟨vol, p, hvol, hp, ?_⟩
      dsimp only
      split
      · rename_i htype
        split
        · refine Or.inl ⟨_, ?_, htype, rfl⟩
          split <;> simp
        · exact Or.inr ⟨_, [.diskStatus (v.fatfs p).pdrv], by simp [DiskCall.pdrv, htype], rfl⟩
      · exact Or.inr ⟨_, [], by simp, rfl⟩

/-- Only a volume that was found is reported as such. -/
theorem findVolume_ok {v : Volumes} {path : Path} {mode : BitVec 8} {io : MountIo}
    (h : (findVolume v path mode io).1.1 = .ok) :
    ∃ p, (findVolume v path mode io).1.2 = some p := by
  rcases findVolume_inv v path mode io with ⟨res, hres, -, heq⟩ |
    ⟨vol, p, -, -, ⟨res, -, -, heq⟩ | ⟨write, asked, -, heq⟩⟩
  · rw [heq] at h
    exact absurd h hres
  · exact ⟨p, by rw [heq]⟩
  · exact ⟨p, by rw [heq]⟩

/-- **The volume of a path can be used**: it is registered, and it is mounted on a drive that is
ready, or it can be mounted; and the medium is not protected if it is to be written. -/
def VolumeReady (v : Volumes) (path : Path) (write : Bool) (io : MountIo) : Prop :=
  ∃ vol p, getLdnumber v path = some vol ∧ v.fatFs vol = some p ∧
    if (v.fatfs p).fsType ≠ 0 ∧ has (v.status (v.fatfs p).pdrv) staNoinit = false then
      (write && has (v.status (v.fatfs p).pdrv) staProtect) = false
    else
      has io.init staNoinit = false ∧ (write && has io.init staProtect) = false ∧
        ∃ kind, io.check = .fat kind

theorem mountVolume_ok_iff {v : Volumes} {p : FsPtr} {vol : Fin ffVolumes} {write : Bool}
    {io : MountIo} :
    (mountVolume v p vol write io).1 = .ok ↔ has io.init staNoinit = false ∧
      (write && has io.init staProtect) = false ∧ ∃ kind, io.check = .fat kind := by
  unfold mountVolume
  dsimp only
  split
  · simp_all
  · split
    · simp_all
    · split <;> simp_all

/-- **`find_volume` succeeds** exactly if the volume can be used. -/
theorem findVolume_ok_iff {v : Volumes} {path : Path} {mode : BitVec 8} {io : MountIo} :
    (findVolume v path mode io).1.1 = .ok ↔
      VolumeReady v path (mode &&& ~~~faRead != 0#8) io := by
  unfold findVolume VolumeReady
  split
  · rename_i hvol
    simp [hvol]
  rename_i vol hvol
  split
  · rename_i hp
    simp [hvol, hp]
  rename_i p hp
  simp only [hvol, Option.some.injEq, exists_and_left, exists_eq_left', hp]
  by_cases htype : (v.fatfs p).fsType = 0
  · simp only [htype, ne_eq, not_true_eq_false, if_false, false_and]
    exact mountVolume_ok_iff
  · cases hstat : has (v.status (v.fatfs p).pdrv) staNoinit with
    | false => simp [htype]
    | true =>
      simp only [htype, ne_eq, not_false_eq_true, if_true, Bool.not_true, Bool.false_eq_true,
        if_false, Bool.true_eq_false, and_false]
      exact mountVolume_ok_iff

/-- The volume that was found is mounted, on a drive that is ready. -/
theorem findVolume_mounted {v w : Volumes} {path : Path} {mode : BitVec 8} {io : MountIo}
    {p : FsPtr} {calls : List DiskCall}
    (h : findVolume v path mode io = ((.ok, some p), calls, w)) :
    (w.fatfs p).fsType ≠ 0 ∧ has (w.status (w.fatfs p).pdrv) staNoinit = false := by
  have hmount : ∀ {vol write}, (mountVolume v p vol write io).1 = .ok →
      ((mountVolume v p vol write io).2.2.fatfs p).fsType ≠ 0 ∧
      has ((mountVolume v p vol write io).2.2.status
        ((mountVolume v p vol write io).2.2.fatfs p).pdrv) staNoinit = false := by
    intro vol write hok
    obtain ⟨hinit, hprotect, kind, hkind⟩ := mountVolume_ok_iff.mp hok
    simp [mountVolume, hinit, hprotect, hkind, Volumes.setFs, Function.update_self]
  unfold findVolume at h
  split at h
  · simp at h
  split at h
  · simp at h
  dsimp only at h
  split at h
  · rename_i htype
    split at h
    · rename_i hstat
      simp only [Prod.mk.injEq, Option.some.injEq] at h
      obtain ⟨⟨-, rfl⟩, -, rfl⟩ := h
      exact ⟨htype, by simpa using hstat⟩
    · simp only [Prod.mk.injEq, Option.some.injEq] at h
      obtain ⟨⟨hok, rfl⟩, -, rfl⟩ := h
      exact hmount hok
  · simp only [Prod.mk.injEq, Option.some.injEq] at h
    obtain ⟨⟨hok, rfl⟩, -, rfl⟩ := h
    exact hmount hok

theorem findVolume_ne_notEnoughCore (v : Volumes) (path : Path) (mode : BitVec 8)
    (io : MountIo) : (findVolume v path mode io).1.1 ≠ .notEnoughCore := by
  rcases findVolume_inv v path mode io with ⟨res, -, hres, heq⟩ |
    ⟨vol, p, -, -, ⟨res, hres, -, heq⟩ | ⟨write, asked, -, heq⟩⟩
  · rwa [heq]
  · rwa [heq]
  · obtain ⟨res, calls, fs, fsid, hres, -, -, hmount⟩ := mountVolume_inv v p vol write io
    rw [heq, hmount]
    exact hres

/-- The only status that can change is that of the drive of the path, to what
`disk_initialize` left. -/
theorem findVolume_status (v : Volumes) (path : Path) (mode : BitVec 8) (io : MountIo) :
    (findVolume v path mode io).2.2.status = v.status ∨
      ∃ vol, getLdnumber v path = some vol ∧
        (findVolume v path mode io).2.2.status = Function.update v.status vol io.init := by
  rcases findVolume_inv v path mode io with ⟨res, -, -, heq⟩ |
    ⟨vol, p, hvol, -, ⟨res, -, -, heq⟩ | ⟨write, asked, -, heq⟩⟩
  · exact Or.inl (by rw [heq])
  · exact Or.inl (by rw [heq])
  · obtain ⟨res, calls, fs, fsid, -, -, -, hmount⟩ := mountVolume_inv v p vol write io
    exact Or.inr ⟨vol, hvol, by rw [heq, hmount]⟩

/-! ### Objects and their volumes

The program mounts each `FATFS` object on one volume only. What that says about the tables
is `BareMetal.FatFs.Placed`, and since FatFs keeps it, a call that works on the volume of an
object leaves the volumes of all others alone (`BareMetal.FatFs.Confined`). -/

/-- The volume an object is mounted on: `/sd` in `fs.c`, `/usb0` to `/usb3` in `usb.c`. -/
def FsPtr.vol : FsPtr → Fin ffVolumes
  | .sd => 0
  | .usb i => ⟨i + 2, Nat.add_lt_add_right i.isLt 2⟩

/-- The path it is mounted under. -/
def FsPtr.path (p : FsPtr) : Path := some ('/' :: volumeStr p.vol)

theorem FsPtr.vol_injective {p q : FsPtr} (h : p.vol = q.vol) : p = q := by
  have hval : (p.vol : ℕ) = q.vol := congrArg Fin.val h
  cases p with
  | sd =>
    cases q with
    | sd => rfl
    | usb j => simp [FsPtr.vol] at hval
  | usb i =>
    cases q with
    | sd => simp [FsPtr.vol] at hval
    | usb j =>
      simp only [FsPtr.vol] at hval
      rw [show i = j from Fin.ext (by omega)]

theorem getLdnumber_path (v : Volumes) (p : FsPtr) : getLdnumber v p.path = some p.vol := by
  cases p with
  | sd => rfl
  | usb i =>
    match i with
    | 0 | 1 | 2 | 3 => rfl

/-- **Objects are on their volumes**: an object is registered for no other volume, and while
it is mounted it is registered and bound to the drive of its volume. -/
structure Placed (v : Volumes) : Prop where
  registered : ∀ vol p, v.fatFs vol = some p → vol = p.vol
  mounted : ∀ p, (v.fatfs p).fsType ≠ 0 → v.fatFs p.vol = some p ∧ (v.fatfs p).pdrv = p.vol

/-- Of the volumes only that of `p` has changed. -/
structure Confined (p : FsPtr) (v w : Volumes) : Prop where
  fatFs : ∀ vol, vol ≠ p.vol → w.fatFs vol = v.fatFs vol
  fatfs : ∀ q, q ≠ p → w.fatfs q = v.fatfs q
  status : ∀ pdrv, pdrv ≠ p.vol → w.status pdrv = v.status pdrv

theorem placed_init : Placed Volumes.init := by
  refine ⟨fun vol p h => ?_, fun p h => ?_⟩
  · simp [Volumes.init] at h
  · simp [Volumes.init] at h

theorem Confined.refl (p : FsPtr) (v : Volumes) : Confined p v v :=
  ⟨fun _ _ => rfl, fun _ _ => rfl, fun _ _ => rfl⟩

theorem Confined.trans {p : FsPtr} {u v w : Volumes} (huv : Confined p u v)
    (hvw : Confined p v w) : Confined p u w where
  fatFs vol h := (hvw.fatFs vol h).trans (huv.fatFs vol h)
  fatfs q h := (hvw.fatfs q h).trans (huv.fatfs q h)
  status pdrv h := (hvw.status pdrv h).trans (huv.status pdrv h)

/-- A change of one volume keeps the objects on theirs if it leaves this one's object in
order. -/
theorem Placed.confined {p : FsPtr} {v w : Volumes} (hv : Placed v) (hw : Confined p v w)
    (hreg : w.fatFs p.vol = none ∨ w.fatFs p.vol = some p)
    (hmount : (w.fatfs p).fsType ≠ 0 → w.fatFs p.vol = some p ∧ (w.fatfs p).pdrv = p.vol) :
    Placed w where
  registered vol q h := by
    by_cases hvol : vol = p.vol
    · subst hvol
      rcases hreg with hnone | hsome
      · simp [hnone] at h
      · rw [hsome] at h
        rw [Option.some.inj h]
    · rw [hw.fatFs vol hvol] at h
      exact hv.registered vol q h
  mounted q h := by
    by_cases hq : q = p
    · subst hq
      exact hmount h
    · rw [hw.fatfs q hq] at h ⊢
      rw [hw.fatFs q.vol fun hvol => hq (FsPtr.vol_injective hvol)]
      exact hv.mounted q h

/-- **`find_volume` keeps to one volume.** It finds no volume and does nothing, or it finds
the object of the path's volume, and all it changes and all it reaches is on that volume. -/
theorem findVolume_cases {v : Volumes} (hv : Placed v) (path : Path) (mode : BitVec 8)
    (io : MountIo) :
    ((findVolume v path mode io).1.2 = none ∧ (findVolume v path mode io).2 = ([], v)) ∨
      ∃ p, getLdnumber v path = some p.vol ∧ v.fatFs p.vol = some p ∧
        (findVolume v path mode io).1.2 = some p ∧
        (∀ c ∈ (findVolume v path mode io).2.1, c.pdrv = p.vol) ∧
        Confined p v (findVolume v path mode io).2.2 ∧
        (findVolume v path mode io).2.2.fatFs = v.fatFs ∧
        ((findVolume v path mode io).2.2.fatfs p).pdrv = p.vol ∧
        Placed (findVolume v path mode io).2.2 := by
  rcases findVolume_inv v path mode io with ⟨res, -, -, heq⟩ | ⟨vol, p, hvol, hp, hfound⟩
  · exact Or.inl (by rw [heq]; exact ⟨rfl, rfl⟩)
  · obtain rfl := hv.registered vol p hp
    refine Or.inr ⟨p, hvol, hp, ?_⟩
    rcases hfound with ⟨res, -, htype, heq⟩ | ⟨write, asked, hasked, heq⟩
    · have hdrive : (v.fatfs p).pdrv = p.vol := (hv.mounted p htype).2
      rw [heq]
      exact ⟨rfl, by simp [DiskCall.pdrv, hdrive], Confined.refl p v, rfl, hdrive, hv⟩
    · obtain ⟨res, calls, fs, fsid, -, hcalls, hpdrv, hmount⟩ := mountVolume_inv v p p.vol write io
      rw [heq, hmount]
      have hself : ((v.setFs p fs).fatfs p).pdrv = p.vol := by rw [setFs_self, hpdrv]
      have hconf : Confined p v { v.setFs p fs with
          status := Function.update v.status p.vol io.init, fsid := fsid } :=
        ⟨fun _ _ => rfl, fun _ hq => setFs_of_ne hq v fs,
          fun _ hne => Function.update_of_ne hne _ _⟩
      refine ⟨rfl, ?_, hconf, rfl, hself, hv.confined hconf (Or.inr hp) fun _ => ⟨hp, hself⟩⟩
      intro c hc
      rcases List.mem_append.mp hc with hc | hc
      · obtain ⟨htype, hdrive⟩ := hasked c hc
        rw [hdrive, (hv.mounted p htype).2]
      · exact hcalls c hc

theorem clearFs_status (v : Volumes) (fs : Option FsPtr) : (v.clearFs fs).status = v.status := by
  cases fs <;> rfl

theorem clearFs_confined {p : FsPtr} {fs : Option FsPtr} (hfs : fs = none ∨ fs = some p)
    (v : Volumes) : Confined p v (v.clearFs fs) := by
  rcases hfs with rfl | rfl
  · exact Confined.refl p v
  · exact ⟨fun _ _ => rfl, fun _ hq => setFs_of_ne hq v _, fun _ _ => rfl⟩

/-- What is not mounted stays so. -/
theorem clearFs_fsType {p : FsPtr} {v : Volumes} (h : (v.fatfs p).fsType = 0)
    (fs : Option FsPtr) : ((v.clearFs fs).fatfs p).fsType = 0 := by
  cases fs with
  | none => exact h
  | some q =>
    by_cases hp : p = q
    · subst hp
      simp only [Volumes.clearFs, setFs_self]
    · simp only [Volumes.clearFs, setFs_of_ne hp, h]

/-- With its volume's object cleared, an object is not mounted. -/
theorem Placed.clearFs_fsType {v : Volumes} (hv : Placed v) (p : FsPtr) :
    ((v.clearFs (v.fatFs p.vol)).fatfs p).fsType = 0 := by
  by_cases htype : (v.fatfs p).fsType = 0
  · exact FatFs.clearFs_fsType htype _
  · rw [(hv.mounted p htype).1]
    simp only [Volumes.clearFs, setFs_self]

/-- **Mounting and unmounting keep the objects on their volumes**, and work on one volume
only. -/
theorem fMount_confined {v : Volumes} (hv : Placed v) (p : FsPtr) {fs : Option FsPtr}
    (hfs : fs = none ∨ fs = some p) (opt : Bool) (io : MountIo) :
    Placed (fMount v fs p.path opt io).2.2 ∧ Confined p v (fMount v fs p.path opt io).2.2 ∧
      ∀ c ∈ (fMount v fs p.path opt io).2.1, c.pdrv = p.vol := by
  have hcfs : v.fatFs p.vol = none ∨ v.fatFs p.vol = some p := by
    rcases hreg : v.fatFs p.vol with - | q
    · exact Or.inl rfl
    · rw [FsPtr.vol_injective (hv.registered p.vol q hreg)]
      exact Or.inr rfl
  -- the tables after the registration
  set u := { (v.clearFs (v.fatFs p.vol)).clearFs fs with
    fatFs := Function.update ((v.clearFs (v.fatFs p.vol)).clearFs fs).fatFs p.vol fs } with hu
  have hreg : u.fatFs p.vol = fs := Function.update_self _ _ _
  have hconf : Confined p v u := by
    refine ((clearFs_confined hcfs v).trans (clearFs_confined hfs _)).trans ?_
    exact ⟨fun vol hvol => Function.update_of_ne hvol _ _, fun _ _ => rfl, fun _ _ => rfl⟩
  have htype : (u.fatfs p).fsType = 0 := clearFs_fsType (hv.clearFs_fsType p) fs
  have hplaced : Placed u :=
    hv.confined hconf (by rw [hreg]; exact hfs) fun h => absurd htype h
  unfold fMount
  rw [getLdnumber_path]
  dsimp only
  rw [← hu]
  split
  · rcases findVolume_cases hplaced p.path 0#8 io with ⟨-, hnone⟩ | ⟨q, hq, -, -, hcalls, hfound,
      -, -, hplaced'⟩
    · rw [hnone]
      exact ⟨hplaced, hconf, by simp⟩
    · -- the path is that of the volume just registered
      rw [getLdnumber_path] at hq
      obtain rfl := FsPtr.vol_injective (Option.some.inj hq)
      exact ⟨hplaced', hconf.trans hfound, hcalls⟩
  · exact ⟨hplaced, hconf, by simp⟩

/-- A volume that is registered without `opt` is not mounted yet. -/
theorem fMount_delayed {v : Volumes} (hv : Placed v) (p : FsPtr) (io : MountIo) :
    (fMount v (some p) p.path false io).2.1 = [] ∧
      (fMount v (some p) p.path false io).2.2.fatFs p.vol = some p ∧
      ((fMount v (some p) p.path false io).2.2.fatfs p).fsType = 0 ∧
      (fMount v (some p) p.path false io).2.2.status = v.status := by
  unfold fMount
  rw [getLdnumber_path]
  dsimp only
  rw [if_neg Bool.false_ne_true]
  refine ⟨rfl, Function.update_self _ _ _, clearFs_fsType (hv.clearFs_fsType p) (some p), ?_⟩
  show ((v.clearFs (v.fatFs p.vol)).clearFs (some p)).status = v.status
  rw [clearFs_status, clearFs_status]

/-- A valid object is on a mounted volume. -/
theorem validate_ok {v : Volumes} {obj : FfObjId} (h : validate v obj = .ok) :
    ∃ p, obj.fs = some p ∧ (v.fatfs p).fsType ≠ 0 := by
  unfold validate at h
  split at h
  · simp at h
  · rename_i p hp
    split at h
    · rename_i hvalid
      exact ⟨p, hp, hvalid.1⟩
    · simp at h

end FatFs

end BareMetal
