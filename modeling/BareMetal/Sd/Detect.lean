import BareMetal.Runs
import BareMetal.FatFs.Volume
import BareMetal.Sd.Cache

/-!
# Inserting and removing the card

`sd_detect` polls the card-detect pin and keeps a flag. When a card shows up it initializes
the drive and registers the volume `/sd`, to be mounted by the first call that needs it; when
the card is gone it unmounts – with `f_unmount(0)`, that is, with a null *path*. FatFs finds
no volume of that name, returns `FR_INVALID_DRIVE`, which nobody looks at, and **the volume
stays as it is** (`BareMetal.Sd.fsDeinit_eq`): mounted if it was mounted, and if not, mounted
by the next call with a path on it, since the driver never reports a drive as uninitialized
again.

What a removed card should mean is `BareMetal.Sd.SlotOk`: once `sd_detect` has returned `0`,
the volume is not mounted, and no call reaches the transfers of the card driver until
`sd_detect` returns `1`. This is so along the runs that do not use the card in the wrong
place (`BareMetal.Sd.slotOk_of_cardUnused`), and the first call that does breaks it
(`BareMetal.Sd.not_slotOk_of_cardUsed`).

A file operation is what it is to the volumes: it looks up the volume of a path, or checks an
open object, and if that goes well it makes some transfers on the drive of the volume. Which
transfers is left to the event, and so is the object, so that every descriptor and directory
opened at any time is covered. USB drives come and go at any time as well.
-/

namespace BareMetal

namespace Sd

open FatFs

/-! ### The code -/

/-- The volumes of FatFs and the flag of `sd_detect`. -/
structure Slot where
  vols : Volumes
  detected : Bool

/-- Power-on. -/
def Slot.init : Slot := ⟨Volumes.init, false⟩

/-- A transfer a file operation makes. -/
inductive Transfer where
  | read | write
  deriving DecidableEq, Repr

/-- The disk call of a transfer. -/
def Transfer.call (pdrv : Fin ffVolumes) : Transfer → DiskCall
  | .read => .diskRead pdrv
  | .write => .diskWrite pdrv

/-- What an operation with a path meets: whether `sunxi_mmc_init` succeeds and what
`usb_disk_initialize` answers, if the volume has to be mounted, what the boot sectors then
look like, and the transfers it makes on a volume it has found. -/
structure PathIo where
  mmcInit : Bool
  usbInit : DStatus
  check : BootCheck
  transfers : List Transfer
  deriving DecidableEq, Repr

/-- Something that happens to the volumes. -/
inductive SlotEvent where
  /-- `sd_detect` reads this from the pin; its `sunxi_mmc_init` would succeed or not. -/
  | sdDetect (pin mmcInit : Bool)
  /-- An operation with a path, opened with some mode; `f_chdir` if it succeeds as such. -/
  | pathOp (path : Path) (mode : BitVec 8) (chdir : Bool) (io : PathIo)
  /-- An operation on an open file or directory. -/
  | objectOp (obj : FfObjId) (transfers : List Transfer)
  | usbMount (i : Fin 4) (io : PathIo)
  | usbUnmount (i : Fin 4)
  /-- A USB drive changes its status. -/
  | usbStatus (i : Fin 4) (status : DStatus)
  deriving DecidableEq

/-- What it returns, for `sd_detect`, and the disk functions it reaches. -/
structure SlotResult where
  detected : Option Bool
  calls : List DiskCall
  deriving DecidableEq, Repr

/-- The status `mmc_disk_initialize` leaves and returns. -/
def mmcStatus (status : DStatus) (pdrv : Fin ffVolumes) (mmcInit : Bool) : DStatus :=
  if pdrv = 0 ∧ mmcInit then status &&& ~~~staNoinit else status

/-- `disk_initialize`: the card driver for the first two drives, USB for the others. -/
def diskInitialize (v : Volumes) (pdrv : Fin ffVolumes) (io : PathIo) : DStatus :=
  if pdrv.val < 2 then mmcStatus (v.status 0) pdrv io.mmcInit else io.usbInit

/-- What mounting the volume of a path meets. -/
def mountIo (v : Volumes) (path : Path) (io : PathIo) : MountIo :=
  ⟨(getLdnumber v path).elim staNoinit fun vol => diskInitialize v vol io, io.check⟩

/-- For an `f_mount` that mounts nothing yet. -/
def noMountIo : MountIo := ⟨staNoinit, .diskErr⟩

/-- `fs_init`. -/
def fsInit (v : Volumes) (mmcInit : Bool) : DStatus × List DiskCall × Volumes :=
  let st := mmcStatus (v.status 0) 0 mmcInit
  let v := { v with status := Function.update v.status 0 st }
  if st ≠ 0#8 then
    (st, [.diskInitialize 0], v)
  else
    -- the volume is only registered, and its first user mounts it
    let r := fMount v (some .sd) FsPtr.sd.path false noMountIo
    (0#8, .diskInitialize 0 :: r.2.1, r.2.2)

/-- `fs_deinit`. -/
def fsDeinit (v : Volumes) : List DiskCall × Volumes := (fMount v none none false noMountIo).2

/-- `sd_detect`. -/
def sdDetect (s : Slot) (pin mmcInit : Bool) : SlotResult × Slot :=
  if !s.detected && !pin then
    let r := fsInit s.vols mmcInit
    (⟨some (r.1 == 0#8), r.2.1⟩, ⟨r.2.2, r.1 == 0#8⟩)
  else if s.detected && pin then
    -- what `f_unmount` returned is not looked at
    let r := fsDeinit s.vols
    (⟨some false, r.1⟩, ⟨r.2, false⟩)
  else
    (⟨some s.detected, []⟩, s)

/-- The loop of `f_chdir` for the new current volume: the last one with this object, or the
first. -/
def chdirVol (v : Volumes) (p : FsPtr) : Fin ffVolumes :=
  ((List.finRange ffVolumes).reverse.find? fun vol => v.fatFs vol == some p).getD 0

/-- An operation with a path. -/
def pathOp (v : Volumes) (path : Path) (mode : BitVec 8) (chdir : Bool) (io : PathIo) :
    List DiskCall × Volumes :=
  let r := findVolume v path mode (mountIo v path io)
  match r.1 with
  | (.ok, some p) =>
      (r.2.1 ++ io.transfers.map (Transfer.call (r.2.2.fatfs p).pdrv),
        if chdir then { r.2.2 with currVol := chdirVol r.2.2 p } else r.2.2)
  | _ => r.2

/-- An operation on an open object. -/
def objectOp (v : Volumes) (obj : FfObjId) (transfers : List Transfer) : List DiskCall :=
  match obj.fs with
  | some p =>
      if validate v obj = .ok then transfers.map (Transfer.call (v.fatfs p).pdrv) else []
  | none => []

/-- One event. -/
def slotStep (s : Slot) : SlotEvent → SlotResult × Slot
  | .sdDetect pin mmcInit => sdDetect s pin mmcInit
  | .pathOp path mode chdir io =>
      let r := pathOp s.vols path mode chdir io
      (⟨none, r.1⟩, { s with vols := r.2 })
  | .objectOp obj transfers => (⟨none, objectOp s.vols obj transfers⟩, s)
  | .usbMount i io =>
      let r := fMount s.vols (some (.usb i)) (FsPtr.usb i).path true
        (mountIo s.vols (FsPtr.usb i).path io)
      (⟨none, r.2.1⟩, { s with vols := r.2.2 })
  | .usbUnmount i =>
      let r := fMount s.vols none (FsPtr.usb i).path false noMountIo
      (⟨none, r.2.1⟩, { s with vols := r.2.2 })
  | .usbStatus i status =>
      (⟨none, []⟩, { s with vols := { s.vols with
        status := Function.update s.vols.status (FsPtr.usb i).vol status } })

/-! ### What a removed card means -/

/-- What the most recent `sd_detect` returned. -/
def lastDetect : List (SlotEvent × SlotResult) → Option Bool
  | [] => none
  | (_, r) :: h => r.detected.or (lastDetect h)

/-- The call is `mmc_disk_read` or `mmc_disk_write`, to which the dispatch of `fs.c` sends the
transfers of the first two drives. -/
def transfersMmc : DiskCall → Bool
  | .diskRead pdrv | .diskWrite pdrv => pdrv.val < 2
  | _ => false

/-- No event reached the transfers of the card driver after an `sd_detect` that returned
`0`. -/
def Quiet : List (SlotEvent × SlotResult) → Prop
  | [] => True
  | (_, r) :: h =>
      (lastDetect h = some false → ∀ c ∈ r.calls, transfersMmc c = false) ∧ Quiet h

/-- **What a removed card means**: after an `sd_detect` that returned `0`, `/sd` is not
mounted, and no transfer of the card driver is reached until one returns `1`. -/
structure SlotOk (h : List (SlotEvent × SlotResult)) (s : Slot) : Prop where
  unregistered : lastDetect h = some false →
    ∀ p, s.vols.fatFs 0 = some p → (s.vols.fatfs p).fsType = 0
  quiet : Quiet h

/-- The card is taken out only while the volume is not mounted, and while it is out no path
is on the volume as long as that is registered. -/
def CardUnused (s : Slot) : SlotEvent → Prop
  | .sdDetect pin _ => s.detected = true → pin = true → (s.vols.fatfs .sd).fsType = 0
  | .pathOp path .. => s.detected = false → getLdnumber s.vols path = some 0 →
      s.vols.fatFs 0 = none
  | _ => True

/-! ### What the calls do -/

/-- The status of the drive is the one of the card driver. -/
theorem mmcDiskInitialize_status {B : Type} (s : Driver B) (mmcInit : Bool) :
    (mmcDiskInitialize s 0#8 mmcInit).1 = mmcStatus s.status 0 mmcInit := by
  cases mmcInit <;> rfl

/-- A drive that is initialized stays so. -/
theorem mmcStatus_zero (pdrv : Fin ffVolumes) (mmcInit : Bool) :
    mmcStatus 0#8 pdrv mmcInit = 0#8 := by
  unfold mmcStatus
  split
  · exact BitVec.zero_and
  · rfl

/-- **`fs_deinit` does nothing.** -/
theorem fsDeinit_eq (v : Volumes) : fsDeinit v = ([], v) := by
  rw [fsDeinit, fMount_null]

theorem Transfer.call_pdrv (pdrv : Fin ffVolumes) (x : Transfer) : (x.call pdrv).pdrv = pdrv := by
  cases x <;> rfl

/-- The drives of USB volumes are not the card driver's. -/
theorem transfersMmc_eq_false {p : FsPtr} (hp : p ≠ .sd) {c : DiskCall} (hc : c.pdrv = p.vol) :
    transfersMmc c = false := by
  cases p with
  | sd => exact absurd rfl hp
  | usb i =>
    have hval : ¬(c.pdrv : ℕ) < 2 := by
      rw [hc]
      simp [FsPtr.vol]
    cases c <;> simp_all [transfersMmc, DiskCall.pdrv]

theorem usb_vol_ne {p : FsPtr} (hp : p ≠ .sd) : (0 : Fin ffVolumes) ≠ p.vol := fun h =>
  hp (FsPtr.vol_injective (h.symm : p.vol = FsPtr.sd.vol))

/-- **What an operation with a path can do**: nothing, or it works on the volume of its
path. -/
theorem pathOp_cases {v : Volumes} (hv : Placed v) (path : Path) (mode : BitVec 8)
    (chdir : Bool) (io : PathIo) :
    pathOp v path mode chdir io = ([], v) ∨
      ∃ p, getLdnumber v path = some p.vol ∧ v.fatFs p.vol = some p ∧
        (∀ c ∈ (pathOp v path mode chdir io).1, c.pdrv = p.vol) ∧
        Confined p v (pathOp v path mode chdir io).2 ∧
        (pathOp v path mode chdir io).2.fatFs = v.fatFs ∧
        Placed (pathOp v path mode chdir io).2 := by
  unfold pathOp
  rcases findVolume_cases hv path mode (mountIo v path io) with ⟨hnone, hsame⟩ |
    ⟨p, hvol, hreg, hfound, hcalls, hconf, hfat, hpdrv, hplaced⟩
  · refine Or.inl ?_
    dsimp only
    split
    · rename_i hr
      simp [hr] at hnone
    · exact hsame
  · refine Or.inr ⟨p, hvol, hreg, ?_⟩
    dsimp only
    split
    · rename_i q hr
      obtain rfl : q = p := by simpa [hr] using hfound
      refine ⟨?_, ?_, ?_, ?_⟩
      · intro c hc
        rcases List.mem_append.mp hc with hc | hc
        · exact hcalls c hc
        · obtain ⟨x, -, rfl⟩ := List.mem_map.mp hc
          rw [Transfer.call_pdrv]
          exact hpdrv
      · cases chdir
        · exact hconf
        · exact ⟨hconf.fatFs, hconf.fatfs, hconf.status⟩
      · cases chdir <;> exact hfat
      · cases chdir
        · exact hplaced
        · exact ⟨hplaced.registered, hplaced.mounted⟩
    · exact ⟨hcalls, hconf, hfat, hplaced⟩

/-- The status of the card driver after an operation with a path. -/
theorem pathOp_status (v : Volumes) (path : Path) (mode : BitVec 8) (chdir : Bool)
    (io : PathIo) (hready : v.status 0 = 0#8) :
    (pathOp v path mode chdir io).2.status 0 = 0#8 := by
  have hfind : (findVolume v path mode (mountIo v path io)).2.2.status 0 = 0#8 := by
    rcases findVolume_status v path mode (mountIo v path io) with hsame | ⟨vol, hvol, hupd⟩
    · rw [hsame, hready]
    · rw [hupd]
      by_cases h0 : vol = 0
      · subst h0
        rw [Function.update_self]
        simp only [mountIo, hvol, Option.elim, diskInitialize, hready, mmcStatus_zero]
        rfl
      · rw [Function.update_of_ne (Ne.symm h0), hready]
  unfold pathOp
  dsimp only
  split
  · cases chdir <;> exact hfind
  · exact hfind

/-- Transfers through an open object are on the drive of a mounted volume. -/
theorem objectOp_calls {v : Volumes} (hv : Placed v) {obj : FfObjId} {transfers : List Transfer} :
    ∀ c ∈ objectOp v obj transfers, ∃ p, (v.fatfs p).fsType ≠ 0 ∧ c.pdrv = p.vol := by
  intro c hc
  unfold objectOp at hc
  split at hc
  · rename_i p hp
    split at hc
    · rename_i hvalid
      obtain ⟨q, hq, htype⟩ := validate_ok hvalid
      obtain rfl := Option.some.inj (hp.symm.trans hq)
      obtain ⟨x, -, rfl⟩ := List.mem_map.mp hc
      exact ⟨p, htype, by rw [Transfer.call_pdrv, (hv.mounted p htype).2]⟩
    · simp at hc
  · simp at hc

/-! ### The invariant -/

/-- The invariant: the objects are on their volumes, the flag is what `sd_detect` returned
last, nothing is registered for the card before it has been called, a card that is out is not
mounted and has not been used, and the drive of a registered card is initialized. -/
structure SlotInv (h : List (SlotEvent × SlotResult)) (s : Slot) : Prop where
  placed : Placed s.vols
  last : ∀ b, lastDetect h = some b → s.detected = b
  fresh : lastDetect h = none → s.vols.fatFs 0 = none
  removed : s.detected = false → (s.vols.fatfs .sd).fsType = 0
  ready : s.vols.fatFs 0 ≠ none → s.vols.status 0 = 0#8
  quiet : Quiet h

theorem slotInv_init : SlotInv [] Slot.init :=
  ⟨placed_init, by simp [lastDetect], fun _ => rfl, fun _ => rfl, fun h => absurd rfl h, trivial⟩

variable {h : List (SlotEvent × SlotResult)} {s : Slot}

/-- Anything but `sd_detect`. -/
theorem SlotInv.next (hinv : SlotInv h s) {e : SlotEvent} {w : Volumes} {calls : List DiskCall}
    (hplaced : Placed w) (hreg : w.fatFs 0 = s.vols.fatFs 0)
    (hremoved : s.detected = false → (w.fatfs .sd).fsType = 0)
    (hready : w.fatFs 0 ≠ none → w.status 0 = 0#8)
    (hcalls : s.detected = false → ∀ c ∈ calls, transfersMmc c = false) :
    SlotInv ((e, ⟨none, calls⟩) :: h) ⟨w, s.detected⟩ where
  placed := hplaced
  last := hinv.last
  fresh hlast := hreg.trans (hinv.fresh hlast)
  removed := hremoved
  ready := hready
  quiet := ⟨fun hlast => hcalls (hinv.last false hlast), hinv.quiet⟩

/-- An event that works on a USB volume. -/
theorem SlotInv.usb (hinv : SlotInv h s) {e : SlotEvent} {w : Volumes} {calls : List DiskCall}
    {p : FsPtr} (hp : p ≠ .sd) (hplaced : Placed w) (hconf : Confined p s.vols w)
    (hcalls : ∀ c ∈ calls, c.pdrv = p.vol) :
    SlotInv ((e, ⟨none, calls⟩) :: h) ⟨w, s.detected⟩ := by
  have hne : (0 : Fin ffVolumes) ≠ p.vol := usb_vol_ne hp
  refine hinv.next hplaced (hconf.fatFs 0 hne) ?_ ?_ fun _ c hc =>
    transfersMmc_eq_false hp (hcalls c hc)
  · rw [hconf.fatfs .sd hp.symm]
    exact hinv.removed
  · rw [hconf.fatFs 0 hne, hconf.status 0 hne]
    exact hinv.ready

theorem slotInv_pathOp (hinv : SlotInv h s) {path : Path} {mode : BitVec 8} {chdir : Bool}
    {io : PathIo} (hok : CardUnused s (.pathOp path mode chdir io)) :
    SlotInv ((.pathOp path mode chdir io, ⟨none, (pathOp s.vols path mode chdir io).1⟩) :: h)
      ⟨(pathOp s.vols path mode chdir io).2, s.detected⟩ := by
  rcases pathOp_cases hinv.placed path mode chdir io with hnone |
    ⟨p, hvol, hreg, hcalls, hconf, hfat, hplaced⟩
  · rw [hnone]
    exact hinv.next hinv.placed rfl hinv.removed hinv.ready (by simp)
  · by_cases hp : p = .sd
    · subst hp
      -- the path is on the card, so the card is in
      have hin : s.detected ≠ false := fun hout => by
        have hnull := hok hout hvol
        rw [show s.vols.fatFs 0 = some .sd from hreg] at hnull
        simp at hnull
      have hready : s.vols.status 0 = 0#8 :=
        hinv.ready (by rw [show s.vols.fatFs 0 = some .sd from hreg]; simp)
      exact hinv.next hplaced (congrFun hfat 0) (fun hout => absurd hout hin)
        (fun _ => pathOp_status s.vols path mode chdir io hready) fun hout => absurd hout hin
    · exact hinv.usb hp hplaced hconf hcalls

theorem slotInv_objectOp (hinv : SlotInv h s) (obj : FfObjId) (transfers : List Transfer) :
    SlotInv ((.objectOp obj transfers, ⟨none, objectOp s.vols obj transfers⟩) :: h) s := by
  refine hinv.next hinv.placed rfl hinv.removed hinv.ready fun hout c hc => ?_
  obtain ⟨p, htype, hpdrv⟩ := objectOp_calls hinv.placed c hc
  refine transfersMmc_eq_false (p := p) ?_ hpdrv
  rintro rfl
  exact htype (hinv.removed hout)

theorem slotInv_fsInit (hinv : SlotInv h s) (hout : s.detected = false) {pin mmcInit : Bool} :
    SlotInv ((.sdDetect pin mmcInit, ⟨some ((fsInit s.vols mmcInit).1 == 0#8),
        (fsInit s.vols mmcInit).2.1⟩) :: h)
      ⟨(fsInit s.vols mmcInit).2.2, (fsInit s.vols mmcInit).1 == 0#8⟩ := by
  have hplaced : Placed { s.vols with
      status := Function.update s.vols.status 0 (mmcStatus (s.vols.status 0) 0 mmcInit) } :=
    ⟨hinv.placed.registered, hinv.placed.mounted⟩
  unfold fsInit
  dsimp only
  split
  · -- the drive is not ready, so no card was registered before either
    rename_i hst
    have hfalse : (mmcStatus (s.vols.status 0) 0 mmcInit == 0#8) = false :=
      beq_eq_false_iff_ne.mpr hst
    refine ⟨hplaced, by simp [lastDetect], by simp [lastDetect], fun _ => hinv.removed hout,
      fun hreg => ?_, by simp [transfersMmc], hinv.quiet⟩
    rw [hinv.ready hreg, mmcStatus_zero] at hst
    exact absurd rfl hst
  · -- the card is registered
    rename_i hst
    obtain ⟨hcalls, -, -, hstatus⟩ := fMount_delayed hplaced .sd noMountIo
    refine ⟨(fMount_confined hplaced .sd (Or.inr rfl) false noMountIo).1, by simp [lastDetect],
      by simp [lastDetect], by simp, fun _ => ?_, ?_, hinv.quiet⟩
    · show (fMount _ (some .sd) FsPtr.sd.path false noMountIo).2.2.status 0 = 0#8
      rw [hstatus]
      show Function.update s.vols.status 0 _ 0 = 0#8
      rw [Function.update_self]
      exact not_not.mp hst
    · rw [hcalls]
      simp [transfersMmc]

theorem slotInv_sdDetect (hinv : SlotInv h s) {pin mmcInit : Bool}
    (hok : CardUnused s (.sdDetect pin mmcInit)) :
    SlotInv ((.sdDetect pin mmcInit, (sdDetect s pin mmcInit).1) :: h)
      (sdDetect s pin mmcInit).2 := by
  unfold sdDetect
  split
  · rename_i hin
    rw [Bool.and_eq_true, Bool.not_eq_true'] at hin
    exact slotInv_fsInit hinv hin.1
  · split
    · rename_i hout
      rw [Bool.and_eq_true] at hout
      rw [fsDeinit_eq]
      exact ⟨hinv.placed, by simp [lastDetect], by simp [lastDetect],
        fun _ => hok hout.1 hout.2, hinv.ready, by simp, hinv.quiet⟩
    · exact ⟨hinv.placed, by simp [lastDetect], by simp [lastDetect], hinv.removed, hinv.ready,
        by simp, hinv.quiet⟩

/-- **Every event keeps the invariant.** -/
theorem slotInv_step (hinv : SlotInv h s) {e : SlotEvent} (hok : CardUnused s e) :
    SlotInv ((e, (slotStep s e).1) :: h) (slotStep s e).2 := by
  cases e with
  | sdDetect pin mmcInit => exact slotInv_sdDetect hinv hok
  | pathOp path mode chdir io => exact slotInv_pathOp hinv hok
  | objectOp obj transfers => exact slotInv_objectOp hinv obj transfers
  | usbMount i io =>
    obtain ⟨hplaced, hconf, hcalls⟩ :=
      fMount_confined hinv.placed (.usb i) (Or.inr rfl) true (mountIo s.vols (FsPtr.usb i).path io)
    exact hinv.usb (by simp) hplaced hconf hcalls
  | usbUnmount i =>
    obtain ⟨hplaced, hconf, hcalls⟩ :=
      fMount_confined hinv.placed (.usb i) (Or.inl rfl) false noMountIo
    exact hinv.usb (by simp) hplaced hconf hcalls
  | usbStatus i status =>
    refine hinv.usb (p := .usb i) (by simp)
      ⟨hinv.placed.registered, hinv.placed.mounted⟩ ?_ (by simp)
    exact ⟨fun _ _ => rfl, fun _ _ => rfl, fun _ hne => Function.update_of_ne hne _ _⟩

/-! ### Every run -/

theorem slotInv_of_cardUnused (hr : Reach (fnStep slotStep) CardUnused Slot.init h s) :
    SlotInv h s := by
  refine hr.fnInvariant SlotInv slotInv_init ?_
  intro h s e hinv hok
  exact slotInv_step hinv hok

/-- **A removed card is left alone** along every run that takes the card out before it has
been mounted and then keeps off its volume. -/
theorem slotOk_of_cardUnused (hr : Reach (fnStep slotStep) CardUnused Slot.init h s) :
    SlotOk h s := by
  have hinv := slotInv_of_cardUnused hr
  refine ⟨fun hlast p hp => ?_, hinv.quiet⟩
  obtain rfl : p = .sd := FsPtr.vol_injective (hinv.placed.registered 0 p hp).symm
  exact hinv.removed (hinv.last false hlast)

/-- A card with a FAT volume, and a read from it. -/
def readGood : PathIo := ⟨true, 0#8, .fat32, [.read]⟩

/-- A file on the card. -/
def cardFile : Path := some ['/', 's', 'd', '/', 'a']

/-- A file on a USB drive. -/
def usbFile : Path := some ['/', 'u', 's', 'b', '0', '/', 'a']

/-- The card is taken out before anything was read from it, and a USB drive is used. -/
theorem slotOk_of_cardUnused_usb :
    let r := runFn slotStep [] Slot.init [.sdDetect false true, .sdDetect true true,
      .usbMount 0 readGood, .pathOp usbFile faRead false readGood]
    SlotOk r.1 r.2 ∧ lastDetect r.1 = some false ∧ r.2.vols.fatFs 0 = some .sd := by
  intro r
  have hpath : CardUnused (runFn slotStep [] Slot.init [.sdDetect false true, .sdDetect true true,
      .usbMount 0 readGood]).2 (.pathOp usbFile faRead false readGood) :=
    fun _ hvol => absurd hvol (by decide)
  have hreach : Reach (fnStep slotStep) CardUnused Slot.init r.1 r.2 :=
    reach_runFn ⟨fun _ hpin => absurd hpin (by decide), fun _ _ => rfl, trivial, hpath, trivial⟩
  exact ⟨slotOk_of_cardUnused hreach, by decide, by decide⟩

/-- **A card that is gone is still read.** A file on it is opened, the card is taken out, and
`sd_detect` returns `0`: the volume is still mounted, and the descriptor and the path still
lead to `mmc_disk_read`. -/
theorem not_slotOk_unmountNull :
    let r := runFn slotStep [] Slot.init [.sdDetect false true, .pathOp cardFile faRead false readGood,
      .sdDetect true true]
    Reach (fnStep slotStep) Always Slot.init r.1 r.2 ∧ lastDetect r.1 = some false ∧
      r.2.vols.fatFs 0 = some .sd ∧ (r.2.vols.fatfs .sd).fsType = 3 ∧
      (slotStep r.2 (.objectOp ⟨some .sd, 1#16, 5#32, 100#32⟩ [.read])).1.calls = [.diskRead 0] ∧
      (slotStep r.2 (.pathOp cardFile faRead false readGood)).1.calls =
        [.diskStatus 0, .diskRead 0] ∧
      ¬SlotOk r.1 r.2 := by
  intro r
  refine ⟨reach_runFn okAlong_always, by decide, by decide, by decide, by decide, by decide,
    fun hok => ?_⟩
  have htype := hok.unregistered (by decide) .sd (by decide)
  exact absurd htype (by decide)

/-! ### The condition is exact -/

/-- A path on the card mounts it and reads its boot sectors, if the volume is registered, not
mounted, and its drive initialized. -/
theorem diskRead_mem_pathOp {v : Volumes} {path : Path} (hpath : getLdnumber v path = some 0)
    (hreg : v.fatFs 0 = some .sd) (htype : (v.fatfs .sd).fsType = 0) (hready : v.status 0 = 0#8)
    (mode : BitVec 8) (chdir : Bool) (io : PathIo) :
    .diskRead 0 ∈ (pathOp v path mode chdir io).1 := by
  have hinit : (mountIo v path io).init = 0#8 := by
    simp only [mountIo, hpath, Option.elim, diskInitialize, hready, mmcStatus_zero]
    rfl
  have hfind : .diskRead 0 ∈ (findVolume v path mode (mountIo v path io)).2.1 := by
    have hnoinit : has (0#8 : DStatus) staNoinit = false := by decide
    have hprotect : has (0#8 : DStatus) staProtect = false := by decide
    simp only [findVolume, hpath, hreg, htype, mountVolume, hinit, hnoinit, hprotect]
    cases (mountIo v path io).check <;> simp
  unfold pathOp
  dsimp only
  split
  · exact List.mem_append_left _ hfind
  · exact hfind

/-- **The first step that uses the card in the wrong place breaks what a removed card
means.** -/
theorem not_slotOk_of_cardUsed (hr : Reach (fnStep slotStep) CardUnused Slot.init h s)
    {e : SlotEvent} (hused : ¬CardUnused s e) :
    ¬SlotOk ((e, (slotStep s e).1) :: h) (slotStep s e).2 := by
  have hinv := slotInv_of_cardUnused hr
  intro hok
  cases e with
  | sdDetect pin mmcInit =>
    simp only [CardUnused, Classical.not_imp] at hused
    obtain ⟨hin, rfl, htype⟩ := hused
    have hstep : slotStep s (.sdDetect true mmcInit) = (⟨some false, []⟩, ⟨s.vols, false⟩) := by
      simp [slotStep, sdDetect, hin, fsDeinit_eq]
    rw [hstep] at hok
    exact htype (hok.unregistered rfl .sd (hinv.placed.mounted .sd htype).1)
  | pathOp path mode chdir io =>
    simp only [CardUnused, Classical.not_imp] at hused
    obtain ⟨hout, hpath, hreg⟩ := hused
    have hsd : s.vols.fatFs 0 = some .sd := by
      obtain ⟨p, hp⟩ := Option.ne_none_iff_exists'.mp hreg
      rw [hp, FsPtr.vol_injective (q := .sd) (hinv.placed.registered 0 p hp).symm]
    have hlast : lastDetect h = some false := by
      rcases hlast : lastDetect h with - | b
      · exact absurd (hinv.fresh hlast) hreg
      · rw [← hinv.last b hlast, hout]
    have hread := diskRead_mem_pathOp hpath hsd (hinv.removed hout) (hinv.ready hreg) mode chdir io
    exact absurd (hok.quiet.1 hlast _ hread) (by decide)
  | objectOp obj transfers => exact hused trivial
  | usbMount i io => exact hused trivial
  | usbUnmount i => exact hused trivial
  | usbStatus i status => exact hused trivial

end Sd

end BareMetal
