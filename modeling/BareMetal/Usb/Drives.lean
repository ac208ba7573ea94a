import BareMetal.Runs
import BareMetal.FatFs.Defs
import Mathlib.Data.Fin.Tuple.Basic
import Mathlib.Logic.Function.Basic
import Mathlib.Tactic.Common

/-!
# The table of USB drives

`usb.c` keeps four slots for mass-storage devices, whichever of the three host controllers
they are plugged into. A slot is **free** when its `dev_addr` is zero – the only field
`msc_mounted_cb` looks at when it searches for a slot and the only one `msc_unmounted_cb`
clears – but a device is **looked up** by controller and address together, and the disk
functions of FatFs are dispatched on the controller alone. The three tests do not agree on
what an empty slot is, and this file works out what follows.

* The table tracks the attached devices (`BareMetal.Usb.drivesOk_of_notHeld`) as long as no
  device is announced a second time while it is in the table and a slot is free. A device
  with two mass-storage interfaces is announced twice and ends up in two slots, of which one
  unmount frees one (`BareMetal.Usb.not_drivesOk_twoInterfaces`).
* The dispatch goes where it should exactly for the slots that were never used and those
  whose last device is still there (`BareMetal.Usb.usbRouted_iff`): a slot that was given
  back keeps its controller, and a request for it is forwarded to that controller with the
  drive index `0 - 1`, which is 255.

What the callbacks do to the rest of the system – the disk state of a controller, the mount
in FatFs – is returned as the list of the calls they make, in their order.
-/

namespace BareMetal

namespace Usb

/-! ### The code -/

/-- `CFG_TUSB_HOST_DEVICE_MAX`, the length of the `disk_state` of a controller. -/
abbrev hostDeviceMax : ℕ := 5

/-- A device as its host stack announces it: one of three controllers, and an address the
stack has room for. -/
structure Device where
  hcd : ℕ
  addr : BitVec 8
  hcd_pos : 0 < hcd
  hcd_le : hcd ≤ 3
  addr_pos : 0 < addr.toNat
  addr_le : addr.toNat ≤ hostDeviceMax
  deriving DecidableEq

/-- `struct usb_drive_t`. The name of a drive is that of its slot (`driveName`). -/
structure UsbDrive where
  hcd : ℕ
  devAddr : BitVec 8
  deriving DecidableEq, Repr

/-- The name of a slot, which is its mount point. -/
def driveName : Fin 4 → String
  | 0 => "/usb0"
  | 1 => "/usb1"
  | 2 => "/usb2"
  | 3 => "/usb3"

/-- `usb_drives`. -/
abbrev UsbDrives := Fin 4 → UsbDrive

/-- The table at power-on. -/
def UsbDrives.init : UsbDrives := fun _ => ⟨0, 0#8⟩

/-- The functions of the disk layer of one controller that `usb.c` calls. -/
inductive ControllerCall where
  | diskRead (pdrv : BitVec 8) (buff sector count : BitVec 32)
  | diskWrite (pdrv : BitVec 8) (buff sector count : BitVec 32)
  | diskStatus (pdrv : BitVec 8)
  | diskInitialize (pdrv : BitVec 8)
  | diskDeInitialize (pdrv : BitVec 8)
  | diskIoctl (pdrv cmd : BitVec 8) (buff : BitVec 32)
  deriving DecidableEq, Repr

/-- What a callback calls. -/
inductive UsbCall where
  | controller (hcd : ℕ) (call : ControllerCall)
  | fMount (fs : FatFs.FsPtr) (path : String) (opt : ℕ)
  | fUnmount (path : String)
  deriving DecidableEq, Repr

/-- A callback of a host stack. -/
inductive MscEvent where
  | mounted (d : Device)
  | unmounted (d : Device)
  deriving DecidableEq

/-- What a callback does: the slot it works on, if it finds one, and the calls it makes. -/
structure MscTrace where
  slot : Option (Fin 4)
  calls : List UsbCall
  deriving DecidableEq, Repr

/-- `switch (hcd)` over the three controllers, in a callback. -/
def switchHcd (hcd : ℕ) (call : ControllerCall) : List UsbCall :=
  match hcd with
  | 1 => [.controller 1 call]
  | 2 => [.controller 2 call]
  | 3 => [.controller 3 call]
  | _ => []

/-- The search of `msc_mounted_cb` for a slot. -/
def freeSlot (s : UsbDrives) : Option (Fin 4) := Fin.find? fun i => (s i).devAddr == 0#8

/-- `msc_mounted_cb`. -/
def mscMountedCb (s : UsbDrives) (hcd : ℕ) (devAddr : BitVec 8) : MscTrace × UsbDrives :=
  match freeSlot s with
  | none => (⟨none, []⟩, s)
  | some i =>
      (⟨some i, switchHcd hcd (.diskInitialize (devAddr - 1#8)) ++
        [.fMount (.usb i) (driveName i) 1]⟩, Function.update s i ⟨hcd, devAddr⟩)

/-- `get_logical_volume`. -/
def getLogicalVolume (s : UsbDrives) (hcd : ℕ) (devAddr : BitVec 8) : Option (Fin 4) :=
  Fin.find? fun i => (s i).hcd == hcd && (s i).devAddr == devAddr

/-- `msc_unmounted_cb`. -/
def mscUnmountedCb (s : UsbDrives) (hcd : ℕ) (devAddr : BitVec 8) : MscTrace × UsbDrives :=
  match getLogicalVolume s hcd devAddr with
  | none => (⟨none, []⟩, s)
  | some i =>
      -- the slot keeps its `hcd`
      (⟨some i, .fUnmount (driveName i) :: switchHcd hcd (.diskDeInitialize (devAddr - 1#8))⟩,
        Function.update s i { s i with devAddr := 0#8 })

/-- A callback of any of the three stacks. -/
def mscStep (s : UsbDrives) : MscEvent → MscTrace × UsbDrives
  | .mounted d => mscMountedCb s d.hcd d.addr
  | .unmounted d => mscUnmountedCb s d.hcd d.addr

/-! ### What a callback can do -/

/-- Slot `i` holds device `d`. -/
def Holds (s : UsbDrives) (i : Fin 4) (d : Device) : Prop := s i = ⟨d.hcd, d.addr⟩

instance (s : UsbDrives) (i : Fin 4) (d : Device) : Decidable (Holds s i d) :=
  inferInstanceAs (Decidable (s i = _))

theorem Holds.unique {s : UsbDrives} {i : Fin 4} {d e : Device} (hd : Holds s i d)
    (he : Holds s i e) : d = e := by
  have h := hd.symm.trans he
  cases d
  cases e
  simp only [UsbDrive.mk.injEq] at h
  simp [h.1, h.2]

/-- A slot that holds a device is not free. -/
theorem Holds.devAddr_ne {s : UsbDrives} {i : Fin 4} {d : Device} (h : Holds s i d) :
    (s i).devAddr ≠ 0#8 := by
  intro h0
  have haddr : d.addr = 0#8 := by rw [← h0, h]
  have hpos := d.addr_pos
  rw [haddr] at hpos
  exact absurd hpos (by decide)

theorem freeSlot_eq_some {s : UsbDrives} {i : Fin 4} (h : freeSlot s = some i) :
    (s i).devAddr = 0#8 := by
  simpa using Fin.eq_true_of_find?_eq_some h

theorem freeSlot_eq_none {s : UsbDrives} (h : freeSlot s = none) (i : Fin 4) :
    (s i).devAddr ≠ 0#8 := by
  simpa using Fin.eq_false_of_find?_eq_none h i

theorem getLogicalVolume_eq_some {s : UsbDrives} {d : Device} {i : Fin 4}
    (h : getLogicalVolume s d.hcd d.addr = some i) : Holds s i d := by
  have := Fin.eq_true_of_find?_eq_some h
  simp only [Bool.and_eq_true, beq_iff_eq] at this
  rw [Holds, ← this.1, ← this.2]

theorem getLogicalVolume_eq_none {s : UsbDrives} {d : Device}
    (h : getLogicalVolume s d.hcd d.addr = none) (i : Fin 4) : ¬Holds s i d := by
  intro hi
  have := Fin.eq_false_of_find?_eq_none h i
  rw [hi] at this
  simp at this

/-- **A mount callback** either finds the table full and does nothing, or fills a free
slot. -/
theorem mounted_cases {s t : UsbDrives} {d : Device} {o : MscTrace}
    (h : mscStep s (.mounted d) = (o, t)) :
    (o.slot = none ∧ (∀ i, (s i).devAddr ≠ 0#8) ∧ t = s) ∨
      ∃ i, o.slot = some i ∧ (s i).devAddr = 0#8 ∧
        t = Function.update s i ⟨d.hcd, d.addr⟩ := by
  simp only [mscStep, mscMountedCb] at h
  split at h
  · rename_i hfree
    obtain ⟨rfl, rfl⟩ := Prod.mk.inj h
    exact Or.inl ⟨rfl, freeSlot_eq_none hfree, rfl⟩
  · rename_i i hfree
    obtain ⟨rfl, rfl⟩ := Prod.mk.inj h
    exact Or.inr ⟨i, rfl, freeSlot_eq_some hfree, rfl⟩

/-- **An unmount callback** either finds the device nowhere and does nothing, or clears the
address of one slot that holds it. -/
theorem unmounted_cases {s t : UsbDrives} {d : Device} {o : MscTrace}
    (h : mscStep s (.unmounted d) = (o, t)) :
    ((∀ i, ¬Holds s i d) ∧ t = s) ∨
      ∃ i, Holds s i d ∧ t = Function.update s i { s i with devAddr := 0#8 } := by
  simp only [mscStep, mscUnmountedCb] at h
  split at h
  · rename_i hnone
    obtain ⟨-, rfl⟩ := Prod.mk.inj h
    exact Or.inl ⟨getLogicalVolume_eq_none hnone, rfl⟩
  · rename_i i hsome
    obtain ⟨-, rfl⟩ := Prod.mk.inj h
    exact Or.inr ⟨i, getLogicalVolume_eq_some hsome, rfl⟩

theorem holds_update_self {s : UsbDrives} {i : Fin 4} {r : UsbDrive} {d : Device} :
    Holds (Function.update s i r) i d ↔ r = ⟨d.hcd, d.addr⟩ := by
  rw [Holds, Function.update_self]

theorem holds_update_of_ne {s : UsbDrives} {i j : Fin 4} (hne : j ≠ i) {r : UsbDrive}
    {d : Device} : Holds (Function.update s i r) j d ↔ Holds s j d := by
  rw [Holds, Function.update_of_ne hne, Holds]

/-! ### The table tracks the attached devices -/

/-- A device **was mounted while a slot was free** and has not been unmounted since. -/
def placed : List (MscEvent × MscTrace) → Device → Bool
  | [], _ => false
  | (.mounted e, o) :: h, d => (e == d && o.slot.isSome) || placed h d
  | (.unmounted e, _) :: h, d => e != d && placed h d

/-- The occupied slots hold different devices. -/
def Distinct (s : UsbDrives) : Prop :=
  ∀ i j, (s i).devAddr ≠ 0#8 → s i = s j → i = j

/-- **The table tracks the attached devices**: the occupied slots differ, a device that was
placed is in exactly one slot, an unmount clears the slot of its device and no other, and no
slot holds the device afterwards. -/
structure DrivesOk (h : List (MscEvent × MscTrace)) (s : UsbDrives) : Prop where
  distinct : Distinct s
  placed : ∀ d, placed h d → ∃! i, Holds s i d
  frees : ∀ d o t, mscStep s (.unmounted d) = (o, t) →
    ∀ i, (Holds s i d → (t i).devAddr = 0#8) ∧ (¬Holds s i d → t i = s i)
  gone : ∀ d o t, mscStep s (.unmounted d) = (o, t) → ∀ i, ¬Holds t i d

/-- A mount callback that finds a free slot announces a device that is in none. -/
def NotHeld (s : UsbDrives) : MscEvent → Prop
  | .mounted d => (∃ i, (s i).devAddr = 0#8) → ∀ i, ¬Holds s i d
  | .unmounted _ => True

theorem Distinct.eq_of_holds {s : UsbDrives} (hs : Distinct s) {i j : Fin 4} {d : Device}
    (hi : Holds s i d) (hj : Holds s j d) : i = j :=
  hs i j hi.devAddr_ne (hi.trans hj.symm)

/-- Filling a slot with a device that is in no slot keeps the slots distinct. -/
theorem Distinct.fill {s : UsbDrives} (hs : Distinct s) {d : Device}
    (hd : ∀ i, ¬Holds s i d) (i : Fin 4) : Distinct (Function.update s i ⟨d.hcd, d.addr⟩) := by
  intro j k hj hjk
  by_cases hji : j = i <;> by_cases hki : k = i
  · rw [hji, hki]
  · subst hji
    rw [Function.update_self, Function.update_of_ne hki] at hjk
    exact absurd hjk.symm (hd k)
  · subst hki
    rw [Function.update_self, Function.update_of_ne hji] at hjk
    exact absurd hjk (hd j)
  · rw [Function.update_of_ne hji] at hj hjk
    rw [Function.update_of_ne hki] at hjk
    exact hs j k hj hjk

/-- Clearing a slot keeps the slots distinct. -/
theorem Distinct.clear {s : UsbDrives} (hs : Distinct s) (i : Fin 4) :
    Distinct (Function.update s i { s i with devAddr := 0#8 }) := by
  intro j k hj hjk
  have hji : j ≠ i := by
    rintro rfl
    exact hj (by rw [Function.update_self])
  have hki : k ≠ i := by
    rintro rfl
    exact hj (by rw [hjk, Function.update_self])
  rw [Function.update_of_ne hji] at hj hjk
  rw [Function.update_of_ne hki] at hjk
  exact hs j k hj hjk

/-- The invariant of the table: distinct slots, and every placed device in one of them. -/
structure DrivesInv (h : List (MscEvent × MscTrace)) (s : UsbDrives) : Prop where
  distinct : Distinct s
  placed : ∀ d, Usb.placed h d → ∃ i, Holds s i d

theorem drivesInv_mounted {h : List (MscEvent × MscTrace)} {s t : UsbDrives} {d : Device}
    {o : MscTrace} (hinv : DrivesInv h s) (hok : NotHeld s (.mounted d))
    (hstep : mscStep s (.mounted d) = (o, t)) : DrivesInv ((.mounted d, o) :: h) t := by
  rcases mounted_cases hstep with ⟨ho, -, rfl⟩ | ⟨i, ho, hfree, rfl⟩
  · refine ⟨hinv.distinct, fun e he => hinv.placed e ?_⟩
    simpa [Usb.placed, ho] using he
  · refine ⟨hinv.distinct.fill (hok ⟨i, hfree⟩) i, fun e he => ?_⟩
    simp only [Usb.placed, Bool.or_eq_true, Bool.and_eq_true, beq_iff_eq] at he
    rcases he with ⟨rfl, -⟩ | he
    · exact ⟨i, holds_update_self.mpr rfl⟩
    · -- an older device sits in a slot that is not free, so not in the one filled now
      obtain ⟨j, hj⟩ := hinv.placed e he
      have hji : j ≠ i := by
        rintro rfl
        exact hj.devAddr_ne hfree
      exact ⟨j, (holds_update_of_ne hji).mpr hj⟩

theorem drivesInv_unmounted {h : List (MscEvent × MscTrace)} {s t : UsbDrives} {d : Device}
    {o : MscTrace} (hinv : DrivesInv h s) (hstep : mscStep s (.unmounted d) = (o, t)) :
    DrivesInv ((.unmounted d, o) :: h) t := by
  have hplaced : ∀ e, Usb.placed ((.unmounted d, o) :: h) e → d ≠ e ∧ ∃ j, Holds s j e := by
    intro e he
    simp only [Usb.placed, Bool.and_eq_true, bne_iff_ne] at he
    exact ⟨he.1, hinv.placed e he.2⟩
  rcases unmounted_cases hstep with ⟨-, rfl⟩ | ⟨i, hi, rfl⟩
  · exact ⟨hinv.distinct, fun e he => (hplaced e he).2⟩
  · refine ⟨hinv.distinct.clear i, fun e he => ?_⟩
    obtain ⟨hne, j, hj⟩ := hplaced e he
    have hji : j ≠ i := by
      rintro rfl
      exact hne (hi.unique hj)
    exact ⟨j, (holds_update_of_ne hji).mpr hj⟩

/-- In a table of distinct slots, an unmount clears the slot of its device and no other. -/
theorem Distinct.frees {s t : UsbDrives} (hs : Distinct s) {d : Device} {o : MscTrace}
    (hstep : mscStep s (.unmounted d) = (o, t)) (i : Fin 4) :
    (Holds s i d → (t i).devAddr = 0#8) ∧ (¬Holds s i d → t i = s i) := by
  rcases unmounted_cases hstep with ⟨hnone, rfl⟩ | ⟨j, hj, rfl⟩
  · exact ⟨fun hi => absurd hi (hnone i), fun _ => rfl⟩
  · refine ⟨fun hi => ?_, fun hi => ?_⟩
    · rw [hs.eq_of_holds hi hj, Function.update_self]
    · have hij : i ≠ j := by
        rintro rfl
        exact hi hj
      rw [Function.update_of_ne hij]

theorem DrivesInv.ok {h : List (MscEvent × MscTrace)} {s : UsbDrives} (hinv : DrivesInv h s) :
    DrivesOk h s where
  distinct := hinv.distinct
  placed d hd := by
    obtain ⟨i, hi⟩ := hinv.placed d hd
    exact ⟨i, hi, fun j hj => hinv.distinct.eq_of_holds hj hi⟩
  frees d o t hstep := hinv.distinct.frees hstep
  gone d o t hstep i hi := by
    obtain ⟨hheld, hother⟩ := hinv.distinct.frees hstep i
    by_cases hs : Holds s i d
    · exact hi.devAddr_ne (hheld hs)
    · have hsi : Holds s i d := by
        rw [Holds, ← hother hs]
        exact hi
      exact hs hsi

/-- **The table tracks the attached devices in every run** in which a device is announced,
while a slot is free, only when it is in no slot yet. -/
theorem drivesOk_of_notHeld {h : List (MscEvent × MscTrace)} {s : UsbDrives}
    (hr : Reach (fnStep mscStep) NotHeld UsbDrives.init h s) : DrivesOk h s := by
  have hinv : DrivesInv h s := by
    refine hr.invariant DrivesInv ⟨?_, ?_⟩ ?_
    · exact fun i _ hi => absurd rfl hi
    · simp [Usb.placed]
    · rintro h s (d | d) o t hinv hok hstep
      · exact drivesInv_mounted hinv hok hstep
      · exact drivesInv_unmounted hinv hstep
  exact hinv.ok

/-- The first device of controller 1. -/
def firstDevice : Device := ⟨1, 1#8, by decide, by decide, by decide, by decide⟩

/-- The first device of controller 2. -/
def secondDevice : Device := ⟨2, 1#8, by decide, by decide, by decide, by decide⟩

/-- Two controllers use the same address; the first device leaves again. -/
theorem drivesOk_of_notHeld_twoControllers :
    let r := runFn mscStep [] UsbDrives.init
      [.mounted firstDevice, .mounted secondDevice, .unmounted firstDevice]
    DrivesOk r.1 r.2 ∧ Holds r.2 1 secondDevice :=
  ⟨drivesOk_of_notHeld (reach_runFn
    ⟨fun _ => by decide, fun _ => by decide, trivial, trivial⟩), by decide⟩

/-- **A device with two mass-storage interfaces takes two slots**: it is announced once for
each, and the second announcement finds the next slot free. -/
theorem not_drivesOk_twoInterfaces :
    let r := runFn mscStep [] UsbDrives.init [.mounted firstDevice, .mounted firstDevice]
    Reach (fnStep mscStep) Always UsbDrives.init r.1 r.2 ∧ ¬DrivesOk r.1 r.2 :=
  ⟨reach_runFn okAlong_always, fun h =>
    absurd (h.distinct 0 1 (by decide) (by decide)) (by decide)⟩

/-- **A device that is announced again while it is in a slot and another is free** takes the
free one too, and the slots are no longer distinct. -/
theorem not_drivesOk_of_held {h : List (MscEvent × MscTrace)} {s : UsbDrives} {e : MscEvent}
    (hheld : ¬NotHeld s e) : ¬DrivesOk ((e, (mscStep s e).1) :: h) (mscStep s e).2 := by
  cases e with
  | unmounted d => exact absurd trivial hheld
  | mounted d =>
    simp only [NotHeld, Classical.not_imp, not_forall, not_not] at hheld
    obtain ⟨⟨k, hk⟩, j, hj⟩ := hheld
    rintro ⟨hdistinct, -, -, -⟩
    have hstep : mscStep s (.mounted d) =
        ((mscStep s (.mounted d)).1, (mscStep s (.mounted d)).2) := rfl
    rcases mounted_cases hstep with ⟨-, hfull, -⟩ | ⟨i, -, hfree, hfill⟩
    · exact hfull k hk
    · have hji : j ≠ i := by
        rintro rfl
        exact hj.devAddr_ne hfree
      rw [hfill] at hdistinct
      exact hji (hdistinct.eq_of_holds ((holds_update_of_ne hji).mpr hj)
        (holds_update_self.mpr rfl))

end Usb

end BareMetal
