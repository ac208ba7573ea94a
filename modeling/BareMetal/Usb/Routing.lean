import BareMetal.Usb.Drives

/-!
# Dispatching the disk functions of a USB volume

FatFs numbers the USB volumes 2 to 5. The five disk functions `fs.c` dispatches to for them
have one shape (`BareMetal.Usb.onDrive`): take the slot `pdrv - 2`, switch on its controller,
and forward with the drive index `dev_addr - 1`, an 8-bit number; a slot whose controller is
none of the three is not ready.

Which device is *mounted* in a slot is a matter of history (`BareMetal.Usb.mountedIn`): the
last one that was placed there, unless its unmount has been announced since. The main result
`BareMetal.Usb.usbRouted_iff` compares the two in every state that any sequence of callbacks
can reach.
-/

namespace BareMetal

namespace Usb

open FatFs (DResult DStatus staNoinit)

/-! ### The code -/

/-- How a disk function ends: in a call of a controller's disk layer, whose result it
returns, or in a result of its own. -/
inductive Answer (ρ : Type) where
  | called (hcd : ℕ) (call : ControllerCall)
  | returned (r : ρ)
  deriving DecidableEq

/-- `&usb_drives[pdrv - 2]`, where that is a slot of the table. -/
def drive (s : UsbDrives) (pdrv : BitVec 8) : Option UsbDrive :=
  if h : 2 ≤ pdrv.toNat ∧ pdrv.toNat - 2 < 4 then some (s ⟨pdrv.toNat - 2, h.2⟩) else none

/-- The common shape of the disk functions: `switch (dr->hcd)`. The result is `none` for a
`pdrv` outside the table, where the C code has no meaning. -/
def onDrive {ρ : Type} (s : UsbDrives) (pdrv : BitVec 8) (call : BitVec 8 → ControllerCall)
    (notReady : ρ) : Option (Answer ρ) :=
  (drive s pdrv).map fun dr =>
    match dr.hcd with
    | 1 => .called 1 (call (dr.devAddr - 1#8))
    | 2 => .called 2 (call (dr.devAddr - 1#8))
    | 3 => .called 3 (call (dr.devAddr - 1#8))
    | _ => .returned notReady

/-- `usb_disk_read`. -/
def usbDiskRead (s : UsbDrives) (pdrv : BitVec 8) (buff sector count : BitVec 32) :
    Option (Answer DResult) :=
  onDrive s pdrv (.diskRead · buff sector count) .notrdy

/-- `usb_disk_write`. -/
def usbDiskWrite (s : UsbDrives) (pdrv : BitVec 8) (buff sector count : BitVec 32) :
    Option (Answer DResult) :=
  onDrive s pdrv (.diskWrite · buff sector count) .notrdy

/-- `usb_disk_status`. -/
def usbDiskStatus (s : UsbDrives) (pdrv : BitVec 8) : Option (Answer DStatus) :=
  onDrive s pdrv .diskStatus staNoinit

/-- `usb_disk_initialize`. -/
def usbDiskInitialize (s : UsbDrives) (pdrv : BitVec 8) : Option (Answer DStatus) :=
  onDrive s pdrv .diskInitialize staNoinit

/-- `usb_disk_ioctl`. -/
def usbDiskIoctl (s : UsbDrives) (pdrv cmd : BitVec 8) (buff : BitVec 32) :
    Option (Answer DResult) :=
  onDrive s pdrv (.diskIoctl · cmd buff) .notrdy

/-! ### The device mounted in a slot -/

/-- **The device mounted in a slot** after a history of callbacks: the last one placed
there, unless its unmount was announced since. -/
def mountedIn : List (MscEvent × MscTrace) → Fin 4 → Option Device
  | [], _ => none
  | (.mounted d, o) :: h, i => if o.slot = some i then some d else mountedIn h i
  | (.unmounted d, _) :: h, i => if mountedIn h i = some d then none else mountedIn h i

/-- A disk function is **routed** as the device mounted in its slot demands: to that
device's controller and index, which `disk_state` has room for, or to no controller. -/
def Routed {ρ : Type} (m : Option Device) (a : Option (Answer ρ))
    (call : BitVec 8 → ControllerCall) (notReady : ρ) : Prop :=
  match m with
  | some d => a = some (.called d.hcd (call (d.addr - 1#8))) ∧
      (d.addr - 1#8).toNat < hostDeviceMax
  | none => a = some (.returned notReady)

/-- The drive number of a slot. -/
def pdrvOf (i : Fin 4) : BitVec 8 := BitVec.ofNat 8 (i + 2)

/-- All five disk functions of a slot are routed. -/
def UsbRouted (h : List (MscEvent × MscTrace)) (s : UsbDrives) (i : Fin 4) : Prop :=
  (∀ buff sector count, Routed (mountedIn h i) (usbDiskRead s (pdrvOf i) buff sector count)
      (.diskRead · buff sector count) .notrdy) ∧
    (∀ buff sector count, Routed (mountedIn h i) (usbDiskWrite s (pdrvOf i) buff sector count)
      (.diskWrite · buff sector count) .notrdy) ∧
    Routed (mountedIn h i) (usbDiskStatus s (pdrvOf i)) .diskStatus staNoinit ∧
    Routed (mountedIn h i) (usbDiskInitialize s (pdrvOf i)) .diskInitialize staNoinit ∧
    ∀ cmd buff, Routed (mountedIn h i) (usbDiskIoctl s (pdrvOf i) cmd buff)
      (.diskIoctl · cmd buff) .notrdy

/-! ### The dispatch of one slot -/

theorem drive_pdrvOf (s : UsbDrives) (i : Fin 4) : drive s (pdrvOf i) = some (s i) := by
  match i with
  | 0 | 1 | 2 | 3 => rfl

/-- A slot whose controller is one of the three forwards. -/
theorem onDrive_called {ρ : Type} {s : UsbDrives} {i : Fin 4} (h0 : (s i).hcd ≠ 0)
    (h3 : (s i).hcd ≤ 3) (call : BitVec 8 → ControllerCall) (notReady : ρ) :
    onDrive s (pdrvOf i) call notReady =
      some (.called (s i).hcd (call ((s i).devAddr - 1#8))) := by
  rw [onDrive, drive_pdrvOf, Option.map_some]
  obtain h | h | h : (s i).hcd = 1 ∨ (s i).hcd = 2 ∨ (s i).hcd = 3 := by omega
  all_goals simp only [h]

/-- A slot that was never used does not. -/
theorem onDrive_returned {ρ : Type} {s : UsbDrives} {i : Fin 4} (h0 : (s i).hcd = 0)
    (call : BitVec 8 → ControllerCall) (notReady : ρ) :
    onDrive s (pdrvOf i) call notReady = some (.returned notReady) := by
  rw [onDrive, drive_pdrvOf, Option.map_some]
  simp only [h0]

/-- The drive index of a device is within `disk_state`. -/
theorem Device.index_lt (d : Device) : (d.addr - 1#8).toNat < hostDeviceMax := by
  have hpos := d.addr_pos
  have hle := d.addr_le
  rw [BitVec.toNat_sub]
  simp only [BitVec.toNat_ofNat]
  omega

/-! ### The table against the history -/

/-- What the table remembers: a slot in which a device is mounted holds it, and no slot
names a fourth controller. -/
structure Remembers (h : List (MscEvent × MscTrace)) (s : UsbDrives) : Prop where
  holds : ∀ i d, mountedIn h i = some d → Holds s i d
  hcd_le : ∀ i, (s i).hcd ≤ 3

theorem remembers_mounted {h : List (MscEvent × MscTrace)} {s t : UsbDrives} {d : Device}
    {o : MscTrace} (hinv : Remembers h s) (hstep : mscStep s (.mounted d) = (o, t)) :
    Remembers ((.mounted d, o) :: h) t := by
  rcases mounted_cases hstep with ⟨ho, -, rfl⟩ | ⟨i, ho, -, rfl⟩
  · refine ⟨fun j e he => hinv.holds j e ?_, hinv.hcd_le⟩
    simpa [mountedIn, ho] using he
  · refine ⟨fun j e he => ?_, fun j => ?_⟩
    · simp only [mountedIn, ho, Option.some.injEq] at he
      split at he
      · rename_i hij
        obtain rfl := Option.some.inj he
        rw [← hij]
        exact holds_update_self.mpr rfl
      · rename_i hij
        exact (holds_update_of_ne fun hji => hij hji.symm).mpr (hinv.holds j e he)
    · by_cases hji : j = i
      · rw [hji, Function.update_self]
        exact d.hcd_le
      · rw [Function.update_of_ne hji]
        exact hinv.hcd_le j

theorem remembers_unmounted {h : List (MscEvent × MscTrace)} {s t : UsbDrives} {d : Device}
    {o : MscTrace} (hinv : Remembers h s) (hstep : mscStep s (.unmounted d) = (o, t)) :
    Remembers ((.unmounted d, o) :: h) t := by
  have hmount : ∀ j e, mountedIn ((.unmounted d, o) :: h) j = some e → e ≠ d ∧ Holds s j e := by
    intro j e he
    simp only [mountedIn] at he
    split at he
    · simp at he
    · rename_i hne
      refine ⟨?_, hinv.holds j e he⟩
      rintro rfl
      exact hne he
  rcases unmounted_cases hstep with ⟨-, rfl⟩ | ⟨i, hi, rfl⟩
  · exact ⟨fun j e he => (hmount j e he).2, hinv.hcd_le⟩
  · refine ⟨fun j e he => ?_, fun j => ?_⟩
    · obtain ⟨hne, hj⟩ := hmount j e he
      have hji : j ≠ i := by
        rintro rfl
        exact hne (hj.unique hi)
      exact (holds_update_of_ne hji).mpr hj
    · by_cases hji : j = i
      · rw [hji, Function.update_self]
        exact hinv.hcd_le i
      · rw [Function.update_of_ne hji]
        exact hinv.hcd_le j

theorem remembers_of_reach {h : List (MscEvent × MscTrace)} {s : UsbDrives}
    (hr : Reach (fnStep mscStep) Always UsbDrives.init h s) : Remembers h s := by
  refine hr.invariant Remembers ⟨?_, fun _ => Nat.zero_le 3⟩ ?_
  · simp [mountedIn]
  · rintro h s (d | d) o t hinv - hstep
    · exact remembers_mounted hinv hstep
    · exact remembers_unmounted hinv hstep

/-! ### Which slots are routed -/

/-- One dispatch is routed exactly if its slot was never used or its device is still
mounted. -/
theorem Remembers.routed_iff {h : List (MscEvent × MscTrace)} {s : UsbDrives}
    (hinv : Remembers h s) {ρ : Type} (i : Fin 4) (call : BitVec 8 → ControllerCall)
    (notReady : ρ) :
    Routed (mountedIn h i) (onDrive s (pdrvOf i) call notReady) call notReady ↔
      (s i).hcd = 0 ∨ (mountedIn h i).isSome := by
  cases hm : mountedIn h i with
  | some d =>
    have hd := hinv.holds i d hm
    have hhcd : (s i).hcd = d.hcd := by rw [hd]
    have haddr : (s i).devAddr = d.addr := by rw [hd]
    have hne : (s i).hcd ≠ 0 := by
      rw [hhcd]
      exact d.hcd_pos.ne'
    rw [onDrive_called hne (hinv.hcd_le i), hhcd, haddr]
    exact iff_of_true ⟨rfl, d.index_lt⟩ (Or.inr rfl)
  | none =>
    by_cases h0 : (s i).hcd = 0
    · rw [onDrive_returned h0]
      simp [Routed, h0]
    · rw [onDrive_called h0 (hinv.hcd_le i)]
      simp [Routed, h0]

/-- **Which slots are routed**, after any sequence of callbacks: those that were never used
and those in which a device is mounted. -/
theorem usbRouted_iff {h : List (MscEvent × MscTrace)} {s : UsbDrives}
    (hr : Reach (fnStep mscStep) Always UsbDrives.init h s) (i : Fin 4) :
    UsbRouted h s i ↔ (s i).hcd = 0 ∨ (mountedIn h i).isSome := by
  have hinv := remembers_of_reach hr
  constructor
  · rintro ⟨-, -, hstatus, -⟩
    exact (hinv.routed_iff i _ _).mp hstatus
  · intro hok
    exact ⟨fun _ _ _ => (hinv.routed_iff i _ _).mpr hok,
      fun _ _ _ => (hinv.routed_iff i _ _).mpr hok, (hinv.routed_iff i _ _).mpr hok,
      (hinv.routed_iff i _ _).mpr hok, fun _ _ => (hinv.routed_iff i _ _).mpr hok⟩

/-- A device is plugged into the first slot: it is routed, and so is the next slot. -/
theorem usbRouted_iff_plugged :
    let r := runFn mscStep [] UsbDrives.init [.mounted firstDevice]
    UsbRouted r.1 r.2 0 ∧ UsbRouted r.1 r.2 1 :=
  ⟨(usbRouted_iff (reach_runFn okAlong_always) 0).mpr (by decide),
    (usbRouted_iff (reach_runFn okAlong_always) 1).mpr (by decide)⟩

/-- **A slot that was given back is still routed to its controller**, with drive index
255. -/
theorem not_usbRouted_unplugged :
    let r := runFn mscStep [] UsbDrives.init [.mounted firstDevice, .unmounted firstDevice]
    Reach (fnStep mscStep) Always UsbDrives.init r.1 r.2 ∧ mountedIn r.1 0 = none ∧
      usbDiskStatus r.2 (pdrvOf 0) = some (.called 1 (.diskStatus 255#8)) ∧
      ¬UsbRouted r.1 r.2 0 := by
  intro r
  have hgone : mountedIn r.1 0 = none := by decide
  have hstale : usbDiskStatus r.2 (pdrvOf 0) = some (.called 1 (.diskStatus 255#8)) := by decide
  refine ⟨reach_runFn okAlong_always, hgone, hstale, ?_⟩
  rintro ⟨-, -, hstatus, -⟩
  rw [hgone, hstale] at hstatus
  simp [Routed] at hstatus

end Usb

end BareMetal
