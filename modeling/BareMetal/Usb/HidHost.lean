import BareMetal.Runs
import BareMetal.Usb.Drives

/-!
# Keyboards, mice and other input devices

The host stack opens an input device by its descriptors (`hidh_open_subtask`), remembers the
packet size of its endpoint, and asks for one report after the other, into a buffer that
`usb.c` provides: one for all keyboards, one for all mice, one for all others, whichever of the
three controllers they are plugged into. On the way it fetches the report descriptor of the
device into a buffer of 256 bytes and prints it.

All lengths come from the device and all buffers have a fixed size, and nothing compares the
two. Every transfer fits its buffer if the descriptors of every device that is plugged in are
small enough (`BareMetal.Usb.hidFits_of_small`), and a device whose descriptors are not makes
one that does not fit as soon as it is opened (`BareMetal.Usb.outFits_open_iff`).

A descriptor is a function from offsets to bytes, so that nothing is assumed about what a
device presents; the functions read it as the source does, from offset to offset.
-/

namespace BareMetal

namespace Usb

/-! ### Descriptors -/

/-- What a device presents, from its interface descriptor on. -/
abbrev Desc := ℕ → BitVec 8

/-- Where the HID descriptor begins: the interface descriptor says how long it is. -/
def Desc.hidAt (p : Desc) : ℕ := (p 0).toNat

/-- Where the endpoint descriptor begins. -/
def Desc.endpointAt (p : Desc) : ℕ := p.hidAt + (p p.hidAt).toNat

/-- `bInterfaceSubClass` and `bInterfaceProtocol`. -/
def Desc.subClass (p : Desc) : BitVec 8 := p 6
def Desc.protocol (p : Desc) : BitVec 8 := p 7

/-- The two descriptors that follow are a HID descriptor and an endpoint descriptor. -/
def Desc.hidType (p : Desc) : BitVec 8 := p (p.hidAt + 1)
def Desc.endpointType (p : Desc) : BitVec 8 := p (p.endpointAt + 1)

/-- `wReportLength`. -/
def Desc.reportLength (p : Desc) : BitVec 16 := p (p.hidAt + 8) ++ p (p.hidAt + 7)

/-- `wMaxPacketSize.size`, a field of eleven bits. -/
def Desc.maxPacketSize (p : Desc) : BitVec 16 :=
  (p (p.endpointAt + 5) ++ p (p.endpointAt + 4)) &&& 0x7FF#16

/-! ### The code -/

/-- The three kinds of devices, each with its callbacks and its buffer in `usb.c`. -/
inductive HidClass where
  | keyboard | mouse | generic
  deriving DecidableEq, Repr

/-- The size of `usb_keyboard_report`, `usb_mouse_report` and `usb_generic_report`. -/
def HidClass.bufferSize : HidClass → ℕ
  | .keyboard => 8
  | .mouse => 4
  | .generic => 256

/-- Where a transfer goes: to `report_descriptor`, or to the buffer of a class. -/
inductive Dest where
  | reportDescriptor
  | report (cls : HidClass)
  deriving DecidableEq, Repr

/-- The size of a destination. -/
def Dest.size : Dest → ℕ
  | .reportDescriptor => 256
  | .report cls => cls.bufferSize

/-- A transfer that is requested. -/
structure Transfer where
  dest : Dest
  length : BitVec 16
  deriving DecidableEq, Repr

/-- How a transfer ends, `xfer_result_t`. -/
inductive XferResult where
  | success | failed | stalled
  deriving DecidableEq, Repr

/-- `hidh_interface_info_t`: the endpoint of the pipe, if it is valid, and the size of a
report. -/
structure HidhInfo where
  pipe : Option (Fin 5)
  reportSize : BitVec 16
  deriving DecidableEq, Repr

/-- `keyboardh_data`, `mouseh_data` and `generich_data` of the three stacks. -/
structure HidState where
  info : HidClass → Device → HidhInfo

/-- After `hidh_init`. -/
def HidState.init : HidState := ⟨fun _ _ => ⟨none, 0#16⟩⟩

/-- Store an entry. -/
def HidState.set (s : HidState) (cls : HidClass) (d : Device) (i : HidhInfo) : HidState :=
  ⟨Function.update s.info cls (Function.update (s.info cls) d i)⟩

/-- What a call does besides changing the state: the transfers it requests, the entries of
`report_descriptor` it reads, the pipe it opens, and the hook of the application it calls. -/
structure HidOut where
  requests : List Transfer
  reads : List ℕ
  opened : Option (HidClass × Fin 5)
  hook : Option (HidClass × Device)
  deriving DecidableEq

/-- A call that does nothing. -/
def HidOut.none : HidOut := ⟨[], [], .none, .none⟩

/-- How a control transfer goes: whether the setup stage comes to an end, and whether what
follows succeeds. -/
structure ControlIo where
  setup : Bool
  rest : Bool
  deriving DecidableEq, Repr

/-- `usbh_control_xfer`: the transfer of its data stage, and what it returns. -/
def usbhControlXfer (dest : Dest) (wLength : BitVec 16) (io : ControlIo) :
    List Transfer × Bool :=
  (if io.setup ∧ wLength ≠ 0#16 then [⟨dest, wLength⟩] else [], io.setup && io.rest)

/-- `hidh_interface_get_report`; `ready` says that the device is configured and the pipe is
not busy. -/
def hidhInterfaceGetReport (s : HidState) (cls : HidClass) (d : Device) (ready : Bool) :
    List Transfer :=
  if ready then [⟨.report cls, (s.info cls d).reportSize⟩] else []

/-- `hidh_interface_open`. The entry is filled in whether or not the pipe could be opened. -/
def hidhInterfaceOpen (s : HidState) (cls : HidClass) (d : Device) (desc : Desc)
    (pipe : Option (Fin 5)) : Bool × HidState :=
  (pipe.isSome, s.set cls d ⟨pipe, desc.maxPacketSize⟩)

/-- The class of an interface: a boot interface is a keyboard or a mouse, or is not
supported. -/
def Desc.hidClass (p : Desc) : Option HidClass :=
  if p.subClass = 1#8 then
    if p.protocol = 1#8 then some .keyboard
    else if p.protocol = 2#8 then some .mouse
    else none
  else some .generic

/-- The loop that prints the report descriptor reads four bytes at a time. -/
def dumpReads (wReportLength : ℕ) : List ℕ :=
  (List.range ((wReportLength + 3) / 4)).flatMap fun k => [4 * k, 4 * k + 1, 4 * k + 2, 4 * k + 3]

/-- What opening a device meets: its two control transfers, the pipe that `hcd_pipe_open`
returns, and whether a report can be asked for. -/
structure HidOpenIo where
  setIdle : ControlIo
  fetch : ControlIo
  pipe : Option (Fin 5)
  ready : Bool
  deriving DecidableEq, Repr

/-- `hidh_open_subtask`, with the callback that announces the device and asks for the first
report. The error code it returns for a descriptor of a wrong type is `true` as a `bool`. -/
def hidhOpenSubtask (s : HidState) (d : Device) (desc : Desc) (io : HidOpenIo) :
    (Bool × HidOut) × HidState :=
  if desc.hidType ≠ 0x21#8 then ((true, .none), s)
  else if desc.endpointType ≠ 0x05#8 then ((true, .none), s)
  else if (usbhControlXfer .reportDescriptor 0#16 io.setIdle).2 = false then ((false, .none), s)
  else
    let fetch := usbhControlXfer .reportDescriptor desc.reportLength io.fetch
    if fetch.2 = false then ((false, ⟨fetch.1, [], none, none⟩), s)
    else
      let reads := dumpReads desc.reportLength.toNat
      match desc.hidClass with
      | none => ((false, ⟨fetch.1, reads, none, none⟩), s)
      | some cls =>
          let o := hidhInterfaceOpen s cls d desc io.pipe
          if o.1 = false then ((false, ⟨fetch.1, reads, none, none⟩), o.2)
          else
            let first := hidhInterfaceGetReport o.2 cls d io.ready
            ((true, ⟨fetch.1 ++ first, reads, io.pipe.map fun pipe => (cls, pipe), none⟩), o.2)

/-- `keyboard_isr`, `mouse_isr` and `generic_isr`: after a report the hook of the application
is called and the next report is asked for; after a failure only the latter. -/
def reportIsr (s : HidState) (cls : HidClass) (d : Device) (event : XferResult) (ready : Bool) :
    HidOut :=
  match event with
  | .success => ⟨hidhInterfaceGetReport s cls d ready, [], none, some (cls, d)⟩
  | .failed => ⟨hidhInterfaceGetReport s cls d ready, [], none, none⟩
  | .stalled => .none

/-- `hidh_isr`: the entry that has the pipe says which callback is meant. -/
def hidhIsr (s : HidState) (d : Device) (pipe : Fin 5) (event : XferResult) (ready : Bool) :
    HidOut :=
  if (s.info .keyboard d).pipe = some pipe then reportIsr s .keyboard d event ready
  else if (s.info .generic d).pipe = some pipe then reportIsr s .generic d event ready
  else if (s.info .mouse d).pipe = some pipe then reportIsr s .mouse d event ready
  else .none

/-- `hidh_close`: the entries that have a pipe are cleared. -/
def hidhClose (s : HidState) (d : Device) : HidState :=
  ⟨fun cls d' =>
    if d' = d ∧ (s.info cls d').pipe ≠ none then ⟨none, 0#16⟩ else s.info cls d'⟩

/-- A device is opened, a transfer of its pipe has ended, or it is closed. -/
inductive HidEvent where
  | plugged (d : Device) (desc : Desc) (io : HidOpenIo)
  | isr (d : Device) (pipe : Fin 5) (event : XferResult) (ready : Bool)
  | close (d : Device)

/-- One event. -/
def hidStep (s : HidState) : HidEvent → HidOut × HidState
  | .plugged d desc io => ((hidhOpenSubtask s d desc io).1.2, (hidhOpenSubtask s d desc io).2)
  | .isr d pipe event ready => (hidhIsr s d pipe event ready, s)
  | .close d => (.none, hidhClose s d)

/-! ### The property -/

/-- **What a call requests fits its destination**, and what it reads lies in
`report_descriptor`. -/
structure OutFits (o : HidOut) : Prop where
  requests : ∀ t ∈ o.requests, t.length.toNat ≤ t.dest.size
  reads : ∀ i ∈ o.reads, i < Dest.reportDescriptor.size

/-- Every transfer that was requested fits. -/
def HidFits (h : List (HidEvent × HidOut)) : Prop := ∀ e ∈ h, OutFits e.2

/-- Descriptors that are small enough for the buffers: the report descriptor has 256 bytes at
most, and a packet is no larger than the buffer of its class. -/
structure Desc.Small (p : Desc) : Prop where
  reportLength : p.reportLength.toNat ≤ 256
  maxPacketSize : ∀ cls, p.hidClass = some cls → p.maxPacketSize.toNat ≤ cls.bufferSize

/-- The descriptors of the devices that are plugged in are small, or are not recognized. -/
def SmallDescs (_ : HidState) : HidEvent → Prop
  | .plugged _ desc _ => desc.hidType = 0x21#8 → desc.endpointType = 0x05#8 → desc.Small
  | _ => True

/-! ### What a call requests -/

theorem outFits_none : OutFits .none := ⟨by simp [HidOut.none], by simp [HidOut.none]⟩

/-- The printed bytes of a report descriptor lie in its buffer if and only if it does. -/
theorem dumpReads_lt_iff (n : ℕ) : (∀ i ∈ dumpReads n, i < 256) ↔ n ≤ 256 := by
  constructor
  · intro hall
    by_contra hlarge
    have hmem : 256 ∈ dumpReads n :=
      List.mem_flatMap.mpr ⟨64, List.mem_range.mpr (by omega), by simp⟩
    exact absurd (hall 256 hmem) (by simp)
  · intro hn i hi
    obtain ⟨k, hk, hik⟩ := List.mem_flatMap.mp hi
    have := List.mem_range.mp hk
    simp only [List.mem_cons, List.not_mem_nil, or_false] at hik
    omega

section Requests

variable {s : HidState} {d : Device} {cls : HidClass}

theorem mem_getReport {t : Transfer} {ready : Bool}
    (ht : t ∈ hidhInterfaceGetReport s cls d ready) :
    t = ⟨.report cls, (s.info cls d).reportSize⟩ := by
  unfold hidhInterfaceGetReport at ht
  split at ht
  · simpa using ht
  · simp at ht

theorem outFits_reportIsr (hsize : (s.info cls d).reportSize.toNat ≤ cls.bufferSize)
    (event : XferResult) (ready : Bool) : OutFits (reportIsr s cls d event ready) := by
  have hrequests : ∀ t ∈ hidhInterfaceGetReport s cls d ready, t.length.toNat ≤ t.dest.size := by
    intro t ht
    rw [mem_getReport ht]
    exact hsize
  cases event with
  | success => exact ⟨hrequests, by simp [reportIsr]⟩
  | failed => exact ⟨hrequests, by simp [reportIsr]⟩
  | stalled => exact outFits_none

theorem set_info_self (s : HidState) (cls : HidClass) (d : Device) (i : HidhInfo) :
    (s.set cls d i).info cls d = i := by
  simp [HidState.set]

theorem set_info_of_ne {cls' : HidClass} {d' : Device} (h : ¬(cls' = cls ∧ d' = d))
    (s : HidState) (i : HidhInfo) : (s.set cls d i).info cls' d' = s.info cls' d' := by
  by_cases hcls : cls' = cls
  · subst hcls
    have hd : d' ≠ d := fun hd => h ⟨rfl, hd⟩
    simp [HidState.set, hd]
  · simp [HidState.set, hcls]

theorem dest_usbhControlXfer {dest : Dest} {n : BitVec 16} {io : ControlIo} :
    ∀ t ∈ (usbhControlXfer dest n io).1, t.dest = dest := by
  intro t ht
  simp only [usbhControlXfer] at ht
  split at ht
  · obtain rfl := List.mem_singleton.mp ht
    rfl
  · simp at ht

/-- **What opening a device does to the entries**: nothing; it fills in an entry without a
pipe; or it opens a pipe and fills in an entry with it, and may request a report. -/
theorem hidhOpenSubtask_cases (s : HidState) (d : Device) (desc : Desc) (io : HidOpenIo) :
    let r := hidhOpenSubtask s d desc io
    (r.1.2.opened = none ∧ (r.2 = s ∨ ∃ cls size, r.2 = s.set cls d ⟨none, size⟩)) ∨
      ∃ cls pipe size fetch, io.pipe = some pipe ∧ r.1.2.opened = some (cls, pipe) ∧
        r.2 = s.set cls d ⟨some pipe, size⟩ ∧ (∀ t ∈ fetch, t.dest = .reportDescriptor) ∧
        r.1.2.requests = fetch ++ hidhInterfaceGetReport r.2 cls d io.ready := by
  unfold hidhOpenSubtask
  split
  · exact Or.inl ⟨rfl, Or.inl rfl⟩
  split
  · exact Or.inl ⟨rfl, Or.inl rfl⟩
  split
  · exact Or.inl ⟨rfl, Or.inl rfl⟩
  dsimp only
  split
  · exact Or.inl ⟨rfl, Or.inl rfl⟩
  split
  · exact Or.inl ⟨rfl, Or.inl rfl⟩
  · rename_i cls hcls
    cases hpipe : io.pipe with
    | none => exact Or.inl ⟨rfl, Or.inr ⟨cls, desc.maxPacketSize, rfl⟩⟩
    | some pipe =>
      exact Or.inr ⟨cls, pipe, desc.maxPacketSize, _, rfl, rfl, rfl, dest_usbhControlXfer, rfl⟩

/-- The report descriptor is fetched with the length the device has given. -/
theorem fetch_fits_of_le {n : BitVec 16} (hn : n.toNat ≤ 256) (io : ControlIo) :
    ∀ t ∈ (usbhControlXfer .reportDescriptor n io).1, t.length.toNat ≤ t.dest.size := by
  intro t ht
  simp only [usbhControlXfer] at ht
  split at ht
  · obtain rfl := List.mem_singleton.mp ht
    exact hn
  · simp at ht

end Requests

/-! ### Every run -/

/-- **The invariant**: the size of a report that is remembered is that of a buffer. -/
def SizesFit (s : HidState) : Prop :=
  ∀ cls d, (s.info cls d).reportSize.toNat ≤ cls.bufferSize

theorem sizesFit_init : SizesFit .init := fun cls d => by simp [HidState.init]

theorem SizesFit.set {s : HidState} (hs : SizesFit s) {cls : HidClass} (d : Device) {i : HidhInfo}
    (hi : i.reportSize.toNat ≤ cls.bufferSize) : SizesFit (s.set cls d i) := by
  intro cls' d'
  by_cases h : cls' = cls ∧ d' = d
  · obtain ⟨rfl, rfl⟩ := h
    rwa [set_info_self]
  · rw [set_info_of_ne h]
    exact hs cls' d'

/-- Opening a device with small descriptors. -/
theorem sizesFit_open {s : HidState} (hs : SizesFit s) (d : Device) {desc : Desc}
    (hsmall : desc.hidType = 0x21#8 → desc.endpointType = 0x05#8 → desc.Small)
    (io : HidOpenIo) :
    OutFits (hidhOpenSubtask s d desc io).1.2 ∧ SizesFit (hidhOpenSubtask s d desc io).2 := by
  unfold hidhOpenSubtask
  split
  · exact ⟨outFits_none, hs⟩
  rename_i hhid
  split
  · exact ⟨outFits_none, hs⟩
  rename_i hendpoint
  split
  · exact ⟨outFits_none, hs⟩
  obtain ⟨hlength, hpacket⟩ := hsmall (not_not.mp hhid) (not_not.mp hendpoint)
  have hfetch := fetch_fits_of_le hlength io.fetch
  have hreads := (dumpReads_lt_iff desc.reportLength.toNat).mpr hlength
  dsimp only
  split
  · exact ⟨⟨hfetch, by simp⟩, hs⟩
  split
  · exact ⟨⟨hfetch, hreads⟩, hs⟩
  · rename_i cls hcls
    have hset : SizesFit (hidhInterfaceOpen s cls d desc io.pipe).2 := hs.set d (hpacket cls hcls)
    split
    · exact ⟨⟨hfetch, hreads⟩, hset⟩
    · refine ⟨⟨fun t ht => ?_, hreads⟩, hset⟩
      rcases List.mem_append.mp ht with ht | ht
      · exact hfetch t ht
      · rw [mem_getReport ht]
        exact hset cls d

theorem outFits_isr {s : HidState} (hs : SizesFit s) (d : Device) (pipe : Fin 5)
    (event : XferResult) (ready : Bool) : OutFits (hidhIsr s d pipe event ready) := by
  unfold hidhIsr
  split_ifs
  · exact outFits_reportIsr (hs .keyboard d) event ready
  · exact outFits_reportIsr (hs .generic d) event ready
  · exact outFits_reportIsr (hs .mouse d) event ready
  · exact outFits_none

theorem sizesFit_close {s : HidState} (hs : SizesFit s) (d : Device) :
    SizesFit (hidhClose s d) := by
  intro cls d'
  simp only [hidhClose]
  split
  · exact Nat.zero_le _
  · exact hs cls d'

/-- **Every transfer fits its buffer** in any history in which the descriptors of the devices
are small. -/
theorem hidFits_of_small {h : List (HidEvent × HidOut)} {s : HidState}
    (hr : Reach (fnStep hidStep) SmallDescs .init h s) : HidFits h := by
  refine (hr.fnInvariant (fun h s => SizesFit s ∧ HidFits h) ⟨sizesFit_init, by simp [HidFits]⟩
    ?_).2
  rintro h s e ⟨hs, hfits⟩ hok
  have hstep : SizesFit (hidStep s e).2 ∧ OutFits (hidStep s e).1 := by
    cases e with
    | plugged d desc io => exact (sizesFit_open hs d hok io).symm
    | isr d pipe event ready => exact ⟨hs, outFits_isr hs d pipe event ready⟩
    | close d => exact ⟨sizesFit_close hs d, outFits_none⟩
  refine ⟨hstep.1, fun e' he' => ?_⟩
  rcases List.mem_cons.mp he' with rfl | he'
  · exact hstep.2
  · exact hfits e' he'

/-- The pipe of index 0, the first that a device is given. -/
def pipeZero : Fin 5 := ⟨0, by decide⟩

/-- Nothing goes wrong while a device is opened. -/
def openGoodHid : HidOpenIo := ⟨⟨true, true⟩, ⟨true, true⟩, some pipeZero, true⟩

/-- A boot device: its protocol, the length of its report descriptor and its packet size. -/
def bootDesc (protocol : BitVec 8) (reportLength packetSize : BitVec 16) : Desc := fun i =>
  [9#8, 4#8, 0#8, 0#8, 1#8, 3#8, 1#8, protocol, 0#8,
    9#8, 0x21#8, 0x11#8, 1#8, 0#8, 1#8, 0x22#8, reportLength.setWidth 8,
    (reportLength >>> 8).setWidth 8,
    7#8, 5#8, 0x81#8, 3#8, packetSize.setWidth 8, (packetSize >>> 8).setWidth 8, 10#8].getD i 0#8

/-- A keyboard with packets of 8 bytes is opened, sends a report and is closed. -/
theorem hidFits_of_small_keyboard :
    let r := runFn hidStep [] .init [.plugged firstDevice (bootDesc 1#8 65#16 8#16) openGoodHid,
      .isr firstDevice 0 .success true, .close firstDevice]
    HidFits r.1 ∧ (r.1[1]?).map (fun e => e.2.requests) = some [⟨.report .keyboard, 8#16⟩] := by
  intro r
  have hsmall : (bootDesc 1#8 65#16 8#16).Small := by
    refine ⟨by decide, fun cls hcls => ?_⟩
    obtain rfl : HidClass.keyboard = cls := Option.some.inj ((by decide :
      (bootDesc 1#8 65#16 8#16).hidClass = some .keyboard).symm.trans hcls)
    decide
  exact ⟨hidFits_of_small (reach_runFn ⟨fun _ _ => hsmall, trivial, trivial, trivial⟩), by decide⟩

/-- **Two ordinary devices that do not fit.** A mouse with packets of 8 bytes is asked for 8
bytes into a buffer of 4; a keyboard whose report descriptor has 300 bytes is asked for all of
them into a buffer of 256, and the byte at 256 is read. -/
theorem not_hidFits_mouse :
    let mouse := runFn hidStep [] .init
      [.plugged firstDevice (bootDesc 2#8 65#16 8#16) openGoodHid]
    let keyboard := runFn hidStep [] .init
      [.plugged firstDevice (bootDesc 1#8 300#16 8#16) openGoodHid]
    (Reach (fnStep hidStep) Always .init mouse.1 mouse.2 ∧
      (mouse.1.map fun e => e.2.requests) =
        [[⟨.reportDescriptor, 65#16⟩, ⟨.report .mouse, 8#16⟩]] ∧ ¬HidFits mouse.1) ∧
    (Reach (fnStep hidStep) Always .init keyboard.1 keyboard.2 ∧
      (keyboard.1.map fun e => e.2.requests) =
        [[⟨.reportDescriptor, 300#16⟩, ⟨.report .keyboard, 8#16⟩]] ∧ ¬HidFits keyboard.1) := by
  refine ⟨⟨reach_runFn okAlong_always, by decide, fun hfits => ?_⟩,
    ⟨reach_runFn okAlong_always, by decide, fun hfits => ?_⟩⟩
  · have hreport := (hfits _ List.mem_cons_self).requests ⟨.report .mouse, 8#16⟩ (by decide)
    exact absurd hreport (by decide)
  · have hfetch := (hfits _ List.mem_cons_self).requests ⟨.reportDescriptor, 300#16⟩ (by decide)
    exact absurd hfetch (by decide)

/-! ### The condition is needed -/

/-- **A device that is opened without an error fits if and only if its descriptors are
small.** -/
theorem outFits_open_iff (s : HidState) (d : Device) {desc : Desc}
    (hhid : desc.hidType = 0x21#8) (hendpoint : desc.endpointType = 0x05#8)
    {cls : HidClass} (hcls : desc.hidClass = some cls) :
    OutFits (hidhOpenSubtask s d desc openGoodHid).1.2 ↔ desc.Small := by
  have hout : (hidhOpenSubtask s d desc openGoodHid).1.2 =
      ⟨(usbhControlXfer .reportDescriptor desc.reportLength ⟨true, true⟩).1 ++
          [⟨.report cls, desc.maxPacketSize⟩],
        dumpReads desc.reportLength.toNat, some (cls, pipeZero), none⟩ := by
    simp [hidhOpenSubtask, hhid, hendpoint, hcls, openGoodHid, usbhControlXfer,
      hidhInterfaceOpen, hidhInterfaceGetReport, set_info_self]
  rw [hout]
  constructor
  · rintro ⟨hrequests, hreads⟩
    refine ⟨(dumpReads_lt_iff _).mp hreads, fun cls' hcls' => ?_⟩
    obtain rfl : cls = cls' := Option.some.inj (hcls.symm.trans hcls')
    exact hrequests ⟨.report cls, desc.maxPacketSize⟩ (by simp)
  · rintro ⟨hlength, hpacket⟩
    refine ⟨fun t ht => ?_, (dumpReads_lt_iff _).mpr hlength⟩
    rcases List.mem_append.mp ht with ht | ht
    · exact fetch_fits_of_le hlength _ t ht
    · obtain rfl := List.mem_singleton.mp ht
      exact hpacket cls hcls

end Usb

end BareMetal
