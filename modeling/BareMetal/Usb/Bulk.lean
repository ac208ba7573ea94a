import BareMetal.Usb.Transfer
import BareMetal.Usb.HidHost
import Mathlib.Data.List.Nodup

/-!
# The bulk transfers of a command

A command of a USB drive is three transfers on two endpoints: the command block goes out, the
data goes out or comes in, the status block comes in. `disk_read` and `disk_write` queue the
three and then wait, in a loop, until the endpoint for input has nothing queued any more. What
the controller says of each transfer reaches the class driver by interrupt and ends in a
callback of `usb.c` that ignores it; the status block lies in memory and is never read; and the
wait has a single result, `RES_OK`.

This file is the code of that, from the call to its return, with the controller, its interrupt
and the removal of the drive in between at any moment (`BareMetal.Usb.bulkStep`). The requests
are those of `BareMetal.Usb.mschCommandXfer`, one after the other
(`BareMetal.Usb.mschCommandXfer_eq`).

The descriptors are the part every statement about it needs. One that is in use hangs on one
endpoint or is in the hands of the interrupt (`BareMetal.Usb.PoolOk`), and an input endpoint on
which nothing has failed is not marked as failed (`BareMetal.Usb.DriveOk`): both hold from then
on, whatever happens, as long as the transfers on that endpoint succeed.
-/

namespace BareMetal

namespace Usb

open FatFs (DResult has)

/-! ### The requests of a command -/

/-- The phases of a command. -/
inductive Phase where
  | command | data | status
  deriving DecidableEq, Repr

/-- One call of `pipe_queue_xfer`, and the phase it is made for. -/
structure Request where
  phase : Phase
  pipe : Fin 5
  buffer : BitVec 32
  totalBytes : BitVec 16
  int : Bool
  deriving DecidableEq, Repr

/-- The requests of `msch_command_xfer`. -/
def mschRequests (m : MschInterface) (buffer : BitVec 32) : List Request :=
  (if buffer ≠ 0#32 then
    if has m.cbw.dir dirInMask then
      [⟨.command, m.bulkOut, m.cbwAddr, 31#16, true⟩,
        ⟨.data, m.bulkIn, buffer, m.cbw.totalBytes.setWidth 16, false⟩]
    else
      [⟨.command, m.bulkOut, m.cbwAddr, 31#16, false⟩,
        ⟨.data, m.bulkOut, buffer, m.cbw.totalBytes.setWidth 16, true⟩]
  else
    []) ++ [⟨.status, m.bulkIn, m.cswAddr, 13#16, true⟩]

/-- Make requests until one fails. -/
def queueAll (d : OhciDevice) : List Request → TusbError × OhciDevice
  | [] => (.none, d)
  | r :: rs => assertErr (pipeQueueXfer d r.pipe r.buffer r.totalBytes r.int) fun d => queueAll d rs

theorem queueAll_one (d : OhciDevice) (r : Request) :
    queueAll d [r] = pipeQueueXfer d r.pipe r.buffer r.totalBytes r.int := by
  rw [queueAll, assertErr]
  split
  · rename_i h
    exact Prod.ext h.symm rfl
  · rfl

theorem assertErr_assoc (x : TusbError × OhciDevice) (f g : OhciDevice → TusbError × OhciDevice) :
    assertErr (assertErr x f) g = assertErr x fun d => assertErr (f d) g := by
  by_cases hx : x.1 = .none
  · simp only [assertErr, if_pos hx]
  · simp only [assertErr, if_neg hx]

/-- **A command is its requests**, one after the other. -/
theorem mschCommandXfer_eq (m : MschInterface) (d : OhciDevice) (buffer : BitVec 32) :
    mschCommandXfer m d buffer = queueAll d (mschRequests m buffer) := by
  simp only [mschCommandXfer, mschRequests, hcdPipeXfer, hcdPipeQueueXfer]
  split
  · split
    · simp only [List.cons_append, List.nil_append, queueAll.eq_2 _ _ (_ :: _), queueAll_one,
        assertErr_assoc]
    · simp only [List.cons_append, List.nil_append, queueAll.eq_2 _ _ (_ :: _), queueAll_one,
        assertErr_assoc]
  · rw [assertErr_none, List.nil_append, queueAll_one]

/-! ### The code -/

/-- `ohci_ed_t`: the descriptors that hang on the endpoint, from `td_head` on; `td_tail`, which
is `NULL` unless the endpoint has failed; the halt bit; `is_stalled`; and whether the endpoint
is in use, that is, in the list of the controller. -/
structure Ed where
  queue : List (Fin 10)
  tail : Option (Fin 10)
  halted : Bool
  isStalled : Bool
  used : Bool
  deriving DecidableEq, Repr

/-- `td_insert_to_ed`. The new descriptor has no successor and becomes the successor of the
*first*, so that a third one replaces the second. -/
def Ed.insert (e : Ed) (k : Fin 10) : Ed :=
  { e with
    queue :=
      match e.queue with
      | [] => [k]
      | a :: _ => [a, k] }

/-- `hcd_pipe_is_busy`. -/
def Ed.busy (e : Ed) : Bool := e.queue.head? ≠ e.tail

/-- A mounted drive: the table of `usb.c`, its entry in `msch_data`, its entry in `ohci_data`
with the endpoints, the descriptors the controller has handed back (the newest first), and the
call of `disk_read` or `disk_write` in progress, as the requests it has still to make. -/
structure BulkSys where
  drives : UsbDrives
  msch : MschInterface
  isInitialized : Bool
  ohci : OhciDevice
  ed : Fin 5 → Ed
  done : List (Fin 10)
  call : Option (List Request)

/-- What can happen: FatFs calls for sectors; the call makes its next request, or looks whether
it can return; the controller is done with a descriptor of an endpoint, with a condition code
and, if it was for the status block, with a status in it; its interrupt is handled; the stack
runs `msch_close`. -/
inductive BulkEvent where
  | call (dir : Dir) (pdrv : BitVec 8) (buff sector count : BitVec 32)
  | issue
  | poll
  | complete (pipe : Fin 5) (cc : BitVec 4) (status : BitVec 8)
  | isr
  | unplug
  deriving DecidableEq, Repr

/-- What comes of it. `handled` lists what `tuh_msc_isr` is told. -/
inductive BulkOut where
  | none
  | begun
  | queued (phase : Phase) (k : Fin 10)
  | busy
  | returned (r : DResult)
  | retired (k : Fin 10)
  | handled (told : List XferResult)
  | closed
  deriving DecidableEq, Repr

/-- `usb_disk_read` and `usb_disk_write`, up to the controller. -/
def usbDisk (dir : Dir) (s : UsbDrives) (pdrv : BitVec 8) (buff sector count : BitVec 32) :
    Option (Answer DResult) :=
  match dir with
  | .read => usbDiskRead s pdrv buff sector count
  | .write => usbDiskWrite s pdrv buff sector count

/-- `disk_read` and `disk_write` up to the first request: `tuh_msc_read10` fills in the command
block. Without a mounted drive the pipe handles are zero and name no endpoint. -/
def BulkSys.start (s : BulkSys) (dir : Dir) (buff sector : BitVec 32) (count : BitVec 8) :
    BulkOut × BulkSys :=
  if s.isInitialized then
    let msch := (tuhMscXfer10 dir ⟨s.msch, s.ohci⟩ 0#8 buff sector (count.setWidth 16)).2.msch
    (.begun, { s with msch := msch, call := some (mschRequests msch buff) })
  else
    (.none, s)

/-- A disk function that has been dispatched; only what goes to drive `d` matters here. -/
def BulkSys.serve (d : Device) (s : BulkSys) : Answer DResult → BulkOut × BulkSys
  | .called hcd (.diskRead pdrv buff sector count) =>
      if hcd = d.hcd ∧ pdrv = d.addr - 1#8 then s.start .read buff sector (count.setWidth 8)
      else (.none, s)
  | .called hcd (.diskWrite pdrv buff sector count) =>
      if hcd = d.hcd ∧ pdrv = d.addr - 1#8 then s.start .write buff sector (count.setWidth 8)
      else (.none, s)
  | .called _ _ => (.none, s)
  | .returned r => (.returned r, s)

/-- A request: `pipe_queue_xfer`, and the error return of `disk_read` and `disk_write`. -/
def BulkSys.issue (s : BulkSys) : BulkOut × BulkSys :=
  match s.call with
  | some (r :: rs) =>
      match pipeQueueXfer s.ohci r.pipe r.buffer r.totalBytes r.int with
      | (.none, ohci) =>
          match ohci.queue.getLast? with
          | some (p, k) =>
              (.queued r.phase k,
                { s with
                  ohci := ohci
                  ed := Function.update s.ed p ((s.ed p).insert k)
                  call := some rs })
          | none => (.none, s)
      | (_, ohci) => (.returned .error, { s with ohci := ohci, call := none })
  | _ => (.none, s)

/-- `tuh_msc_is_busy`. -/
def BulkSys.tuhMscIsBusy (s : BulkSys) : Bool := s.isInitialized && (s.ed s.msch.bulkIn).busy

/-- One turn of the loop in `wait_for_io_complete`. -/
def BulkSys.waitForIoComplete (s : BulkSys) : BulkOut × BulkSys :=
  match s.call with
  | some [] => if s.tuhMscIsBusy then (.busy, s) else (.returned .ok, { s with call := none })
  | _ => (.none, s)

/-- `OHCI_CCODE_NO_ERROR`. -/
def ccodeNoError : BitVec 4 := 0#4

/-- `OHCI_CCODE_STALL`. -/
def ccodeStall : BitVec 4 := 4#4

/-- The controller is done with the first descriptor of an endpoint. It looks at endpoints in
its list that are not halted, up to the tail; an error halts the endpoint. -/
def BulkSys.complete (s : BulkSys) (p : Fin 5) (cc : BitVec 4) : BulkOut × BulkSys :=
  match (s.ed p).queue with
  | k :: rest =>
      if (s.ed p).used ∧ ¬(s.ed p).halted ∧ (s.ed p).tail ≠ some k then
        (.retired k,
          { s with
            ed := Function.update s.ed p { s.ed p with queue := rest, halted := cc ≠ ccodeNoError }
            ohci :=
              { s.ohci with
                gtd := Function.update s.ohci.gtd k { s.ohci.gtd k with conditionCode := cc } }
            done := k :: s.done })
      else
        (.none, s)
  | [] => (.none, s)

/-- `gtd_get_ed`. -/
def edOf (td : Gtd) : Option (Fin 5) :=
  if h : td.index.toNat < 5 then some ⟨td.index.toNat, h⟩ else none

/-- The event of `done_queue_isr`. -/
def eventOf (cc : BitVec 4) : XferResult :=
  if cc = ccodeNoError then .success else if cc = ccodeStall then .stalled else .failed

/-- An endpoint after an event: one that has failed is marked as an empty queue. -/
def Ed.note (e : Ed) (event : XferResult) : Ed :=
  if event ≠ .success then
    { e with tail := e.queue.head?, isStalled := e.isStalled || event = .stalled }
  else
    e

/-- A turn of the loop in `done_queue_isr`: what it does to the descriptors and endpoints. -/
def doneTd (x : (Fin 10 → Gtd) × (Fin 5 → Ed)) (k : Fin 10) : (Fin 10 → Gtd) × (Fin 5 → Ed) :=
  (Function.update x.1 k { x.1 k with used := false },
    match edOf (x.1 k) with
    | some p => Function.update x.2 p ((x.2 p).note (eventOf (x.1 k).conditionCode))
    | none => x.2)

/-- `msch_isr`: what `tuh_msc_isr` is told of a descriptor. -/
def BulkSys.mschIsr (s : BulkSys) (k : Fin 10) : Option XferResult :=
  let td := s.ohci.gtd k
  let event := eventOf td.conditionCode
  if (td.delayInterrupt = intOnCompleteYes ∨ event ≠ .success) ∧
      edOf td = some s.msch.bulkIn ∧ s.isInitialized then
    some event
  else
    none

/-- `done_queue_isr`. The list of the controller has the newest first. `msc_isr`, in which what
`tuh_msc_isr` is told ends, is empty. -/
def BulkSys.doneQueueIsr (s : BulkSys) : BulkOut × BulkSys :=
  let x := s.done.reverse.foldl doneTd (s.ohci.gtd, s.ed)
  (.handled (s.done.reverse.filterMap s.mschIsr),
    { s with ohci := { s.ohci with gtd := x.1 }, ed := x.2, done := [] })

/-- `msch_data` of a drive that is gone. -/
def MschInterface.clear (m : MschInterface) : MschInterface :=
  { m with
    bulkIn := pipeZero
    bulkOut := pipeZero
    blockSize := 0#16
    cbw := ⟨0#32, 0#8, 0#8, 0#8, 0#8, 0#32, 0#16⟩ }

/-- `hcd_pipe_close`. -/
def closePipe (ed : Fin 5 → Ed) (p : Fin 5) : Fin 5 → Ed :=
  Function.update ed p { ed p with used := false }

/-- `msch_close`. -/
def BulkSys.mschClose (d : Device) (s : BulkSys) : BulkSys :=
  { s with
    drives := (mscUnmountedCb s.drives d.hcd d.addr).2
    msch := s.msch.clear
    isInitialized := false
    ed := closePipe (closePipe s.ed s.msch.bulkIn) s.msch.bulkOut }

/-- One event at drive `d`. FatFs makes one call at a time, and the stack does not take the
drive away between two requests of a command. -/
def bulkStep (d : Device) (s : BulkSys) : BulkEvent → BulkOut × BulkSys
  | .call dir pdrv buff sector count =>
      if s.call = none then
        match usbDisk dir s.drives pdrv buff sector count with
        | some a => s.serve d a
        | none => (.none, s)
      else
        (.none, s)
  | .issue => s.issue
  | .poll => s.waitForIoComplete
  | .complete p cc _ => s.complete p cc
  | .isr => s.doneQueueIsr
  | .unplug =>
      if s.isInitialized ∧ (s.call = none ∨ s.call = some []) then (.closed, s.mschClose d)
      else (.none, s)

/-! ### What each event can do -/

theorem onDrive_cases {ρ : Type} (s : UsbDrives) (pdrv : BitVec 8)
    (call : BitVec 8 → ControllerCall) (notReady : ρ) :
    onDrive s pdrv call notReady = none ∨ onDrive s pdrv call notReady = some (.returned notReady) ∨
      ∃ hcd p, onDrive s pdrv call notReady = some (.called hcd (call p)) := by
  unfold onDrive
  cases drive s pdrv with
  | none => exact Or.inl rfl
  | some dr =>
    rw [Option.map_some]
    split
    · exact Or.inr (Or.inr ⟨_, _, rfl⟩)
    · exact Or.inr (Or.inr ⟨_, _, rfl⟩)
    · exact Or.inr (Or.inr ⟨_, _, rfl⟩)
    · exact Or.inr (Or.inl rfl)

/-- A drive that has been given a command. -/
def BulkSys.begun (s : BulkSys) (cbw : Cbw) (buff : BitVec 32) : BulkSys :=
  { s with
    msch := { s.msch with cbw := cbw }
    call := some (mschRequests { s.msch with cbw := cbw } buff) }

theorem start_cases (s : BulkSys) (dir : Dir) (buff sector : BitVec 32) (count : BitVec 8) :
    s.start dir buff sector count = (.none, s) ∨ s.isInitialized = true ∧
      ∃ cbw, s.start dir buff sector count = (.begun, s.begun cbw buff) := by
  unfold BulkSys.start
  split
  · rename_i hinit
    exact Or.inr ⟨hinit, _, rfl⟩
  · exact Or.inl rfl

/-- The disk function of a direction. -/
def Dir.call (dir : Dir) (buff sector count : BitVec 32) (pdrv : BitVec 8) : ControllerCall :=
  match dir with
  | .read => .diskRead pdrv buff sector count
  | .write => .diskWrite pdrv buff sector count

theorem usbDisk_eq (dir : Dir) (s : UsbDrives) (pdrv : BitVec 8) (buff sector count : BitVec 32) :
    usbDisk dir s pdrv buff sector count =
      onDrive s pdrv (dir.call buff sector count) .notrdy := by
  cases dir <;> rfl

theorem serve_called (d : Device) (s : BulkSys) (dir : Dir) (hcd : ℕ) (pdrv : BitVec 8)
    (buff sector count : BitVec 32) :
    s.serve d (.called hcd (dir.call buff sector count pdrv)) =
      if hcd = d.hcd ∧ pdrv = d.addr - 1#8 then s.start dir buff sector (count.setWidth 8)
      else (.none, s) := by
  cases dir <;> rfl

/-- **A call** is refused, or it gives the drive a command. -/
theorem call_cases (d : Device) (s : BulkSys) (dir : Dir) (pdrv : BitVec 8)
    (buff sector count : BitVec 32) :
    (∃ o, bulkStep d s (.call dir pdrv buff sector count) = (o, s) ∧
        (o = .none ∨ o = .returned .notrdy)) ∨
      s.call = none ∧ s.isInitialized = true ∧
        ∃ cbw, bulkStep d s (.call dir pdrv buff sector count) = (.begun, s.begun cbw buff) := by
  rw [bulkStep]
  split
  · rename_i hcall
    rw [usbDisk_eq]
    rcases onDrive_cases s.drives pdrv (dir.call buff sector count) DResult.notrdy with
      hd | hd | ⟨hcd, p, hd⟩
    · rw [hd]
      exact Or.inl ⟨_, rfl, Or.inl rfl⟩
    · rw [hd]
      exact Or.inl ⟨_, rfl, Or.inr rfl⟩
    · simp only [hd, serve_called]
      split
      · rcases start_cases s dir buff sector (count.setWidth 8) with hs | ⟨hinit, cbw, hs⟩
        · exact Or.inl ⟨_, hs, Or.inl rfl⟩
        · exact Or.inr ⟨hcall, hinit, cbw, hs⟩
      · exact Or.inl ⟨_, rfl, Or.inl rfl⟩
  · exact Or.inl ⟨_, rfl, Or.inl rfl⟩

/-- A drive that has been given a request. -/
def BulkSys.queued (s : BulkSys) (r : Request) (rs : List Request) (k : Fin 10) : BulkSys :=
  { s with
    ohci := s.ohci.insert r.pipe k (xferTd r.pipe r.buffer r.totalBytes r.int)
    ed := Function.update s.ed r.pipe ((s.ed r.pipe).insert k)
    call := some rs }

/-- **A request** ends the call, or hangs a descriptor that was not in use on its endpoint. -/
theorem issue_cases {s : BulkSys} {r : Request} {rs : List Request}
    (hcall : s.call = some (r :: rs)) :
    s.issue = (.returned .error, { s with call := none }) ∨
      ∃ k, (s.ohci.gtd k).used = false ∧ s.issue = (.queued r.phase k, s.queued r rs k) := by
  unfold BulkSys.issue
  rw [hcall]
  dsimp only
  rcases pipeQueueXfer_cases s.ohci r.pipe r.buffer r.totalBytes r.int with
    ⟨hne, hsame⟩ | ⟨k, hk, hq⟩
  · left
    generalize pipeQueueXfer s.ohci r.pipe r.buffer r.totalBytes r.int = x at hne hsame
    obtain ⟨e, o⟩ := x
    obtain rfl : o = s.ohci := hsame
    cases e with
    | none => exact absurd rfl hne
    | notEnoughQtd => rfl
    | notSupportedYet => rfl
  · refine Or.inr ⟨k, hk, ?_⟩
    simp only [hq, OhciDevice.insert, List.getLast?_concat]
    rfl

/-- A drive that has handed back the first descriptor of an endpoint. -/
def BulkSys.retired (s : BulkSys) (p : Fin 5) (cc : BitVec 4) (k : Fin 10) (rest : List (Fin 10)) :
    BulkSys :=
  { s with
    ed := Function.update s.ed p { s.ed p with queue := rest, halted := cc ≠ ccodeNoError }
    ohci :=
      { s.ohci with
        gtd := Function.update s.ohci.gtd k { s.ohci.gtd k with conditionCode := cc } }
    done := k :: s.done }

/-- **The controller** does nothing, or hands the first descriptor of an endpoint back. -/
theorem complete_cases (s : BulkSys) (p : Fin 5) (cc : BitVec 4) :
    s.complete p cc = (.none, s) ∨
      ∃ k rest, (s.ed p).queue = k :: rest ∧
        s.complete p cc = (.retired k, s.retired p cc k rest) := by
  unfold BulkSys.complete
  split
  · rename_i k rest hq
    split
    · exact Or.inr ⟨k, rest, hq, rfl⟩
    · exact Or.inl rfl
  · exact Or.inl rfl

theorem edOf_xferTd (p : Fin 5) (buffer : BitVec 32) (total : BitVec 16) (int : Bool) :
    edOf (xferTd p buffer total int) = some p := by
  have hp : (BitVec.ofNat 4 (p : ℕ)).toNat = p := by
    rw [BitVec.toNat_ofNat]
    omega
  simp only [edOf, xferTd, hp, p.isLt, dif_pos]

theorem note_queue (e : Ed) (event : XferResult) : (e.note event).queue = e.queue := by
  unfold Ed.note
  split <;> rfl

theorem note_of_noError (e : Ed) {cc : BitVec 4} (h : cc = ccodeNoError) :
    e.note (eventOf cc) = e := by
  simp [Ed.note, eventOf, h]

/-- Handling a list of descriptors frees these, hangs nothing on an endpoint and takes nothing
from it, and leaves the endpoints alone that none of them failed on. -/
structure Handled (l : List (Fin 10)) (x y : (Fin 10 → Gtd) × (Fin 5 → Ed)) : Prop where
  freed : ∀ k ∈ l, y.1 k = { x.1 k with used := false }
  other : ∀ k, k ∉ l → y.1 k = x.1 k
  queue : ∀ p, (y.2 p).queue = (x.2 p).queue
  quiet : ∀ p, (∀ k ∈ l, (x.1 k).conditionCode = ccodeNoError ∨ edOf (x.1 k) ≠ some p) →
    y.2 p = x.2 p

theorem handled_one (x : (Fin 10 → Gtd) × (Fin 5 → Ed)) (k : Fin 10) :
    Handled [k] x (doneTd x k) := by
  refine ⟨?_, ?_, ?_, ?_⟩
  · rintro j hj
    obtain rfl := List.mem_singleton.mp hj
    exact Function.update_self ..
  · intro j hj
    exact Function.update_of_ne (by simpa using hj) ..
  · intro p
    cases hq : edOf (x.1 k) with
    | none => simp only [doneTd, hq]
    | some q =>
      simp only [doneTd, hq]
      by_cases hp : p = q
      · rw [hp, Function.update_self, note_queue]
      · rw [Function.update_of_ne hp]
  · intro p hp
    cases hq : edOf (x.1 k) with
    | none => simp only [doneTd, hq]
    | some q =>
      simp only [doneTd, hq]
      by_cases hpq : p = q
      · subst hpq
        rcases hp k (List.mem_singleton_self k) with hcc | hne
        · rw [Function.update_self, note_of_noError _ hcc]
        · exact absurd hq hne
      · rw [Function.update_of_ne hpq]

theorem Handled.cons {k : Fin 10} {l : List (Fin 10)} {x y z : (Fin 10 → Gtd) × (Fin 5 → Ed)}
    (h₁ : Handled [k] x y) (h₂ : Handled l y z) : Handled (k :: l) x z := by
  -- being freed changes neither the condition code of a descriptor nor its endpoint
  have hsame : ∀ j,
      (y.1 j).conditionCode = (x.1 j).conditionCode ∧ edOf (y.1 j) = edOf (x.1 j) := by
    intro j
    by_cases hj : j ∈ [k]
    · rw [h₁.freed j hj]
      exact ⟨rfl, rfl⟩
    · rw [h₁.other j hj]
      exact ⟨rfl, rfl⟩
  refine ⟨?_, ?_, ?_, ?_⟩
  · intro j hj
    by_cases hl : j ∈ l
    · rw [h₂.freed j hl]
      by_cases hk : j ∈ [k]
      · rw [h₁.freed j hk]
      · rw [h₁.other j hk]
    · have hk : j ∈ [k] := by simpa [hl] using hj
      rw [h₂.other j hl, h₁.freed j hk]
  · intro j hj
    rw [List.mem_cons, not_or] at hj
    rw [h₂.other j hj.2, h₁.other j (by simpa using hj.1)]
  · intro p
    rw [h₂.queue p, h₁.queue p]
  · intro p hp
    rw [h₂.quiet p, h₁.quiet p]
    · intro j hj
      obtain rfl := List.mem_singleton.mp hj
      exact hp j List.mem_cons_self
    · intro j hj
      rw [(hsame j).1, (hsame j).2]
      exact hp j (List.mem_cons_of_mem k hj)

/-- **The interrupt**: the loop of `done_queue_isr`, by induction on the list. -/
theorem handled_foldl (l : List (Fin 10)) (x : (Fin 10 → Gtd) × (Fin 5 → Ed)) :
    Handled l x (l.foldl doneTd x) := by
  induction l generalizing x with
  | nil => exact ⟨by simp, fun _ _ => rfl, fun _ => rfl, fun _ _ => rfl⟩
  | cons k l ih => exact (handled_one x k).cons (ih (doneTd x k))

/-! ### The descriptors of a drive -/

/-- **A descriptor in use is in one place**: those that hang on an endpoint are in use and are
its own, once each, and have not been handed back. -/
structure PoolOk (s : BulkSys) : Prop where
  used : ∀ p, ∀ k ∈ (s.ed p).queue, (s.ohci.gtd k).used = true
  usedDone : ∀ k ∈ s.done, (s.ohci.gtd k).used = true
  index : ∀ p, ∀ k ∈ (s.ed p).queue, edOf (s.ohci.gtd k) = some p
  nodup : ∀ p, (s.ed p).queue.Nodup
  apart : ∀ p, ∀ k ∈ (s.ed p).queue, k ∉ s.done

/-- The input endpoint has not failed, and nothing handed back will say it has. -/
structure InputOk (s : BulkSys) : Prop where
  ne : s.msch.bulkIn ≠ s.msch.bulkOut
  tail : (s.ed s.msch.bulkIn).tail = none
  quiet : ∀ k ∈ s.done, (s.ohci.gtd k).conditionCode = ccodeNoError ∨
    edOf (s.ohci.gtd k) ≠ some s.msch.bulkIn

/-- What holds of a drive whether or not there is a call in progress. -/
structure DriveOk (s : BulkSys) : Prop where
  pool : PoolOk s
  input : s.isInitialized = true → InputOk s

section Descriptors

variable {s : BulkSys}

/-- With at most one descriptor on an endpoint, a new one is hung after it. -/
theorem insert_queue {e : Ed} (hroom : e.queue.length ≤ 1) (k : Fin 10) :
    (e.insert k).queue = e.queue ++ [k] := by
  unfold Ed.insert
  match hq : e.queue, hroom with
  | [], _ => rfl
  | [a], _ => rfl

theorem mem_queued {r : Request} (hroom : (s.ed r.pipe).queue.length ≤ 1) (rs : List Request)
    (k j : Fin 10) (q : Fin 5) :
    j ∈ ((s.queued r rs k).ed q).queue ↔ j ∈ (s.ed q).queue ∨ q = r.pipe ∧ j = k := by
  simp only [BulkSys.queued]
  by_cases hq : q = r.pipe
  · subst hq
    rw [Function.update_self, insert_queue hroom, List.mem_append, List.mem_singleton]
    simp
  · rw [Function.update_of_ne hq]
    simp [hq]

theorem PoolOk.mem_retired (h : PoolOk s) {p : Fin 5} {k : Fin 10} {rest : List (Fin 10)}
    (hq : (s.ed p).queue = k :: rest) (cc : BitVec 4) (j : Fin 10) (q : Fin 5) :
    j ∈ ((s.retired p cc k rest).ed q).queue ↔ j ∈ (s.ed q).queue ∧ j ≠ k := by
  have hk : k ∈ (s.ed p).queue := by simp [hq]
  simp only [BulkSys.retired]
  by_cases hqp : q = p
  · subst hqp
    have hnodup := h.nodup q
    rw [hq] at hnodup
    have hout : k ∉ rest := (List.nodup_cons.mp hnodup).1
    rw [Function.update_self, hq, List.mem_cons]
    constructor
    · intro hj
      exact ⟨Or.inr hj, ne_of_mem_of_not_mem hj hout⟩
    · rintro ⟨hj, hne⟩
      exact hj.resolve_left hne
  · rw [Function.update_of_ne hqp]
    refine ⟨fun hj => ⟨hj, ?_⟩, And.left⟩
    -- a descriptor is on the endpoint its index says
    rintro rfl
    exact hqp (Option.some.inj ((h.index q j hj).symm.trans (h.index p j hk)))

/-- Handing a descriptor back changes its condition code only. -/
theorem retired_gtd (s : BulkSys) (p : Fin 5) (cc : BitVec 4) (k : Fin 10) (rest : List (Fin 10))
    (j : Fin 10) :
    ((s.retired p cc k rest).ohci.gtd j).used = (s.ohci.gtd j).used ∧
      edOf ((s.retired p cc k rest).ohci.gtd j) = edOf (s.ohci.gtd j) := by
  simp only [BulkSys.retired]
  by_cases hj : j = k
  · subst hj
    rw [Function.update_self]
    exact ⟨rfl, rfl⟩
  · rw [Function.update_of_ne hj]
    exact ⟨rfl, rfl⟩

theorem PoolOk.retired (h : PoolOk s) {p : Fin 5} {k : Fin 10} {rest : List (Fin 10)}
    (hq : (s.ed p).queue = k :: rest) (cc : BitVec 4) : PoolOk (s.retired p cc k rest) := by
  have hk : k ∈ (s.ed p).queue := by simp [hq]
  refine ⟨?_, ?_, ?_, ?_, ?_⟩
  · intro q j hj
    rw [(retired_gtd s p cc k rest j).1]
    exact h.used q j ((h.mem_retired hq cc j q).mp hj).1
  · intro j hj
    rw [(retired_gtd s p cc k rest j).1]
    rcases List.mem_cons.mp hj with rfl | hj
    · exact h.used p j hk
    · exact h.usedDone j hj
  · intro q j hj
    rw [(retired_gtd s p cc k rest j).2]
    exact h.index q j ((h.mem_retired hq cc j q).mp hj).1
  · intro q
    simp only [BulkSys.retired]
    by_cases hqp : q = p
    · subst hqp
      have hnodup := h.nodup q
      rw [hq] at hnodup
      rw [Function.update_self]
      exact (List.nodup_cons.mp hnodup).2
    · rw [Function.update_of_ne hqp]
      exact h.nodup q
  · intro q j hj
    obtain ⟨hold, hne⟩ := (h.mem_retired hq cc j q).mp hj
    exact fun hmem => (List.mem_cons.mp hmem).elim hne (h.apart q j hold)

theorem PoolOk.queued (h : PoolOk s) {r : Request} (hroom : (s.ed r.pipe).queue.length ≤ 1)
    (rs : List Request) {k : Fin 10} (hk : (s.ohci.gtd k).used = false) :
    PoolOk (s.queued r rs k) := by
  have hnew : ∀ q, k ∉ (s.ed q).queue := fun q hmem => by simp [h.used q k hmem] at hk
  have hdone : k ∉ s.done := fun hmem => by simp [h.usedDone k hmem] at hk
  have hother : ∀ j, j ≠ k → (s.queued r rs k).ohci.gtd j = s.ohci.gtd j := fun j hj =>
    Function.update_of_ne hj ..
  have hself : (s.queued r rs k).ohci.gtd k = xferTd r.pipe r.buffer r.totalBytes r.int :=
    Function.update_self ..
  refine ⟨?_, ?_, ?_, ?_, ?_⟩
  · intro q j hj
    rcases (mem_queued hroom rs k j q).mp hj with hold | ⟨-, rfl⟩
    · rw [hother j (ne_of_mem_of_not_mem hold (hnew q))]
      exact h.used q j hold
    · rw [hself]
      rfl
  · intro j hj
    rw [hother j (ne_of_mem_of_not_mem hj hdone)]
    exact h.usedDone j hj
  · intro q j hj
    rcases (mem_queued hroom rs k j q).mp hj with hold | ⟨rfl, rfl⟩
    · rw [hother j (ne_of_mem_of_not_mem hold (hnew q))]
      exact h.index q j hold
    · rw [hself, edOf_xferTd]
  · intro q
    simp only [BulkSys.queued]
    by_cases hq : q = r.pipe
    · subst hq
      rw [Function.update_self, insert_queue hroom]
      exact List.nodup_append.mpr ⟨h.nodup _, List.nodup_singleton k, fun a ha b hb => by
        rw [List.mem_singleton.mp hb]
        exact ne_of_mem_of_not_mem ha (hnew _)⟩
    · rw [Function.update_of_ne hq]
      exact h.nodup q
  · intro q j hj
    rcases (mem_queued hroom rs k j q).mp hj with hold | ⟨-, rfl⟩
    · exact h.apart q j hold
    · exact hdone

/-- A drive after the interrupt. -/
theorem handled_isr (s : BulkSys) :
    Handled s.done (s.ohci.gtd, s.ed) (s.doneQueueIsr.2.ohci.gtd, s.doneQueueIsr.2.ed) := by
  have hl := handled_foldl s.done.reverse (s.ohci.gtd, s.ed)
  exact ⟨fun k hk => hl.freed k (List.mem_reverse.mpr hk),
    fun k hk => hl.other k fun hmem => hk (List.mem_reverse.mp hmem), hl.queue,
    fun p hp => hl.quiet p fun k hk => hp k (List.mem_reverse.mp hk)⟩

theorem PoolOk.isr (h : PoolOk s) : PoolOk s.doneQueueIsr.2 := by
  have hd := handled_isr s
  have hqueue : ∀ p, (s.doneQueueIsr.2.ed p).queue = (s.ed p).queue := hd.queue
  have hgtd : ∀ p, ∀ k ∈ (s.ed p).queue, s.doneQueueIsr.2.ohci.gtd k = s.ohci.gtd k :=
    fun p k hk => hd.other k (h.apart p k hk)
  refine ⟨?_, by simp [BulkSys.doneQueueIsr], ?_, ?_, by simp [BulkSys.doneQueueIsr]⟩
  · intro p k hk
    rw [hqueue] at hk
    rw [hgtd p k hk]
    exact h.used p k hk
  · intro p k hk
    rw [hqueue] at hk
    rw [hgtd p k hk]
    exact h.index p k hk
  · intro p
    rw [hqueue]
    exact h.nodup p

/-- The descriptors and endpoints are all that matters. -/
theorem DriveOk.frame (h : DriveOk s) {s' : BulkSys} (hohci : s'.ohci = s.ohci)
    (hed : s'.ed = s.ed) (hdone : s'.done = s.done) (hinit : s'.isInitialized = s.isInitialized)
    (hin : s'.msch.bulkIn = s.msch.bulkIn) (hout : s'.msch.bulkOut = s.msch.bulkOut) :
    DriveOk s' := by
  obtain ⟨⟨hused, husedDone, hindex, hnodup, hapart⟩, hinput⟩ := h
  refine ⟨⟨?_, ?_, ?_, ?_, ?_⟩, fun hup => ?_⟩
  · rwa [hed, hohci]
  · rwa [hdone, hohci]
  · rwa [hed, hohci]
  · rwa [hed]
  · rwa [hed, hdone]
  · obtain ⟨hne, htail, hquiet⟩ := hinput (hinit ▸ hup)
    exact ⟨by rwa [hin, hout], by rwa [hed, hin], by rwa [hdone, hohci, hin]⟩

theorem DriveOk.isr (h : DriveOk s) : DriveOk s.doneQueueIsr.2 := by
  refine ⟨h.pool.isr, fun hinit => ?_⟩
  have hin := h.input hinit
  have hsame : s.doneQueueIsr.2.ed s.msch.bulkIn = s.ed s.msch.bulkIn :=
    (handled_isr s).quiet s.msch.bulkIn hin.quiet
  refine ⟨hin.ne, ?_, by simp [BulkSys.doneQueueIsr]⟩
  change (s.doneQueueIsr.2.ed s.msch.bulkIn).tail = none
  rw [hsame]
  exact hin.tail

theorem DriveOk.retired (h : DriveOk s) {p : Fin 5} {k : Fin 10} {rest : List (Fin 10)}
    (hq : (s.ed p).queue = k :: rest) {cc : BitVec 4}
    (hcc : p = s.msch.bulkIn → cc = ccodeNoError) : DriveOk (s.retired p cc k rest) := by
  have hk : k ∈ (s.ed p).queue := by simp [hq]
  refine ⟨h.pool.retired hq cc, fun hinit => ?_⟩
  have hin := h.input hinit
  refine ⟨hin.ne, ?_, ?_⟩
  · simp only [BulkSys.retired]
    by_cases hp : s.msch.bulkIn = p
    · subst hp
      rw [Function.update_self]
      exact hin.tail
    · rw [Function.update_of_ne hp]
      exact hin.tail
  · intro j hj
    rw [(retired_gtd s p cc k rest j).2]
    simp only [BulkSys.retired] at hj ⊢
    by_cases hjk : j = k
    · subst hjk
      rw [Function.update_self, h.pool.index p j hk]
      by_cases hp : p = s.msch.bulkIn
      · exact Or.inl (hcc hp)
      · exact Or.inr fun heq => hp (Option.some.inj heq)
    · rw [Function.update_of_ne hjk]
      exact hin.quiet j ((List.mem_cons.mp hj).resolve_left hjk)

theorem DriveOk.queued (h : DriveOk s) {r : Request} (hroom : (s.ed r.pipe).queue.length ≤ 1)
    (rs : List Request) {k : Fin 10} (hk : (s.ohci.gtd k).used = false) :
    DriveOk (s.queued r rs k) := by
  refine ⟨h.pool.queued hroom rs hk, fun hinit => ?_⟩
  have hin := h.input hinit
  refine ⟨hin.ne, ?_, ?_⟩
  · simp only [BulkSys.queued]
    by_cases hp : s.msch.bulkIn = r.pipe
    · rw [hp, Function.update_self]
      exact hp ▸ hin.tail
    · rw [Function.update_of_ne hp]
      exact hin.tail
  · intro j hj
    have hjk : j ≠ k := by
      rintro rfl
      simp [h.pool.usedDone j hj] at hk
    have hsame : (s.queued r rs k).ohci.gtd j = s.ohci.gtd j := Function.update_of_ne hjk ..
    rw [hsame]
    exact hin.quiet j hj

/-- Unplugging frees no descriptor and takes none from an endpoint. -/
theorem DriveOk.close (h : DriveOk s) (d : Device) : DriveOk (s.mschClose d) := by
  have hqueue : ∀ p, ((s.mschClose d).ed p).queue = (s.ed p).queue := by
    intro p
    simp only [BulkSys.mschClose, closePipe, Function.update_apply]
    split
    · rename_i hp
      split
      · rename_i hp'
        rw [hp, hp']
      · rw [hp]
    · split
      · rename_i hp
        rw [hp]
      · rfl
  refine ⟨⟨?_, h.pool.usedDone, ?_, ?_, ?_⟩,
    fun hinit => absurd hinit (by simp [BulkSys.mschClose])⟩
  · intro p k hk
    exact h.pool.used p k (hqueue p ▸ hk)
  · intro p k hk
    exact h.pool.index p k (hqueue p ▸ hk)
  · intro p
    rw [hqueue]
    exact h.pool.nodup p
  · intro p k hk
    exact h.pool.apart p k (hqueue p ▸ hk)

end Descriptors

end Usb

end BareMetal
