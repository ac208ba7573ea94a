import BareMetal.Usb.Routing
import Mathlib.Algebra.Order.Ring.Nat
import Mathlib.Tactic.Common

/-!
# Sector transfers over USB

A sector count of FatFs travels through four functions of four widths before it is a
transfer descriptor of the OHCI controller. `usb_disk_read` passes it as a `UINT` to a
function that is defined with a `BYTE`; `tuh_msc_read10` multiplies it with the block size
of the drive into the 32-bit `total_bytes` of the command block; the host controller driver
takes that as a `uint16_t`; and the descriptor keeps it in thirteen bits. On top of that a
general transfer descriptor reaches over two pages of 4 KiB at most.

The driver is modelled down to the pool of transfer descriptors of a device and the order
in which they are queued. A command queues three: the command block, the data and the
status, so that the data phase is the *second* (`BareMetal.Usb.dataTd`), and what is in it
is settled once for both directions (`BareMetal.Usb.dataTd_mschCommandXfer`).
`BareMetal.Usb.xferOk_iff` then says for which block sizes, counts and addresses the
descriptor describes what FatFs asked for.
-/

namespace BareMetal

namespace Usb

open FatFs (DResult has)

/-! ### The transfer descriptors of a device -/

/-- `ohci_gtd_t`, without the link to the next one and the fields the controller writes. -/
structure Gtd where
  used : Bool
  index : BitVec 4
  expectedBytes : BitVec 13
  bufferRounding : BitVec 1
  delayInterrupt : BitVec 3
  conditionCode : BitVec 4
  currentBufferPointer : BitVec 32
  bufferEnd : BitVec 32
  deriving DecidableEq, Repr

/-- `OHCI_INT_ON_COMPLETE_YES`. -/
def intOnCompleteYes : BitVec 3 := 0b000#3

/-- `OHCI_INT_ON_COMPLETE_NO`. -/
def intOnCompleteNo : BitVec 3 := 0b111#3

/-- `OHCI_CCODE_NOT_ACCESSED`. -/
def ccodeNotAccessed : BitVec 4 := 14#4

/-- `gtd_init`. -/
def gtdInit (dataPtr : BitVec 32) (totalBytes : BitVec 16) : Gtd where
  used := true
  index := 0#4
  -- a field of thirteen bits
  expectedBytes := totalBytes.setWidth 13
  bufferRounding := 1#1
  delayInterrupt := intOnCompleteNo
  conditionCode := ccodeNotAccessed
  currentBufferPointer := dataPtr
  bufferEnd := if totalBytes = 0#16 then 0#32 else dataPtr + totalBytes.setWidth 32 - 1#32

/-- The entry of a device in `ohci_data`: which of its `HCD_MAX_ENDPOINT` endpoints are
isochronous, its `HCD_MAX_XFER` transfer descriptors, and which of them were queued on
which endpoint, in that order. -/
structure OhciDevice where
  isIso : Fin 5 → Bool
  gtd : Fin 10 → Gtd
  queue : List (Fin 5 × Fin 10)

/-- The errors of `tusb_error_t` that queueing a transfer can return. -/
inductive TusbError where
  | none | notEnoughQtd | notSupportedYet
  deriving DecidableEq, Repr

/-- `gtd_find_free`. -/
def gtdFindFree (d : OhciDevice) : Option (Fin 10) := Fin.find? fun k => !(d.gtd k).used

/-- The descriptor a transfer of `total_bytes` is given. -/
def xferTd (pipe : Fin 5) (buffer : BitVec 32) (totalBytes : BitVec 16) (intOnComplete : Bool) :
    Gtd :=
  { gtdInit buffer totalBytes with
    index := BitVec.ofNat 4 pipe
    delayInterrupt := if intOnComplete then intOnCompleteYes else intOnCompleteNo }

/-- Fill descriptor `k` and hang it on an endpoint (`td_insert_to_ed`). -/
def OhciDevice.insert (d : OhciDevice) (pipe : Fin 5) (k : Fin 10) (td : Gtd) : OhciDevice :=
  { d with gtd := Function.update d.gtd k td, queue := d.queue ++ [(pipe, k)] }

/-- `pipe_queue_xfer`. -/
def pipeQueueXfer (d : OhciDevice) (pipe : Fin 5) (buffer : BitVec 32) (totalBytes : BitVec 16)
    (intOnComplete : Bool) : TusbError × OhciDevice :=
  if !d.isIso pipe then
    match gtdFindFree d with
    | none => (.notEnoughQtd, d)
    | some k => (.none, d.insert pipe k (xferTd pipe buffer totalBytes intOnComplete))
  else
    (.notSupportedYet, d)

/-- `hcd_pipe_queue_xfer`. -/
def hcdPipeQueueXfer (d : OhciDevice) (pipe : Fin 5) (buffer : BitVec 32)
    (totalBytes : BitVec 16) : TusbError × OhciDevice :=
  pipeQueueXfer d pipe buffer totalBytes false

/-- `hcd_pipe_xfer`, which ignores its last argument and always asks for an interrupt. -/
def hcdPipeXfer (d : OhciDevice) (pipe : Fin 5) (buffer : BitVec 32) (totalBytes : BitVec 16)
    (_intOnComplete : Bool) : TusbError × OhciDevice :=
  pipeQueueXfer d pipe buffer totalBytes true

/-! ### A mass-storage command -/

/-- `msc_cbw_t`, the command block wrapper, with the three fields of a read or write command
in place of its bytes. -/
structure Cbw where
  totalBytes : BitVec 32
  dir : BitVec 8
  lun : BitVec 8
  cmdLen : BitVec 8
  cmdCode : BitVec 8
  lba : BitVec 32
  blockCount : BitVec 16
  deriving DecidableEq, Repr

/-- `msch_interface_t`: the two pipes, the block size the drive reported, the command block,
and where the command block and the status block lie. -/
structure MschInterface where
  bulkIn : Fin 5
  bulkOut : Fin 5
  blockSize : BitVec 16
  cbw : Cbw
  cbwAddr : BitVec 32
  cswAddr : BitVec 32
  deriving DecidableEq, Repr

/-- A drive: its entry in `msch_data` and its entry in `ohci_data`. -/
structure Storage where
  msch : MschInterface
  ohci : OhciDevice

/-- `TUSB_DIR_IN_MASK`. -/
def dirInMask : BitVec 8 := 0x80#8

/-- `TU_ASSERT_ERR`: go on only if the call before succeeded. -/
def assertErr (x : TusbError × OhciDevice) (f : OhciDevice → TusbError × OhciDevice) :
    TusbError × OhciDevice :=
  if x.1 = .none then f x.2 else x

/-- `msch_command_xfer`. A data phase has a buffer; the status phase comes in any case. -/
def mschCommandXfer (m : MschInterface) (d : OhciDevice) (buffer : BitVec 32) :
    TusbError × OhciDevice :=
  let total := m.cbw.totalBytes.setWidth 16
  let data :=
    if buffer ≠ 0#32 then
      if has m.cbw.dir dirInMask then
        assertErr (hcdPipeXfer d m.bulkOut m.cbwAddr 31#16 false) fun d =>
          hcdPipeQueueXfer d m.bulkIn buffer total
      else
        assertErr (hcdPipeQueueXfer d m.bulkOut m.cbwAddr 31#16) fun d =>
          hcdPipeXfer d m.bulkOut buffer total false
    else
      (.none, d)
  assertErr data fun d => hcdPipeXfer d m.bulkIn m.cswAddr 13#16 true

/-- The direction of a sector transfer. -/
inductive Dir where
  | read | write
  deriving DecidableEq, Repr

/-- `cbw.dir` of a direction: `TUSB_DIR_IN_MASK` or `TUSB_DIR_OUT`. -/
def Dir.bits : Dir → BitVec 8
  | .read => dirInMask
  | .write => 0x00#8

/-- The operation code of a direction: `SCSI_CMD_READ_10` or `SCSI_CMD_WRITE_10`. -/
def Dir.cmdCode : Dir → BitVec 8
  | .read => 0x28#8
  | .write => 0x2A#8

/-- `tuh_msc_read10` and `tuh_msc_write10`, which differ in the direction only. The product
is one of two 16-bit numbers, made in `int` and stored in 32 bits. -/
def tuhMscXfer10 (dir : Dir) (st : Storage) (lun : BitVec 8) (buffer lba : BitVec 32)
    (blockCount : BitVec 16) : TusbError × Storage :=
  let cbw : Cbw :=
    { totalBytes := st.msch.blockSize.setWidth 32 * blockCount.setWidth 32
      dir := dir.bits
      lun := lun
      cmdLen := 10#8
      cmdCode := dir.cmdCode
      lba := lba
      blockCount := blockCount }
  let msch := { st.msch with cbw := cbw }
  let r := mschCommandXfer msch st.ohci buffer
  (r.1, ⟨msch, r.2⟩)

/-- `tuh_msc_read10`. -/
def tuhMscRead10 := tuhMscXfer10 .read

/-- `tuh_msc_write10`. -/
def tuhMscWrite10 := tuhMscXfer10 .write

/-- `disk_read` of a controller, up to the wait for the end of the transfer, which reports
success. The drive's address is `pdrv + 1`, so its data is the entry `pdrv`. -/
def diskRead (st : Storage) (buff sector : BitVec 32) (count : BitVec 8) : DResult × Storage :=
  let r := tuhMscRead10 st 0#8 buff sector (count.setWidth 16)
  (if r.1 ≠ .none then .error else .ok, r.2)

/-- `disk_write` of a controller, likewise. -/
def diskWrite (st : Storage) (buff sector : BitVec 32) (count : BitVec 8) : DResult × Storage :=
  let r := tuhMscWrite10 st 0#8 buff sector (count.setWidth 16)
  (if r.1 ≠ .none then .error else .ok, r.2)

/-- The drives of the three host stacks, by controller and drive index. -/
abbrev Hosts := ℕ → BitVec 8 → Storage

/-- What a dispatched read or write makes its drive do. The definitions of the disk layer
take the count as a `BYTE`. -/
def Hosts.serve (hosts : Hosts) : Answer DResult → Option (DResult × Storage)
  | .called hcd (.diskRead pdrv buff sector count) =>
      some (diskRead (hosts hcd pdrv) buff sector (count.setWidth 8))
  | .called hcd (.diskWrite pdrv buff sector count) =>
      some (diskWrite (hosts hcd pdrv) buff sector (count.setWidth 8))
  | _ => none

/-- A sector transfer of FatFs: `usb_disk_read` or `usb_disk_write`, and what follows. -/
def usbXfer (s : UsbDrives) (hosts : Hosts) (dir : Dir) (pdrv : BitVec 8)
    (buff sector count : BitVec 32) : Option (DResult × Storage) :=
  match dir with
  | .read => (usbDiskRead s pdrv buff sector count).bind hosts.serve
  | .write => (usbDiskWrite s pdrv buff sector count).bind hosts.serve

/-! ### The data phase of a command -/

/-- The data-phase descriptor of a command that took `d` to `d'`: the second of the ones it
queued, if it queued two. -/
def dataTd (d d' : OhciDevice) : Option Gtd :=
  ((d'.queue.drop d.queue.length)[1]?).map fun q => d'.gtd q.2

/-- **Queueing a transfer** either fails and changes nothing, or fills one unused
descriptor and hangs it on the endpoint. -/
theorem pipeQueueXfer_cases (d : OhciDevice) (pipe : Fin 5) (buffer : BitVec 32)
    (total : BitVec 16) (int : Bool) :
    ((pipeQueueXfer d pipe buffer total int).1 ≠ .none ∧
        (pipeQueueXfer d pipe buffer total int).2 = d) ∨
      ∃ k, (d.gtd k).used = false ∧
        pipeQueueXfer d pipe buffer total int =
          (.none, d.insert pipe k (xferTd pipe buffer total int)) := by
  unfold pipeQueueXfer
  split
  · split
    · exact Or.inl ⟨by simp, rfl⟩
    · rename_i k hk
      refine Or.inr ⟨k, ?_, rfl⟩
      simpa using Fin.eq_true_of_find?_eq_some hk
  · exact Or.inl ⟨by simp, rfl⟩

theorem assertErr_of_ne {x : TusbError × OhciDevice} (hx : x.1 ≠ .none)
    (f : OhciDevice → TusbError × OhciDevice) : assertErr x f = x := if_neg hx

theorem assertErr_none {d : OhciDevice} (f : OhciDevice → TusbError × OhciDevice) :
    assertErr (.none, d) f = f d := if_pos rfl

theorem dataTd_self (d : OhciDevice) : dataTd d d = none := by
  simp [dataTd]

theorem dataTd_one (d : OhciDevice) (p : Fin 5) (k : Fin 10) (td : Gtd) :
    dataTd d (d.insert p k td) = none := by
  simp [dataTd, OhciDevice.insert]

theorem dataTd_two (d : OhciDevice) (p q : Fin 5) (k l : Fin 10) (td td' : Gtd) :
    dataTd d ((d.insert p k td).insert q l td') = some td' := by
  simp [dataTd, OhciDevice.insert]

/-- A third descriptor does not disturb the second: it takes one that is not in use. -/
theorem dataTd_three (d : OhciDevice) (p q r : Fin 5) (k l m : Fin 10) (td td' td'' : Gtd)
    (hm : m ≠ l) :
    dataTd d (((d.insert p k td).insert q l td').insert r m td'') = some td' := by
  simp [dataTd, OhciDevice.insert, Function.update_of_ne hm.symm]

/-- The status phase, after a data phase that went well. -/
theorem dataTd_status (d : OhciDevice) (p q r : Fin 5) (k l : Fin 10) (td td' : Gtd)
    (hused : td'.used = true) (buffer : BitVec 32) (total : BitVec 16) (int : Bool) :
    dataTd d (pipeQueueXfer ((d.insert p k td).insert q l td') r buffer total int).2 =
      some td' := by
  rcases pipeQueueXfer_cases ((d.insert p k td).insert q l td') r buffer total int with
    ⟨-, h⟩ | ⟨m, hm, h⟩
  · rw [h, dataTd_two]
  · rw [h]
    refine dataTd_three d p q r k l m td td' _ ?_
    rintro rfl
    simp [OhciDevice.insert, hused] at hm

/-- Two transfers and the status phase: the data phase is the second transfer, or there is
none. -/
theorem dataTd_phases {d : OhciDevice} {p q r : Fin 5} {b₁ b₂ b₃ : BitVec 32}
    {n₁ n₂ n₃ : BitVec 16} {i₁ i₂ i₃ : Bool} {td : Gtd}
    (h : dataTd d (assertErr (assertErr (pipeQueueXfer d p b₁ n₁ i₁) fun d =>
      pipeQueueXfer d q b₂ n₂ i₂) fun d => pipeQueueXfer d r b₃ n₃ i₃).2 = some td) :
    td = xferTd q b₂ n₂ i₂ := by
  rcases pipeQueueXfer_cases d p b₁ n₁ i₁ with ⟨hne, hd⟩ | ⟨k, -, hk⟩
  · -- the command block was not queued
    rw [assertErr_of_ne hne, assertErr_of_ne hne, hd, dataTd_self] at h
    simp at h
  · rw [hk, assertErr_none] at h
    rcases pipeQueueXfer_cases (d.insert p k (xferTd p b₁ n₁ i₁)) q b₂ n₂ i₂ with
      ⟨hne, hd⟩ | ⟨l, -, hl⟩
    · rw [assertErr_of_ne hne, hd, dataTd_one] at h
      simp at h
    · rw [hl, assertErr_none, dataTd_status _ _ _ _ _ _ _ _ rfl] at h
      exact (Option.some.inj h).symm

/-- **The data phase of a command**, in either direction, is a transfer of the low sixteen
bits of `total_bytes` at the caller's buffer. -/
theorem dataTd_mschCommandXfer {m : MschInterface} {d : OhciDevice} {buffer : BitVec 32}
    {td : Gtd} (h : dataTd d (mschCommandXfer m d buffer).2 = some td) :
    ∃ pipe int, td = xferTd pipe buffer (m.cbw.totalBytes.setWidth 16) int := by
  simp only [mschCommandXfer, hcdPipeXfer, hcdPipeQueueXfer] at h
  split at h
  · split at h
    · exact ⟨_, _, dataTd_phases h⟩
    · exact ⟨_, _, dataTd_phases h⟩
  · rw [assertErr_none] at h
    rcases pipeQueueXfer_cases d m.bulkIn m.cswAddr 13#16 true with ⟨-, hd⟩ | ⟨k, -, hk⟩
    · rw [hd, dataTd_self] at h
      simp at h
    · rw [hk, dataTd_one] at h
      simp at h

/-! ### What the descriptor describes -/

/-- **The transfer is what FatFs asked for**: the command block and the descriptor say
`count` sectors of 512 bytes, the descriptor begins at the buffer and ends with it, and what
lies between touches two pages of 4 KiB at most. -/
structure XferOk (cbw : Cbw) (td : Gtd) (buff count : BitVec 32) : Prop where
  total : cbw.totalBytes.toNat = count.toNat * 512
  expected : td.expectedBytes.toNat = count.toNat * 512
  begins : td.currentBufferPointer = buff
  ends : td.bufferEnd.toNat = buff.toNat + count.toNat * 512 - 1
  pages : td.bufferEnd.toNat / 4096 ≤ td.currentBufferPointer.toNat / 4096 + 1

/-- The last byte of a transfer, without a wrap. -/
theorem toNat_bufferEnd {buff : BitVec 32} {total : BitVec 16} (h0 : total ≠ 0#16)
    (hfit : buff.toNat + total.toNat ≤ 2 ^ 32) :
    (gtdInit buff total).bufferEnd.toNat = buff.toNat + total.toNat - 1 := by
  have hpos : 0 < total.toNat := by
    rcases Nat.eq_zero_or_pos total.toNat with hz | hpos
    · exact absurd (BitVec.eq_of_toNat_eq hz) h0
    · exact hpos
  have hb := buff.isLt
  have ht := total.isLt
  simp only [gtdInit, if_neg h0, BitVec.toNat_sub, BitVec.toNat_add, BitVec.toNat_setWidth,
    BitVec.toNat_ofNat]
  omega

/-- The command block of a transfer counts in the drive's own block size. -/
theorem toNat_totalBytes {blockSize : BitVec 16} {count : BitVec 32} (hcount : count.toNat ≤ 128) :
    (blockSize.setWidth 32 * ((count.setWidth 8).setWidth 16).setWidth 32).toNat =
      blockSize.toNat * count.toNat := by
  have hb := blockSize.isLt
  have hprod : blockSize.toNat * count.toNat ≤ 65535 * 128 :=
    Nat.mul_le_mul (by omega) hcount
  simp only [BitVec.toNat_mul, BitVec.toNat_setWidth]
  rw [Nat.mod_eq_of_lt (by omega : blockSize.toNat < 2 ^ 32),
    Nat.mod_eq_of_lt (by omega : count.toNat < 2 ^ 8),
    Nat.mod_eq_of_lt (by omega : count.toNat < 2 ^ 16),
    Nat.mod_eq_of_lt (by omega : count.toNat < 2 ^ 32)]
  exact Nat.mod_eq_of_lt (by omega)

/-- The arithmetic of a transfer, whatever drive it goes to. -/
theorem xferOk_xferTd_iff {cbw : Cbw} {blockSize : ℕ} {buff count : BitVec 32}
    (htotal : cbw.totalBytes.toNat = blockSize * count.toNat)
    (hpos : 1 ≤ count.toNat) (hfit : buff.toNat + count.toNat * 512 ≤ 2 ^ 32) (pipe : Fin 5)
    (int : Bool) :
    XferOk cbw (xferTd pipe buff (cbw.totalBytes.setWidth 16) int) buff count ↔
      blockSize = 512 ∧ count.toNat ≤ 15 ∧ buff.toNat % 4096 + count.toNat * 512 ≤ 8192 := by
  have hexp : (xferTd pipe buff (cbw.totalBytes.setWidth 16) int).expectedBytes.toNat =
      cbw.totalBytes.toNat % 2 ^ 16 % 2 ^ 13 := by
    simp [xferTd, gtdInit, BitVec.toNat_setWidth]
  constructor
  · rintro ⟨htot, hexpected, -, hends, hpages⟩
    have hblock : blockSize = 512 := by
      rw [htotal, Nat.mul_comm] at htot
      exact Nat.eq_of_mul_eq_mul_left hpos htot
    refine ⟨hblock, by omega, ?_⟩
    have hbegin : (xferTd pipe buff (cbw.totalBytes.setWidth 16) int).currentBufferPointer =
        buff := rfl
    -- the last byte lies on the page of the first one or on the next
    rw [hbegin, hends] at hpages
    omega
  · rintro ⟨rfl, hcount, hpage⟩
    have hlow : (cbw.totalBytes.setWidth 16).toNat = count.toNat * 512 := by
      rw [BitVec.toNat_setWidth, htotal]
      omega
    have hne : cbw.totalBytes.setWidth 16 ≠ 0#16 := by
      intro h0
      rw [h0] at hlow
      simp at hlow
      omega
    have hend : (xferTd pipe buff (cbw.totalBytes.setWidth 16) int).bufferEnd.toNat =
        buff.toNat + count.toNat * 512 - 1 := by
      have := toNat_bufferEnd hne (by omega : buff.toNat + (cbw.totalBytes.setWidth 16).toNat ≤ _)
      rw [hlow] at this
      exact this
    refine ⟨by omega, by omega, rfl, hend, ?_⟩
    rw [hend]
    have hbegin : (xferTd pipe buff (cbw.totalBytes.setWidth 16) int).currentBufferPointer =
        buff := rfl
    rw [hbegin]
    omega

/-- A transfer to a slot that holds a device runs the command on that device's drive. -/
theorem usbXfer_of_holds {s : UsbDrives} {i : Fin 4} {d : Device} (hd : Holds s i d)
    (hosts : Hosts) (dir : Dir) (buff sector count : BitVec 32) :
    ∃ r, usbXfer s hosts dir (pdrvOf i) buff sector count =
      some (r, (tuhMscXfer10 dir (hosts d.hcd (d.addr - 1#8)) 0#8 buff sector
        ((count.setWidth 8).setWidth 16)).2) := by
  have hhcd : (s i).hcd = d.hcd := by rw [hd]
  have haddr : (s i).devAddr = d.addr := by rw [hd]
  have hpos := d.hcd_pos
  have hle := d.hcd_le
  have h0 : (s i).hcd ≠ 0 := by omega
  have h3 : (s i).hcd ≤ 3 := by omega
  cases dir with
  | read =>
    rw [usbXfer, usbDiskRead, onDrive_called h0 h3, hhcd, haddr]
    exact ⟨_, rfl⟩
  | write =>
    rw [usbXfer, usbDiskWrite, onDrive_called h0 h3, hhcd, haddr]
    exact ⟨_, rfl⟩

/-- **What FatFs asks a mounted USB drive for is what the controller is told to move
exactly when** the drive's blocks are 512 bytes, the count is at most fifteen, and the
buffer does not reach over a second page boundary. -/
theorem xferOk_iff {s : UsbDrives} {i : Fin 4} {d : Device} (hd : Holds s i d) (hosts : Hosts)
    (dir : Dir) {buff sector count : BitVec 32} (hpos : 1 ≤ count.toNat)
    (hle : count.toNat ≤ 128) (hfit : buff.toNat + count.toNat * 512 ≤ 2 ^ 32)
    {r : DResult} {st : Storage}
    (hx : usbXfer s hosts dir (pdrvOf i) buff sector count = some (r, st)) {td : Gtd}
    (htd : dataTd (hosts d.hcd (d.addr - 1#8)).ohci st.ohci = some td) :
    XferOk st.msch.cbw td buff count ↔
      (hosts d.hcd (d.addr - 1#8)).msch.blockSize.toNat = 512 ∧ count.toNat ≤ 15 ∧
        buff.toNat % 4096 + count.toNat * 512 ≤ 8192 := by
  obtain ⟨r', hr'⟩ := usbXfer_of_holds hd hosts dir buff sector count
  rw [hr'] at hx
  obtain ⟨-, rfl⟩ := Prod.mk.inj (Option.some.inj hx)
  obtain ⟨pipe, int, rfl⟩ := dataTd_mschCommandXfer htd
  exact xferOk_xferTd_iff (toNat_totalBytes hle) hpos hfit pipe int

/-- A drive of blocks of 512 bytes, with nothing queued. -/
def idleStorage : Storage where
  msch := ⟨0, 1, 512#16, ⟨0#32, 0#8, 0#8, 0#8, 0#8, 0#32, 0#16⟩, 0x42000000#32, 0x42000020#32⟩
  ohci := ⟨fun _ => false, fun _ => { gtdInit 0#32 0#16 with used := false }, []⟩

/-- The table with one device of controller 1. -/
def onePlugged : UsbDrives := Function.update UsbDrives.init 0 ⟨1, 1#8⟩

/-- A read of eight sectors into a buffer that begins a page. -/
theorem xferOk_iff_page : ∃ r st td,
    usbXfer onePlugged (fun _ _ => idleStorage) .read (pdrvOf 0) 0x42001000#32 0#32 8#32 =
        some (r, st) ∧
      dataTd idleStorage.ohci st.ohci = some td ∧ XferOk st.msch.cbw td 0x42001000#32 8#32 :=
  ⟨_, _, _, rfl, rfl, (xferOk_iff (show Holds onePlugged 0 firstDevice from rfl)
    (fun _ _ => idleStorage) .read (by decide) (by decide) (by decide) rfl rfl).mpr (by decide)⟩

/-- **Sixteen sectors, one cluster of 8 KiB, are queued as zero expected bytes.** -/
theorem not_xferOk_cluster : ∃ r st td,
    usbXfer onePlugged (fun _ _ => idleStorage) .read (pdrvOf 0) 0x42001000#32 0#32 16#32 =
        some (r, st) ∧
      dataTd idleStorage.ohci st.ohci = some td ∧ td.expectedBytes = 0#13 ∧
      ¬XferOk st.msch.cbw td 0x42001000#32 16#32 :=
  ⟨_, _, _, rfl, rfl, rfl, fun h => absurd h.expected (by decide)⟩

end Usb

end BareMetal
