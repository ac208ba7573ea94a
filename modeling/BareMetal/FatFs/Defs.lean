import Mathlib.Data.Nat.Notation
import Mathlib.Data.Fin.Basic
import Mathlib.Algebra.GroupWithZero.Nat

/-!
# The data of FatFs

The result codes, status bits, mode flags and objects of the FatFs library as it is
configured here (`fatfs/ffconf.h`: read and write, six volumes, no file lock, no
re-entrancy, private sector buffers, long names in a heap buffer).

A `FATFS` object is referred to by a **pointer**, and there are only five objects to point
to: the one `fs.c` owns for the card slot and the four `usb.c` owns for its drives. The type
`BareMetal.FatFs.FsPtr` names them, so that “no object” is `none` and two file objects
hosted by one volume hold the same pointer.

Of the `FATFS` record only what decides whether an object is still valid is kept: the
filesystem type (`0` while nothing is mounted), the physical drive and the mount ID. The
geometry of the volume and the sector window decide what a disk transfer does, and that is
an input of the model (see `BareMetal.FatFs.File`).
-/

namespace BareMetal

namespace FatFs

/-! ### Result codes -/

/-- `FRESULT`, in the order of `ff.h`. -/
inductive FResult where
  | ok | diskErr | intErr | notReady | noFile | noPath | invalidName | denied | exist
  | invalidObject | writeProtected | invalidDrive | notEnabled | noFilesystem | mkfsAborted
  | timeout | locked | notEnoughCore | tooManyOpenFiles | invalidParameter
  deriving DecidableEq, Repr

/-- `DRESULT`, what a disk driver answers to a read or a write. -/
inductive DResult where
  | ok | error | wrprt | notrdy | parerr
  deriving DecidableEq, Repr

/-! ### Bits -/

/-- `DSTATUS`, the status byte of a drive. -/
abbrev DStatus := BitVec 8

/-- `STA_NOINIT`: the drive is not initialized. -/
def staNoinit : DStatus := 0x01#8

/-- `STA_PROTECT`: the drive is write protected. -/
def staProtect : DStatus := 0x04#8

/-- Whether a bit of a mask is set, as C reads `x & mask`. -/
def has {w : ℕ} (x mask : BitVec w) : Bool := x &&& mask != 0#w

@[simp] theorem has_and_not_self {n : ℕ} (x mask : BitVec n) : has (x &&& ~~~mask) mask = false := by
  simp only [has, bne_eq_false_iff_eq]
  rw [BitVec.and_assoc, BitVec.and_comm _ mask, BitVec.and_not_self]
  exact BitVec.and_zero

/-- `FA_READ`. -/
def faRead : BitVec 8 := 0x01#8

/-- `FA_WRITE`. -/
def faWrite : BitVec 8 := 0x02#8

/-- `FA_CREATE_NEW`. -/
def faCreateNew : BitVec 8 := 0x04#8

/-- `FA_CREATE_ALWAYS`. -/
def faCreateAlways : BitVec 8 := 0x08#8

/-- `FA_OPEN_ALWAYS`. -/
def faOpenAlways : BitVec 8 := 0x10#8

/-- `FA_OPEN_APPEND`, which is `FA_OPEN_ALWAYS | FA_SEEKEND`. -/
def faOpenAppend : BitVec 8 := 0x30#8

/-- `FA_SEEKEND`: seek to the end of the file when it is opened. -/
def faSeekend : BitVec 8 := 0x20#8

/-- `FA_MODIFIED`: the file has been modified. -/
def faModified : BitVec 8 := 0x40#8

/-- `FA_DIRTY`: the private sector buffer has to be written back. -/
def faDirty : BitVec 8 := 0x80#8

/-- `AM_RDO`. -/
def amRdo : BitVec 8 := 0x01#8

/-- `AM_DIR`. -/
def amDir : BitVec 8 := 0x10#8

/-- `AM_ARC`. -/
def amArc : BitVec 8 := 0x20#8

/-! ### Objects -/

/-- `FF_VOLUMES`. -/
abbrev ffVolumes : ℕ := 6

instance : NeZero ffVolumes := ⟨by decide⟩

/-- The `FATFS` objects of the program: `Fatfs` of `fs.c` and `fatfs[4]` of `usb.c`. -/
inductive FsPtr where
  /-- `Fatfs`, the card slot. -/
  | sd
  /-- `fatfs[i]`, a USB drive. -/
  | usb (i : Fin 4)
  deriving DecidableEq, Repr

/-- What a `FATFS` object says about its mount. -/
structure Fatfs where
  /-- `0` while nothing is mounted, else the FAT sub-type. -/
  fsType : ℕ
  /-- The physical drive the volume is bound to. -/
  pdrv : Fin ffVolumes
  /-- The mount ID. -/
  id : BitVec 16
  deriving DecidableEq, Repr

/-- `FFOBJID`: which volume an open object belongs to, and its allocation. -/
structure FfObjId where
  /-- The hosting volume; `none` marks a blank object. -/
  fs : Option FsPtr
  /-- The mount ID the volume had when the object was opened. -/
  id : BitVec 16
  sclust : BitVec 32
  objsize : BitVec 32
  deriving DecidableEq, Repr

/-- `FIL`, a file object. -/
structure Fil where
  obj : FfObjId
  flag : BitVec 8
  /-- The abort code of the last hard error. -/
  err : FResult
  fptr : BitVec 32
  deriving DecidableEq, Repr

/-- A zeroed file object, as static storage starts. -/
def Fil.blank : Fil :=
  ⟨⟨none, 0#16, 0#32, 0#32⟩, 0#8, .ok, 0#32⟩

end FatFs

end BareMetal
