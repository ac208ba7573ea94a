import BareMetal.FatFs.Defs

/-!
# Error numbers of the libc file layer

`libc_io.c` answers newlib: a call that fails stores an error number in the reentrancy
record of the calling core and returns a negative result. The error numbers are the ones
the file uses, and `BareMetal.LibcIo.rc2errno` is its translation of a FatFs result.
-/

namespace BareMetal

namespace LibcIo

/-- The error numbers `libc_io.c` stores. -/
inductive Errno where
  | eio | eagain | enoent | einval | eperm | eexist | ebadf | erofs | enomem | emfile
  deriving DecidableEq, Repr

/-- What a call stores in `r->_errno` for a FatFs result; `none` stands for the `0` of
`FR_OK`. -/
def rc2errno : FatFs.FResult → Option Errno
  | .ok => none
  | .diskErr => some .eio
  | .notReady => some .eagain
  | .noFile => some .enoent
  | .noPath => some .enoent
  | .invalidName => some .einval
  | .denied => some .eperm
  | .exist => some .eexist
  | .invalidObject => some .ebadf
  | .writeProtected => some .erofs
  | .notEnoughCore => some .enomem
  | .tooManyOpenFiles => some .emfile
  | .invalidParameter => some .einval
  | _ => some .eio

/-- Only success is reported without an error number. -/
theorem rc2errno_eq_none_iff {rc : FatFs.FResult} : rc2errno rc = none ↔ rc = .ok := by
  cases rc <;> simp [rc2errno]

/-- Only a missing work buffer is reported as lack of memory. -/
theorem rc2errno_eq_enomem_iff {rc : FatFs.FResult} :
    rc2errno rc = some .enomem ↔ rc = .notEnoughCore := by
  cases rc <;> simp [rc2errno]

end LibcIo

end BareMetal
