import BareMetal.FatFs.Seek
import BareMetal.LibcIo.Descriptors
import Mathlib.Algebra.Order.Ring.Nat
import Mathlib.Tactic.Common

/-!
# What `_lseek_r` says about the position

`_lseek_r` adds up the target of a seek in 32-bit arithmetic, hands it to `f_lseek` as an
unsigned number, and returns the target it has computed – not the position `f_lseek` has moved
to. The two are the same if the target is one that a file can have and `f_lseek` gets there.
If not, the call returns a position the file is not at: `f_lseek` clips the target to the size
of a file that may not be written, stops where the disk is full, and takes a target below the
start of the file for one above 2 GiB. And `f_lseek` moves the position before it knows that
it will not fail, so that a seek that is refused has moved it.

When a call tells the truth (`BareMetal.LibcIo.LseekOk`) is `BareMetal.LibcIo.lseekOk_iff`, by the
object, the target and the answers of the disk; the way of `f_lseek` along the cluster chain is that
of `BareMetal.FatFs.seekIo`.
-/

namespace BareMetal

namespace LibcIo

open FatFs

/-! ### The code -/

/-- A call of `_lseek_r`, with what `f_lseek` meets. -/
structure SeekCall where
  ptr : BitVec 32
  dir : Whence
  env : SeekEnv

/-- What `f_lseek` leaves behind; there is no seek without a valid `whence`. -/
def SeekCall.io (c : SeekCall) (fil : Fil) : BodyIo :=
  match seekDest fil c.ptr c.dir with
  | some dest => seekIo fil c.env dest
  | none => ⟨0#32, none, fil.flag, fil.obj.sclust, fil.obj.objsize, fil.fptr⟩

/-- `_lseek_r` on the descriptor of a slot. -/
def lseekAt (s : Files) (i : Fin maxFileDescriptors) (c : SeekCall) : FileResult × Files :=
  lseekR s (i + 3) c.ptr c.dir (c.io (s.fil i))

/-! ### The property -/

/-- What an offset is relative to. -/
def seekBase (fil : Fil) : Whence → Option ℕ
  | .set => some 0
  | .cur => some fil.fptr.toNat
  | .fromEnd => some fil.obj.objsize.toNat
  | .other => none

/-- **`_lseek_r` tells the truth**: it returns the position of the descriptor, which is the sum
of the base and the offset; or it fails, sets `errno`, and leaves the position and the size as
they were. -/
def LseekOk (s : Files) (i : Fin maxFileDescriptors) (c : SeekCall) : Prop :=
  let r := lseekAt s i c
  let fil := s.fil i
  let fil' := r.2.fil i
  (0 ≤ r.1.ret ∧ r.1.ret = fil'.fptr.toNat ∧
    ∃ base, seekBase fil c.dir = some base ∧ (fil'.fptr.toNat : ℤ) = base + c.ptr.toInt) ∨
  (r.1.ret = -1 ∧ r.1.errno ≠ none ∧ fil'.fptr = fil.fptr ∧ fil'.obj.objsize = fil.obj.objsize)

/-- The target `ofs` can be returned and the disk lets the seek through to it: it is below 2 GiB,
it lies in the file if the file may not be written, and the answers on the way to it are good. -/
def Reaches (fil : Fil) (c : SeekCall) : Prop :=
  ∃ (base ofs : ℕ), seekBase fil c.dir = some base ∧ (ofs : ℤ) = base + c.ptr.toInt ∧ ofs < 2 ^ 31 ∧
    (ofs ≤ fil.obj.objsize.toNat ∨ has fil.flag faWrite = true) ∧ (0 < ofs → Clear fil c.env ofs)

/-- The call can tell the truth: it is refused before anything has moved; it is let through to its
target; or the answers leave it where it is. -/
def Truthful (s : Files) (i : Fin maxFileDescriptors) (c : SeekCall) : Prop :=
  (validate s.vols (s.fil i).obj ≠ .ok ∨ (s.fil i).err ≠ .ok ∨ c.dir = .other) ∨
  Reaches (s.fil i) c ∨
  ∃ dest, seekDest (s.fil i) c.ptr c.dir = some dest ∧
    Stuck (s.fil i) c.env (clipOfs (s.fil i) dest.toNat)

/-! ### The target -/

section Target

variable {fil : Fil} {ptr dest : BitVec 32} {dir : Whence} {base : ℕ}

theorem seekDest_eq_none_iff : seekDest fil ptr dir = none ↔ dir = .other := by
  cases dir <;> simp [seekDest]

/-- **The target as it is computed** is the target, up to a multiple of `2 ^ 32`. -/
theorem seekDest_emod (hdest : seekDest fil ptr dir = some dest)
    (hbase : seekBase fil dir = some base) :
    (dest.toNat : ℤ) = (base + ptr.toInt) % 2 ^ 32 := by
  have hptr := ptr.isLt
  have hint := BitVec.toInt_eq_toNat_cond ptr
  cases dir with
  | set =>
    obtain rfl := Option.some.inj hdest
    obtain rfl := Option.some.inj hbase
    split at hint <;> omega
  | cur =>
    obtain rfl := Option.some.inj hdest
    obtain rfl := Option.some.inj hbase
    rw [BitVec.toNat_add]
    split at hint <;> omega
  | fromEnd =>
    obtain rfl := Option.some.inj hdest
    obtain rfl := Option.some.inj hbase
    rw [BitVec.toNat_add]
    split at hint <;> omega
  | other => simp [seekDest] at hdest

/-- A target below 2 GiB is handed on and returned as it is. -/
theorem seekDest_of_target (hdest : seekDest fil ptr dir = some dest)
    (hbase : seekBase fil dir = some base) (hnonneg : 0 ≤ base + ptr.toInt)
    (hlt : base + ptr.toInt < 2 ^ 31) :
    (dest.toNat : ℤ) = base + ptr.toInt ∧ dest.toInt = base + ptr.toInt := by
  have hmod := seekDest_emod hdest hbase
  rw [Int.emod_eq_of_lt hnonneg (by omega)] at hmod
  refine ⟨hmod, ?_⟩
  rw [BitVec.toInt_eq_toNat_cond, if_pos (by omega), hmod]

end Target

/-! ### What a call does -/

section Call

variable {s : Files} {i : Fin maxFileDescriptors} {c : SeekCall}

/-- A call that is refused before anything has moved. -/
theorem lseekOk_of_refused (h : validate s.vols (s.fil i).obj ≠ .ok ∨ (s.fil i).err ≠ .ok ∨
    c.dir = .other) : LseekOk s i c := by
  refine Or.inr ?_
  simp only [lseekAt, lseekR, getDescr_add_three]
  cases hdest : seekDest (s.fil i) c.ptr c.dir with
  | none => simp
  | some dest =>
    have hdir : c.dir ≠ .other := by
      intro hother
      rw [seekDest_eq_none_iff.mpr hother] at hdest
      simp at hdest
    obtain ⟨hres, hfil⟩ := fLseek_of_refused (h.imp_right fun h => h.resolve_right hdir)
      (c.io (s.fil i))
    simp [hres, hfil, setFil_self, rc2errno_eq_none_iff]

/-- **What a call does** that is not refused: it returns the target as it was computed, or -1
with an error number, and moves the position to where `f_lseek` has got. -/
theorem lseekAt_of_open (hvalid : validate s.vols (s.fil i).obj = .ok)
    (herr : (s.fil i).err = .ok) {dest : BitVec 32}
    (hdest : seekDest (s.fil i) c.ptr c.dir = some dest) :
    let r := lseekAt s i c
    (r.2.fil i).fptr = (c.io (s.fil i)).fptr ∧ (r.2.fil i).obj.objsize = (c.io (s.fil i)).objsize ∧
      ((c.io (s.fil i)).abort = none → r.1 = ⟨dest.toInt, none⟩) ∧
      ((c.io (s.fil i)).abort ≠ none → r.1.ret = -1 ∧ r.1.errno ≠ none) := by
  have hio : c.io (s.fil i) = seekIo (s.fil i) c.env dest := by
    rw [SeekCall.io, hdest]
  have hne := seekIo_abort_ne_ok (s.fil i) c.env dest
  rw [← hio] at hne
  simp only [lseekAt, lseekR, getDescr_add_three, hdest, fLseek, hvalid, herr, ne_eq,
    not_true_eq_false, if_false, Fil.transfer]
  cases habort : (c.io (s.fil i)).abort with
  | none => simp [setFil_self]
  | some res =>
    have hres : res.toFResult ≠ .ok := by
      rw [ne_eq, InnerResult.toFResult_eq_ok_iff]
      rintro rfl
      exact hne habort
    simp [setFil_self, hres, rc2errno_eq_none_iff]

theorem SeekCall.io_eq {fil : Fil} {dest : BitVec 32} (hdest : seekDest fil c.ptr c.dir = some dest) :
    c.io fil = seekIo fil c.env dest := by
  rw [SeekCall.io, hdest]

/-- A seek that is let through does not abort. -/
theorem Reaches.abort_eq_none {fil : Fil} (h : Reaches fil c) : (c.io fil).abort = none := by
  obtain ⟨base, ofs, hbase, hofs, hlt, hfits, hclear⟩ := h
  obtain ⟨dest, hdest⟩ : ∃ dest, seekDest fil c.ptr c.dir = some dest := by
    rw [← Option.ne_none_iff_exists']
    intro hnone
    rw [seekDest_eq_none_iff.mp hnone] at hbase
    cases hbase
  obtain ⟨hnat, -⟩ := seekDest_of_target hdest hbase (by omega) (by omega)
  obtain rfl : dest.toNat = ofs := by omega
  rw [SeekCall.io_eq hdest]
  refine ((seek_arrives_iff fil c.env dest).mpr ?_).1
  rwa [(clipOfs_eq_self_iff _ _).mpr hfits]

/-- **A seek that does not abort** is at its target exactly if it is let through to it. -/
theorem reaches_iff (habort : (c.io (s.fil i)).abort = none) {dest : BitVec 32}
    (hdest : seekDest (s.fil i) c.ptr c.dir = some dest) :
    Reaches (s.fil i) c ↔ 0 ≤ dest.toInt ∧ dest.toInt = (c.io (s.fil i)).fptr.toNat ∧
      ∃ base, seekBase (s.fil i) c.dir = some base ∧
        ((c.io (s.fil i)).fptr.toNat : ℤ) = base + c.ptr.toInt := by
  have hfptr : (c.io (s.fil i)).fptr.toNat =
      (seekPos (s.fil i) c.env (clipOfs (s.fil i) dest.toNat)).fptr := by
    rw [SeekCall.io_eq hdest, seekIo_fptr]
  rw [SeekCall.io_eq hdest] at habort
  have hfound := seekPos_abort_of_seekIo _ _ _ habort
  constructor
  · rintro ⟨base, ofs, hbase, hofs, hlt, hfits, hclear⟩
    obtain ⟨hnat, hint⟩ := seekDest_of_target hdest hbase (by omega) (by omega)
    obtain rfl : dest.toNat = ofs := by omega
    have hclip := (clipOfs_eq_self_iff _ _).mpr hfits
    rw [← hclip] at hclear
    have hat := seekPos_of_cut_eq_false _ _ _ hfound ((seek_arrives_iff _ _ _).mpr hclear).2
    rw [← hfptr, hclip] at hat
    rw [hint, hat]
    exact ⟨by omega, hnat.symm, base, hbase, hnat⟩
  · rintro ⟨hnonneg, hret, base, hbase, htarget⟩
    have hlt : base + c.ptr.toInt < 2 ^ 31 := by
      have := BitVec.toInt_lt (x := dest)
      omega
    obtain ⟨hnat, -⟩ := seekDest_of_target hdest hbase (by omega) hlt
    -- the seek has got to the target, so it was neither clipped nor cut short
    have hat : (seekPos (s.fil i) c.env (clipOfs (s.fil i) dest.toNat)).fptr = dest.toNat := by
      rw [← hfptr]
      omega
    have hle := (seekPos_spec (s.fil i) c.env (clipOfs (s.fil i) dest.toNat)).1
    have hclip : clipOfs (s.fil i) dest.toNat = dest.toNat :=
      le_antisymm (clipOfs_le _ _) (hat.symm.le.trans hle)
    have hcut : (seekPos (s.fil i) c.env (clipOfs (s.fil i) dest.toNat)).cut = false := by
      rw [← Bool.not_eq_true]
      intro hcut
      have := seekPos_lt_of_cut _ _ _ hfound hcut
      omega
    refine ⟨base, dest.toNat, hbase, hnat, by omega, (clipOfs_eq_self_iff _ _).mp hclip, ?_⟩
    have hclear := (seek_arrives_iff _ _ _).mp ⟨habort, hcut⟩
    rwa [hclip] at hclear

end Call

/-! ### When a call tells the truth -/

/-- **`_lseek_r` tells the truth if and only if** it is refused before anything has moved, the disk
lets it through to a target below 2 GiB, or the answers of the disk leave it where it is. -/
theorem lseekOk_iff (s : Files) (i : Fin maxFileDescriptors) (c : SeekCall) :
    LseekOk s i c ↔ Truthful s i c := by
  by_cases hrefused : validate s.vols (s.fil i).obj ≠ .ok ∨ (s.fil i).err ≠ .ok ∨ c.dir = .other
  · exact iff_of_true (lseekOk_of_refused hrefused) (Or.inl hrefused)
  obtain ⟨hvalid, herr, hdir⟩ : validate s.vols (s.fil i).obj = .ok ∧ (s.fil i).err = .ok ∧
      c.dir ≠ .other := by simpa using hrefused
  obtain ⟨dest, hdest⟩ : ∃ dest, seekDest (s.fil i) c.ptr c.dir = some dest := by
    rw [← Option.ne_none_iff_exists']
    exact fun hnone => hdir (seekDest_eq_none_iff.mp hnone)
  obtain ⟨hfptr, hsize, hok, hfail⟩ := lseekAt_of_open hvalid herr hdest
  have hstuck := seek_stuck_iff (s.fil i) c.env dest
  rw [← SeekCall.io_eq hdest] at hstuck
  have hleft : (∃ dest, seekDest (s.fil i) c.ptr c.dir = some dest ∧
      Stuck (s.fil i) c.env (clipOfs (s.fil i) dest.toNat)) ↔
      Stuck (s.fil i) c.env (clipOfs (s.fil i) dest.toNat) := by
    simp [hdest]
  rw [Truthful, or_iff_right hrefused, hleft, ← hstuck]
  simp only [LseekOk, hfptr, hsize]
  by_cases habort : (c.io (s.fil i)).abort = none
  · rw [hok habort, reaches_iff habort hdest]
    simp [habort]
  · obtain ⟨hret, herrno⟩ := hfail habort
    have hnot : ¬Reaches (s.fil i) c := fun hreaches => habort hreaches.abort_eq_none
    simp [hret, herrno, habort, hnot]

/-- A volume with clusters of 512 bytes and a chain without end. -/
def chainEnv : SeekEnv :=
  ⟨⟨0, by decide⟩, 1000#32, 100#32, 5#32, 0#32, 6#32, fun _ => 7#32, .ok, .ok⟩

/-- A file of 100 bytes is opened for reading. -/
def hundredBytes : Files :=
  (runFn fileStep [] Files.init [.mount (some .sd) (some ['/', 's', 'd']) false mountGood,
    .openR sdFile 0#32 openGood]).2

/-- **Two seeks that do not tell the truth.** In a file of 100 bytes that is open for reading, a
seek to 200 returns 200 and moves to 100; and a seek to -1 is not refused: it returns -1 without
an error number and moves to 100. -/
theorem not_lseekOk_pastEnd :
    let past := lseekAt hundredBytes 0 ⟨200#32, .set, chainEnv⟩
    let before := lseekAt hundredBytes 0 ⟨-1#32, .set, chainEnv⟩
    (past.1 = ⟨200, none⟩ ∧ (past.2.fil 0).fptr = 100#32 ∧
      ¬LseekOk hundredBytes 0 ⟨200#32, .set, chainEnv⟩) ∧
    (before.1 = ⟨-1, none⟩ ∧ (before.2.fil 0).fptr = 100#32 ∧
      ¬LseekOk hundredBytes 0 ⟨-1#32, .set, chainEnv⟩) := by
  refine ⟨⟨by decide, by decide, ?_⟩, ⟨by decide, by decide, ?_⟩⟩
  · rintro (⟨-, hret, -⟩ | ⟨hret, -⟩)
    · exact absurd hret (by decide)
    · exact absurd hret (by decide)
  · rintro (⟨hret, -⟩ | ⟨-, herrno, -⟩)
    · exact absurd hret (by decide)
    · exact herrno (by decide)

end LibcIo

end BareMetal
