import BareMetal.Memory
import BareMetal.FatFs.File

/-!
# Writing to a file

`f_write` stores the caller's bytes from the position on, sector by sector, and moves the
position and, where that lies behind it, the end of the file along with them. It is over when
all has been written, when no cluster is free any more – then it has written less and reports
success – or when it aborts with an error. How it ends is an input of the model, and every write
on a volume ends in one of these ways (`BareMetal.FatFs.Stream.writeBody_ending`); what it does to
the bytes of the file is `BareMetal.FatFs.fWriteData`. A write that begins at the end of the file
adds to it what it has moved (`BareMetal.FatFs.load_fWriteData`).

The bytes are a function of the position, of which those before the end of the file count.
-/

namespace BareMetal

namespace FatFs

/-- How the loop of `f_write` ends: the error it aborts with, if it does; whether the disk was
full; what it had moved until then, in these two cases; the first cluster of the file; whether
the sector buffer is left to be written; and what a transfer that failed has left on the disk
in place of the bytes that were not counted. -/
structure WriteEnd where
  abort : Option InnerResult
  full : Bool
  moved : BitVec 32
  sclust : BitVec 32
  dirty : Bool
  torn : ℕ → BitVec 8

/-- `btw`, cut so that the position does not wrap around. -/
def clipBtw (fil : Fil) (btw : BitVec 32) : BitVec 32 :=
  if fil.fptr + btw < fil.fptr then 0xFFFFFFFF#32 - fil.fptr else btw

/-- The bytes that the loop of `f_write` moves. -/
def writeCount (fil : Fil) (btw : BitVec 32) (e : WriteEnd) : BitVec 32 :=
  if e.abort = none ∧ e.full = false then clipBtw fil btw
  else if e.moved ≤ clipBtw fil btw then e.moved else clipBtw fil btw

/-- The flags: `FA_MODIFIED` is set at the end, which an abort does not reach. -/
def writeFlag (fil : Fil) (e : WriteEnd) : BitVec 8 :=
  let flag := if e.dirty then fil.flag ||| faDirty else fil.flag &&& ~~~faDirty
  if e.abort = none then flag ||| faModified else flag

/-- The loop of `f_write`; a round of it moves something, and the end of the file with it. -/
def writeBody (fil : Fil) (btw : BitVec 32) (e : WriteEnd) : BodyIo :=
  let count := writeCount fil btw e
  let fptr := fil.fptr + count
  ⟨count, e.abort, writeFlag fil e, e.sclust,
    if count ≠ 0#32 ∧ fptr > fil.obj.objsize then fptr else fil.obj.objsize, fptr⟩

/-- The checks at the head of `f_read` and `f_write` pass. -/
def Accepts (v : Volumes) (fil : Fil) (access : BitVec 8) : Prop :=
  validate v fil.obj = .ok ∧ fil.err = .ok ∧ has fil.flag access = true

instance (v : Volumes) (fil : Fil) (access : BitVec 8) : Decidable (Accepts v fil access) :=
  inferInstanceAs (Decidable (_ ∧ _ ∧ _))

/-- `f_write`, with what it does to the bytes of the file. -/
def fWriteData (v : Volumes) (fil : Fil) (content : ℕ → BitVec 8) (data : List (BitVec 8))
    (e : WriteEnd) : ((FResult × BitVec 32) × Fil) × (ℕ → BitVec 8) :=
  let btw := BitVec.ofNat 32 data.length
  let r := fWrite v fil (writeBody fil btw e)
  let content' := blit content fil.fptr.toNat (fun k => data.getD k 0#8) r.1.2.toNat
  (r, if Accepts v fil faWrite ∧ e.abort ≠ none then
        blit content' (fil.fptr.toNat + r.1.2.toNat) e.torn
          ((clipBtw fil btw).toNat - r.1.2.toNat)
      else content')

/-! ### The checks -/

/-- A call that is refused moves nothing and changes nothing. -/
theorem fAccess_of_not_accepts {v : Volumes} {fil : Fil} {access : BitVec 8}
    (h : ¬Accepts v fil access) (io : BodyIo) :
    (fAccess v fil access io).1.1 ≠ .ok ∧ (fAccess v fil access io).1.2 = 0#32 ∧
      (fAccess v fil access io).2 = fil := by
  unfold fAccess
  split
  · rename_i hvalid
    exact ⟨hvalid, rfl, rfl⟩
  rename_i hvalid
  split
  · rename_i herr
    exact ⟨herr, rfl, rfl⟩
  rename_i herr
  split
  · exact ⟨by simp, rfl, rfl⟩
  · rename_i haccess
    exact absurd ⟨not_not.mp hvalid, not_not.mp herr, by simpa using haccess⟩ h

theorem fAccess_of_accepts {v : Volumes} {fil : Fil} {access : BitVec 8}
    (h : Accepts v fil access) (io : BodyIo) : fAccess v fil access io = fil.transfer io := by
  obtain ⟨hvalid, herr, haccess⟩ := h
  simp [fAccess, hvalid, herr, haccess]

theorem Fil.transfer_count (fil : Fil) (io : BodyIo) : (fil.transfer io).1.2 = io.count := by
  unfold Fil.transfer
  split <;> rfl

theorem Fil.transfer_objsize (fil : Fil) (io : BodyIo) :
    (fil.transfer io).2.obj.objsize = io.objsize := by
  unfold Fil.transfer
  split <;> rfl

theorem Fil.transfer_fptr (fil : Fil) (io : BodyIo) : (fil.transfer io).2.fptr = io.fptr := by
  unfold Fil.transfer
  split <;> rfl

theorem Fil.transfer_flag (fil : Fil) (io : BodyIo) : (fil.transfer io).2.flag = io.flag := by
  unfold Fil.transfer
  split <;> rfl

theorem has_or_eq_false {w : ℕ} {x y mask : BitVec w} (hx : has x mask = false)
    (hy : has y mask = false) : has (x ||| y) mask = false := by
  simp only [has, bne_eq_false_iff_eq] at hx hy ⊢
  rw [BitVec.and_comm, BitVec.and_or_distrib_left, BitVec.and_comm mask x, hx,
    BitVec.and_comm mask y, hy, BitVec.or_zero]

theorem has_and_eq_false {w : ℕ} {x mask : BitVec w} (hx : has x mask = false) (y : BitVec w) :
    has (x &&& y) mask = false := by
  simp only [has, bne_eq_false_iff_eq] at hx ⊢
  rw [BitVec.and_assoc, BitVec.and_comm y mask, ← BitVec.and_assoc, hx, BitVec.zero_and]

/-- A file that may not be read may not be after a write. -/
theorem has_writeFlag_faRead {fil : Fil} (h : has fil.flag faRead = false) (e : WriteEnd) :
    has (writeFlag fil e) faRead = false := by
  have hdirty : has (if e.dirty then fil.flag ||| faDirty else fil.flag &&& ~~~faDirty) faRead =
      false := by
    split
    · exact has_or_eq_false h (by decide)
    · exact has_and_eq_false h _
  unfold writeFlag
  dsimp only
  split
  · exact has_or_eq_false hdirty (by decide)
  · exact hdirty

/-! ### How much is moved -/

section Count

variable (fil : Fil) (btw : BitVec 32) (e : WriteEnd)

/-- The position does not wrap around. -/
theorem clipBtw_spec :
    (clipBtw fil btw).toNat ≤ btw.toNat ∧ fil.fptr.toNat + (clipBtw fil btw).toNat < 2 ^ 32 := by
  have hfptr := fil.fptr.isLt
  have hbtw := btw.isLt
  unfold clipBtw
  split
  · rename_i hwrap
    rw [BitVec.lt_def, BitVec.toNat_add] at hwrap
    rw [BitVec.toNat_sub, BitVec.toNat_ofNat]
    omega
  · rename_i hwrap
    rw [BitVec.lt_def, BitVec.toNat_add] at hwrap
    omega

theorem writeCount_le : (writeCount fil btw e).toNat ≤ (clipBtw fil btw).toNat := by
  unfold writeCount
  split
  · exact Nat.le_refl _
  · split
    · rename_i hle
      exact BitVec.le_def.mp hle
    · exact Nat.le_refl _

/-- The position after a write. -/
theorem toNat_fptr_add_writeCount :
    (fil.fptr + writeCount fil btw e).toNat = fil.fptr.toNat + (writeCount fil btw e).toNat := by
  have hclip := (clipBtw_spec fil btw).2
  have hle := writeCount_le fil btw e
  rw [BitVec.toNat_add, Nat.mod_eq_of_lt (by omega)]

/-- The end of the file after a write that moves something. -/
theorem toNat_writeBody_objsize (hcount : writeCount fil btw e ≠ 0#32) :
    (writeBody fil btw e).objsize.toNat =
      max fil.obj.objsize.toNat (fil.fptr.toNat + (writeCount fil btw e).toNat) := by
  have hsum := toNat_fptr_add_writeCount fil btw e
  simp only [writeBody, ne_eq, hcount, not_false_eq_true, true_and]
  split
  · rename_i hlt
    have hgt := BitVec.lt_def.mp hlt
    rw [hsum] at hgt ⊢
    omega
  · rename_i hge
    have hle : ¬fil.obj.objsize.toNat < (fil.fptr + writeCount fil btw e).toNat :=
      fun hcon => hge (BitVec.lt_def.mpr hcon)
    rw [hsum] at hle
    omega

theorem writeBody_objsize_of_zero (hcount : writeCount fil btw e = 0#32) :
    (writeBody fil btw e).objsize = fil.obj.objsize := by
  simp [writeBody, hcount]

end Count

/-! ### What is written -/

section Data

variable {v : Volumes} {fil : Fil} (content : ℕ → BitVec 8) (data : List (BitVec 8))
  (e : WriteEnd)

/-- A write that is refused leaves the file. -/
theorem fWriteData_of_not_accepts (h : ¬Accepts v fil faWrite) :
    (fWriteData v fil content data e).1.1.1 ≠ .ok ∧
      (fWriteData v fil content data e).1.1.2 = 0#32 ∧
      (fWriteData v fil content data e).1.2 = fil ∧
      (fWriteData v fil content data e).2 = content := by
  obtain ⟨hres, hcount, hfil⟩ := fAccess_of_not_accepts h
    (writeBody fil (BitVec.ofNat 32 data.length) e)
  refine ⟨hres, hcount, hfil, ?_⟩
  simp only [fWriteData, fWrite, hcount, h, false_and, if_false]
  exact blit_zero content _ _

/-- The count of a write that is made. -/
theorem fWriteData_count (h : Accepts v fil faWrite) :
    (fWriteData v fil content data e).1.1.2 =
      writeCount fil (BitVec.ofNat 32 data.length) e := by
  show (fAccess v fil faWrite _).1.2 = _
  rw [fAccess_of_accepts h, Fil.transfer_count]
  rfl

/-- The file object a write leaves that is made. -/
theorem fWriteData_fil (h : Accepts v fil faWrite) :
    (fWriteData v fil content data e).1.2 =
      (fil.transfer (writeBody fil (BitVec.ofNat 32 data.length) e)).2 := by
  show (fAccess v fil faWrite _).2 = _
  rw [fAccess_of_accepts h]

variable (v fil) in
/-- A write moves no more than it is given. -/
theorem fWriteData_count_le (hlen : data.length < 2 ^ 32) :
    (fWriteData v fil content data e).1.1.2.toNat ≤ data.length := by
  by_cases h : Accepts v fil faWrite
  · rw [fWriteData_count content data e h]
    have hle := writeCount_le fil (BitVec.ofNat 32 data.length) e
    have hclip := (clipBtw_spec fil (BitVec.ofNat 32 data.length)).1
    rw [BitVec.toNat_ofNat, Nat.mod_eq_of_lt hlen] at hclip
    omega
  · rw [(fWriteData_of_not_accepts content data e h).2.1]
    exact Nat.zero_le _

/-- The bytes before the position are as they were. -/
theorem load_fWriteData_before {n : ℕ} (hn : n ≤ fil.fptr.toNat) :
    load (fWriteData v fil content data e).2 0 n = load content 0 n := by
  refine load_congr fun i hi => ?_
  simp only [fWriteData]
  split
  · rw [blit, if_neg (by omega), blit, if_neg (by omega)]
  · rw [blit, if_neg (by omega)]

variable (v fil) in
/-- The bytes from the position on are the ones that were moved. -/
theorem load_fWriteData_moved (hlen : data.length < 2 ^ 32) :
    load (fWriteData v fil content data e).2 fil.fptr.toNat
        (fWriteData v fil content data e).1.1.2.toNat =
      data.take (fWriteData v fil content data e).1.1.2.toNat := by
  have hle := fWriteData_count_le v fil content data e hlen
  have hbytes : load (fWriteData v fil content data e).2 fil.fptr.toNat
      (fWriteData v fil content data e).1.1.2.toNat =
        (List.range (fWriteData v fil content data e).1.1.2.toNat).map fun k =>
          data.getD k 0#8 := by
    simp only [fWriteData]
    split
    · rw [load_blit_apart (Or.inr (Nat.le_refl _)), load_blit_self]
    · rw [load_blit_self]
  rw [hbytes]
  generalize (fWriteData v fil content data e).1.1.2.toNat = n at hle ⊢
  refine List.ext_getElem (by simp [hle]) fun i hi hi' => ?_
  have hn : i < n := by simpa using hi
  have hdata : i < data.length := by omega
  rw [List.getElem_map, List.getElem_range, List.getElem_take, List.getD_eq_getElem?_getD,
    List.getElem?_eq_getElem hdata, Option.getD_some]

/-- The end of the file after a write that begins there. -/
theorem toNat_fWriteData_objsize (hend : fil.fptr = fil.obj.objsize) :
    (fWriteData v fil content data e).1.2.obj.objsize.toNat =
      fil.obj.objsize.toNat + (fWriteData v fil content data e).1.1.2.toNat := by
  by_cases h : Accepts v fil faWrite
  · rw [fWriteData_fil content data e h, fWriteData_count content data e h, Fil.transfer_objsize]
    by_cases hzero : writeCount fil (BitVec.ofNat 32 data.length) e = 0#32
    · rw [writeBody_objsize_of_zero _ _ _ hzero, hzero]
      rfl
    · rw [toNat_writeBody_objsize _ _ _ hzero, hend]
      omega
  · obtain ⟨-, hcount, hfil, -⟩ := fWriteData_of_not_accepts content data e h
    rw [hcount, hfil]
    rfl

/-- **A write at the end of the file adds to it**: what was there, and what has been moved. -/
theorem load_fWriteData (hend : fil.fptr = fil.obj.objsize) (hlen : data.length < 2 ^ 32) :
    load (fWriteData v fil content data e).2 0
        (fWriteData v fil content data e).1.2.obj.objsize.toNat =
      load content 0 fil.obj.objsize.toNat ++
        data.take (fWriteData v fil content data e).1.1.2.toNat := by
  have hmoved := load_fWriteData_moved v fil content data e hlen
  rw [hend] at hmoved
  rw [toNat_fWriteData_objsize content data e hend, load_add, Nat.zero_add, hmoved,
    load_fWriteData_before content data e (by rw [hend])]

variable (v fil) in
/-- A write of nothing leaves the bytes and the end of the file. -/
theorem fWriteData_nil :
    (fWriteData v fil content [] e).1.2.obj.objsize = fil.obj.objsize ∧
      (fWriteData v fil content [] e).2 = content := by
  have hzero : (fWriteData v fil content [] e).1.1.2.toNat = 0 :=
    Nat.le_zero.mp (fWriteData_count_le v fil content [] e (by simp))
  have hclip : (clipBtw fil (BitVec.ofNat 32 ([] : List (BitVec 8)).length)).toNat = 0 :=
    Nat.le_zero.mp (clipBtw_spec fil _).1
  constructor
  · by_cases h : Accepts v fil faWrite
    · rw [fWriteData_count content [] e h] at hzero
      rw [fWriteData_fil content [] e h, Fil.transfer_objsize,
        writeBody_objsize_of_zero _ _ _ (BitVec.eq_of_toNat_eq hzero)]
    · rw [(fWriteData_of_not_accepts content [] e h).2.2.1]
  · have hcount : (fWrite v fil (writeBody fil (BitVec.ofNat 32 ([] : List (BitVec 8)).length)
        e)).1.2.toNat = 0 := hzero
    simp only [fWriteData, hcount, hclip, blit_zero, Nat.sub_zero, ite_self]

end Data

end FatFs

end BareMetal
