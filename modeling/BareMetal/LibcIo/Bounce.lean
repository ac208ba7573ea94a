import BareMetal.Memory
import BareMetal.LibcIo.Descriptors

/-!
# Bounce buffers

The card driver cannot work on a buffer that is not aligned to a word, so `_read_r` and
`_write_r` put a buffer from `malloc` before one that is not, and copy. This should be
invisible, and for a write it is: `f_write` is handed the caller's bytes either way
(`BareMetal.LibcIo.writeRFrom_eq`). For a read it is not: `_read_r` copies the `n` bytes that
were asked for and not the bytes that were read, so that a short read into an unaligned buffer
overwrites the rest of it with what the heap block happened to hold. When that shows – for a read
that gets through to the file, by what the block and the destination hold from the end of the file
on – is `BareMetal.LibcIo.bounceInvisible_iff`.

The calls of `BareMetal.LibcIo.readR` and `BareMetal.LibcIo.writeR` are given their memory
here, and return the same (`BareMetal.LibcIo.readRInto_eq`).
-/

namespace BareMetal

namespace LibcIo

open FatFs

/-- The memory of the program. -/
abbrev Mem := ℕ → BitVec 8

/-! ### The code -/

/-- What the loop of `f_read` can abort with. -/
inductive ReadError where
  | diskErr | intErr
  deriving DecidableEq, Repr

def ReadError.toInner : ReadError → InnerResult
  | .diskErr => .diskErr
  | .intErr => .intErr

/-- How the loop of `f_read` ends: the error it aborts with and what it had moved until then,
if it does; and the flags of the object, since a dirty sector buffer may have been written
back. -/
structure ReadEnd where
  abort : Option ReadError
  moved : BitVec 32
  flag : BitVec 8
  deriving DecidableEq, Repr

/-- `btr`, cut to what remains of the file. -/
def clipBtr (fil : Fil) (btr : BitVec 32) : BitVec 32 :=
  if btr > fil.obj.objsize - fil.fptr then fil.obj.objsize - fil.fptr else btr

/-- The bytes that the loop of `f_read` moves: all, unless it aborts. -/
def readCount (fil : Fil) (btr : BitVec 32) (e : ReadEnd) : BitVec 32 :=
  match e.abort with
  | none => clipBtr fil btr
  | some _ => if e.moved ≤ clipBtr fil btr then e.moved else clipBtr fil btr

/-- The loop of `f_read`: the position moves with the bytes, and the file stays as it is. -/
def readBody (fil : Fil) (btr : BitVec 32) (e : ReadEnd) : BodyIo :=
  ⟨readCount fil btr e, e.abort.map ReadError.toInner, e.flag, fil.obj.sclust, fil.obj.objsize,
    fil.fptr + readCount fil btr e⟩

/-- `f_read` into memory, of a file with the bytes `content`: it stores `*br` bytes from the
position on. -/
def fReadInto (v : Volumes) (fil : Fil) (content : ℕ → BitVec 8) (m : Mem) (buff : ℕ)
    (btr : BitVec 32) (e : ReadEnd) : ((FResult × BitVec 32) × Fil) × Mem :=
  let r := fRead v fil (readBody fil btr e)
  (r, blit m buff (fun i => content (fil.fptr.toNat + i)) r.1.2.toNat)

/-- `memcpy`. -/
def memcpy (m : Mem) (dest src n : ℕ) : Mem := blit m dest (fun i => m (src + i)) n

/-- A call of `_read_r`: its arguments, how the read ends, and the block that `malloc` returns,
which is apart from the destination. -/
structure ReadCall where
  fd : ℤ
  ptr : ℕ
  n : BitVec 32
  io : ReadEnd
  block : ℕ
  apart : Apart block n.toNat ptr n.toNat

/-- The buffer `_read_r` hands to `f_read`. -/
def ReadCall.pptr (c : ReadCall) : ℕ := if c.ptr % 4 ≠ 0 then c.block else c.ptr

/-- `_read_r`. -/
def readRInto (s : Files) (content : Fin maxFileDescriptors → ℕ → BitVec 8) (m : Mem)
    (c : ReadCall) : (FileResult × Files) × Mem :=
  if c.fd = 1 ∨ c.fd = 2 then ((⟨-1, none⟩, s), m)
  else
    match getDescr c.fd with
    | none => ((⟨-1, some .ebadf⟩, s), m)
    | some i =>
        let r := fReadInto s.vols (s.fil i) (content i) m c.pptr c.n c.io
        if r.1.1.1 ≠ .ok then ((⟨-1, rc2errno r.1.1.1⟩, s.setFil i r.1.2), r.2)
        else
          -- all of the block is copied, however much was read into it
          ((⟨r.1.1.2.toInt, none⟩, s.setFil i r.1.2),
            if c.ptr % 4 ≠ 0 then memcpy r.2 c.ptr c.pptr c.n.toNat else r.2)

/-- A call of `_write_r`. -/
structure WriteCall where
  fd : ℤ
  buf : ℕ
  n : BitVec 32
  block : ℕ
  apart : Apart block n.toNat buf n.toNat

/-- `_write_r`, with the bytes that `f_write` is handed. How the write ends is a function of
these bytes. -/
def writeRFrom (s : Files) (m : Mem) (c : WriteCall) (io : List (BitVec 8) → BodyIo) :
    (FileResult × Files) × Option (List (BitVec 8)) :=
  if c.fd = 1 ∨ c.fd = 2 then ((⟨c.n.toInt, none⟩, s), none)
  else
    let m' := if c.buf % 4 ≠ 0 then memcpy m c.block c.buf c.n.toNat else m
    let bbuf := if c.buf % 4 ≠ 0 then c.block else c.buf
    match getDescr c.fd with
    | none => ((⟨-1, some .ebadf⟩, s), none)
    | some i =>
        let handed := load m' bbuf c.n.toNat
        let r := fWrite s.vols (s.fil i) (io handed)
        if r.1.1 ≠ .ok then ((⟨-1, rc2errno r.1.1⟩, s.setFil i r.2), some handed)
        else ((⟨r.1.2.toInt, none⟩, s.setFil i r.2), some handed)

/-! ### The property -/

/-- **A read stores what it has read**, and nothing else: if it returns `m`, the first `m`
bytes of the destination are the next of the file, and the others up to `n` are as before. -/
def ReadStored (s : Files) (content : Fin maxFileDescriptors → ℕ → BitVec 8) (m : Mem)
    (c : ReadCall) : Prop :=
  let r := readRInto s content m c
  ∀ i, getDescr c.fd = some i → 0 ≤ r.1.1.ret →
    (∀ j : ℕ, (j : ℤ) < r.1.1.ret →
      r.2 (c.ptr + j) = content i ((s.fil i).fptr.toNat + j)) ∧
    ∀ j : ℕ, r.1.1.ret ≤ j → j < c.n.toNat → r.2 (c.ptr + j) = m (c.ptr + j)

/-- The result, `errno` and the file objects – and so the position – do not depend on where a
read goes. -/
def SameRead (s : Files) (content : Fin maxFileDescriptors → ℕ → BitVec 8) (m : Mem)
    (c : ReadCall) : Prop :=
  ∀ (m' : Mem) (c' : ReadCall), c'.fd = c.fd → c'.n = c.n → c'.io = c.io →
    (readRInto s content m' c').1 = (readRInto s content m c).1

/-- `f_write` is handed the bytes of the caller, and from wherever the same bytes are written
the result, `errno` and the file objects are the same. -/
def SameWrite (s : Files) (m : Mem) (c : WriteCall) (io : List (BitVec 8) → BodyIo) : Prop :=
  (∀ handed, (writeRFrom s m c io).2 = some handed → handed = load m c.buf c.n.toNat) ∧
  ∀ (m' : Mem) (c' : WriteCall), c'.fd = c.fd → c'.n = c.n →
    load m' c'.buf c'.n.toNat = load m c.buf c.n.toNat → writeRFrom s m' c' io = writeRFrom s m c io

/-- **Bounce buffers are invisible.** -/
structure BounceInvisible (s : Files) (content : Fin maxFileDescriptors → ℕ → BitVec 8)
    (m : Mem) (c : ReadCall) (w : WriteCall) (io : List (BitVec 8) → BodyIo) : Prop where
  stored : ReadStored s content m c
  sameRead : SameRead s content m c
  sameWrite : SameWrite s m w io

/-- The call gets through to the bytes of the file in a slot: the object is valid and has not
failed, it may be read, no transfer fails, and what remains of the file is short enough for its
length to be returned. -/
structure GoesThrough (s : Files) (c : ReadCall) (i : Fin maxFileDescriptors) : Prop where
  descr : getDescr c.fd = some i
  valid : validate s.vols (s.fil i).obj = .ok
  err : (s.fil i).err = .ok
  readable : has (s.fil i).flag faRead = true
  ends : c.io.abort = none
  short : (clipBtr (s.fil i) c.n).toNat < 2 ^ 31

/-- The destination is aligned, or the block from `malloc` holds, from the end of the file on, what
the destination holds – as it does if as much remains of the file as is asked for. -/
def Covered (s : Files) (m : Mem) (c : ReadCall) : Prop :=
  c.ptr % 4 ≠ 0 → ∀ i, GoesThrough s c i → ∀ j : ℕ,
    (clipBtr (s.fil i) c.n).toNat ≤ j → j < c.n.toNat → m (c.block + j) = m (c.ptr + j)

/-! ### Reading -/

section Read

variable {s : Files} {content : Fin maxFileDescriptors → ℕ → BitVec 8} {m : Mem} {c : ReadCall}
  {i : Fin maxFileDescriptors}

/-- The loop of `f_read` that a call meets. -/
def ReadCall.body (c : ReadCall) (s : Files) : BodyIo :=
  match getDescr c.fd with
  | none => readBody Fil.blank c.n c.io
  | some i => readBody (s.fil i) c.n c.io

/-- **What a read returns is what `readR` returns**: neither the memory nor the destination
matters to it. -/
theorem readRInto_eq (s : Files) (content : Fin maxFileDescriptors → ℕ → BitVec 8) (m : Mem)
    (c : ReadCall) : (readRInto s content m c).1 = readR s c.fd (c.body s) := by
  unfold readRInto readR ReadCall.body
  split
  · rfl
  · cases getDescr c.fd with
    | none => rfl
    | some i =>
      exact apply_ite Prod.fst _ _ _

theorem sameRead (s : Files) (content : Fin maxFileDescriptors → ℕ → BitVec 8) (m : Mem)
    (c : ReadCall) : SameRead s content m c := by
  intro m' c' hfd hn hio
  rw [readRInto_eq, readRInto_eq, ReadCall.body, ReadCall.body, hfd, hn, hio]

theorem clipBtr_le (fil : Fil) (btr : BitVec 32) : clipBtr fil btr ≤ btr := by
  unfold clipBtr
  split
  · rename_i hlt
    exact BitVec.le_of_lt hlt
  · exact BitVec.le_refl btr

/-- A read that does not fail has returned what `f_read` has read. -/
theorem readRInto_of_nonneg (hi : getDescr c.fd = some i)
    (hret : 0 ≤ (readRInto s content m c).1.1.ret) :
    let r := fReadInto s.vols (s.fil i) (content i) m c.pptr c.n c.io
    (readRInto s content m c).1.1.ret = (r.1.1.2.toNat : ℤ) ∧
      (readRInto s content m c).2 =
        if c.ptr % 4 ≠ 0 then memcpy r.2 c.ptr c.pptr c.n.toNat else r.2 := by
  have hfd : ¬(c.fd = 1 ∨ c.fd = 2) := by
    have := getDescr_eq_some hi
    omega
  intro r
  by_cases hok : r.1.1.1 ≠ .ok
  · simp only [readRInto, if_neg hfd, hi] at hret
    rw [if_pos hok] at hret
    simp at hret
  · have hrun : readRInto s content m c = ((⟨r.1.1.2.toInt, none⟩, s.setFil i r.1.2),
        if c.ptr % 4 ≠ 0 then memcpy r.2 c.ptr c.pptr c.n.toNat else r.2) := by
      simp only [readRInto, if_neg hfd, hi]
      rw [if_neg hok]
    rw [hrun] at hret ⊢
    refine ⟨?_, rfl⟩
    simp only at hret ⊢
    rw [BitVec.toInt_eq_toNat_cond] at hret ⊢
    split at hret
    · rename_i hlt
      rw [if_pos hlt]
    · have := r.1.1.2.isLt
      omega

/-- **The bytes of the destination** after a read of `k` bytes that does not fail. -/
theorem readRInto_apply (hi : getDescr c.fd = some i) {k : ℕ}
    (hret : (readRInto s content m c).1.1.ret = (k : ℤ)) {j : ℕ} (hj : j < c.n.toNat) :
    (readRInto s content m c).2 (c.ptr + j) =
      if j < k then content i ((s.fil i).fptr.toNat + j)
      else if c.ptr % 4 ≠ 0 then m (c.block + j) else m (c.ptr + j) := by
  obtain ⟨hcount, hmem⟩ := readRInto_of_nonneg hi (by rw [hret]; exact Int.natCast_nonneg k)
  have hk : (fReadInto s.vols (s.fil i) (content i) m c.pptr c.n c.io).1.1.2.toNat = k := by
    rw [hret] at hcount
    exact (Int.ofNat.inj hcount).symm
  have hblock : (fReadInto s.vols (s.fil i) (content i) m c.pptr c.n c.io).2 =
      blit m c.pptr (fun i' => content i ((s.fil i).fptr.toNat + i')) k := by
    rw [← hk]
    rfl
  rw [hmem, hblock, ReadCall.pptr]
  split
  · -- the block is filled, and copied to the destination
    rw [memcpy, blit_add hj]
    split
    · rename_i hjk
      exact blit_add hjk
    · rename_i hjk
      exact blit_add_of_le (by omega)
  · split
    · rename_i hjk
      exact blit_add hjk
    · rename_i hjk
      exact blit_add_of_le (by omega)

theorem ReadError.toFResult_ne_ok (e : ReadError) : e.toInner.toFResult ≠ .ok := by
  cases e <;> simp [ReadError.toInner, InnerResult.toFResult]

/-- `f_read` succeeds exactly if the object may be read and no transfer fails, and has then read
all that remains or all that is asked for. -/
theorem fRead_ok_iff (v : Volumes) (fil : Fil) (btr : BitVec 32) (e : ReadEnd) :
    (fRead v fil (readBody fil btr e)).1.1 = .ok ↔
      validate v fil.obj = .ok ∧ fil.err = .ok ∧ has fil.flag faRead = true ∧ e.abort = none := by
  unfold fRead fAccess
  split
  · rename_i hvalid
    simp [hvalid]
  · rename_i hvalid
    split
    · rename_i herr
      simp [herr]
    · rename_i herr
      rw [not_not] at hvalid herr
      cases hread : has fil.flag faRead with
      | false => simp
      | true =>
        cases habort : e.abort with
        | none => simp [Fil.transfer, readBody, habort, hvalid, herr]
        | some res => simp [Fil.transfer, readBody, habort, res.toFResult_ne_ok]

theorem fRead_count_eq {v : Volumes} {fil : Fil} {btr : BitVec 32} {e : ReadEnd}
    (hok : (fRead v fil (readBody fil btr e)).1.1 = .ok) :
    (fRead v fil (readBody fil btr e)).1.2 = clipBtr fil btr := by
  obtain ⟨hvalid, herr, hread, hends⟩ := (fRead_ok_iff v fil btr e).mp hok
  simp [fRead, fAccess, hvalid, herr, hread, Fil.transfer, readBody, hends, readCount]

/-- What a read of a descriptor returns. -/
theorem readRInto_ret (hi : getDescr c.fd = some i) :
    (readRInto s content m c).1.1.ret =
      if (fRead s.vols (s.fil i) (readBody (s.fil i) c.n c.io)).1.1 = .ok then
        (clipBtr (s.fil i) c.n).toInt
      else -1 := by
  have hfd : ¬(c.fd = 1 ∨ c.fd = 2) := by
    have := getDescr_eq_some hi
    omega
  rw [readRInto_eq]
  simp only [readR, if_neg hfd, ReadCall.body, hi]
  split
  · rfl
  · rename_i hok
    rw [not_not] at hok
    rw [if_pos hok, fRead_count_eq hok]

/-- **What a read returns that goes through.** -/
theorem GoesThrough.ret_eq (h : GoesThrough s c i) (content : Fin maxFileDescriptors → ℕ → BitVec 8)
    (m : Mem) : (readRInto s content m c).1.1.ret = (clipBtr (s.fil i) c.n).toNat := by
  have hshort := h.short
  rw [readRInto_ret h.descr,
    if_pos ((fRead_ok_iff _ _ _ _).mpr ⟨h.valid, h.err, h.readable, h.ends⟩),
    BitVec.toInt_eq_toNat_cond, if_pos (by omega)]

/-- A read of a descriptor that does not return -1 goes through. -/
theorem goesThrough_of_nonneg (hi : getDescr c.fd = some i)
    (hret : 0 ≤ (readRInto s content m c).1.1.ret) : GoesThrough s c i := by
  rw [readRInto_ret hi] at hret
  split at hret
  · rename_i hok
    obtain ⟨hvalid, herr, hread, hends⟩ := (fRead_ok_iff _ _ _ _).mp hok
    refine ⟨hi, hvalid, herr, hread, hends, ?_⟩
    -- the number has no sign
    rw [BitVec.toInt_eq_toNat_cond] at hret
    have hlt := (clipBtr (s.fil i) c.n).isLt
    split at hret <;> omega
  · simp at hret

/-- **When a read stores what it has read**: if and only if the destination is aligned or
covered by the block. -/
theorem readStored_iff : ReadStored s content m c ↔ Covered s m c := by
  constructor
  · intro hstored hunaligned i hthrough j hj hjn
    have hret := hthrough.ret_eq content m
    have hkept := (hstored i hthrough.descr (by rw [hret]; exact Int.natCast_nonneg _)).2 j
      (by omega) hjn
    rw [readRInto_apply hthrough.descr hret hjn, if_neg (by omega), if_pos hunaligned] at hkept
    exact hkept
  · intro hcov i hi hnonneg
    have hthrough := goesThrough_of_nonneg hi hnonneg
    have hret := hthrough.ret_eq content m
    have hle : (clipBtr (s.fil i) c.n).toNat ≤ c.n.toNat := clipBtr_le (s.fil i) c.n
    refine ⟨fun j hj => ?_, fun j hj hjn => ?_⟩
    · rw [readRInto_apply hi hret (by omega), if_pos (by omega)]
    · rw [readRInto_apply hi hret hjn, if_neg (by omega)]
      split
      · rename_i hunaligned
        exact hcov hunaligned i hthrough j (by omega) hjn
      · rfl

end Read

/-! ### Writing -/

section Write

variable {s : Files} {m : Mem} {c : WriteCall} {io : List (BitVec 8) → BodyIo}

/-- The bytes that are handed on are the caller's, wherever they are. -/
theorem load_bbuf (m : Mem) (c : WriteCall) :
    load (if c.buf % 4 ≠ 0 then memcpy m c.block c.buf c.n.toNat else m)
      (if c.buf % 4 ≠ 0 then c.block else c.buf) c.n.toNat = load m c.buf c.n.toNat := by
  split
  · exact load_congr fun i hi => blit_add hi
  · rfl

/-- **A write is a write of the caller's bytes.** -/
theorem writeRFrom_eq (s : Files) (m : Mem) (c : WriteCall) (io : List (BitVec 8) → BodyIo) :
    writeRFrom s m c io = (writeR s c.fd c.n (io (load m c.buf c.n.toNat)),
      if c.fd = 1 ∨ c.fd = 2 then none
      else (getDescr c.fd).map fun _ => load m c.buf c.n.toNat) := by
  unfold writeRFrom writeR
  split
  · rfl
  · cases getDescr c.fd with
    | none => rfl
    | some i =>
      simp only [load_bbuf]
      split <;> rfl

theorem sameWrite (s : Files) (m : Mem) (c : WriteCall) (io : List (BitVec 8) → BodyIo) :
    SameWrite s m c io := by
  constructor
  · intro handed hhanded
    rw [writeRFrom_eq] at hhanded
    simp only at hhanded
    split at hhanded
    · simp at hhanded
    · obtain ⟨_, -, rfl⟩ := Option.map_eq_some_iff.mp hhanded
      rfl
  · intro m' c' hfd hn hload
    rw [writeRFrom_eq, writeRFrom_eq, hload, hfd, hn]

end Write

/-! ### Reading and writing -/

/-- **Bounce buffers are invisible if and only if** the destination of the read is aligned, or
covered by the block from `malloc`. -/
theorem bounceInvisible_iff (s : Files) (content : Fin maxFileDescriptors → ℕ → BitVec 8)
    (m : Mem) (c : ReadCall) (w : WriteCall) (io : List (BitVec 8) → BodyIo) :
    BounceInvisible s content m c w io ↔ Covered s m c :=
  ⟨fun h => readStored_iff.mp h.stored,
    fun h => ⟨readStored_iff.mpr h, sameRead s content m c, sameWrite s m w io⟩⟩

/-- A file of three bytes is opened for reading. -/
def threeBytes : Files :=
  (runFn fileStep [] Files.init [.mount (some .sd) (some ['/', 's', 'd']) false mountGood,
    .openR sdFile 0#32 { openGood with objsize := 3#32 }]).2

/-- A read of eight bytes to an odd address, by way of the heap. -/
def readEight : ReadCall := ⟨3, 0x1001, 8#32, ⟨none, 0#32, faRead⟩, 0x2000, by decide⟩

/-- A memory in which the destination holds ones and the rest is clear. -/
def onesAtDestination : Mem := fun a => if 0x1001 ≤ a ∧ a < 0x1009 then 0xFF#8 else 0#8

/-- **A short read overwrites the rest of an unaligned destination.** Three of eight bytes are
read, and the five behind them are no longer what they were. -/
theorem not_bounceInvisible_short :
    let r := readRInto threeBytes (fun _ a => BitVec.ofNat 8 (0x61 + a)) onesAtDestination readEight
    r.1.1 = ⟨3, none⟩ ∧
      load r.2 0x1001 8 = [0x61#8, 0x62#8, 0x63#8, 0#8, 0#8, 0#8, 0#8, 0#8] ∧
      ∀ w io, ¬BounceInvisible threeBytes (fun _ a => BitVec.ofNat 8 (0x61 + a))
        onesAtDestination readEight w io := by
  refine ⟨by decide, by decide, fun w io h => ?_⟩
  have hkept := (h.stored 0 (by decide) (by decide)).2 3 (by decide) (by decide)
  exact absurd hkept (by decide)

end LibcIo

end BareMetal
