import BareMetal.LibcIo.Bounce
import BareMetal.LibcIo.Lseek
import BareMetal.LibcIo.OpenMode

/-!
# Appending

`_open_r` translates `O_APPEND` into a mode of FatFs that moves to the end of the file **when it
is opened** (`BareMetal.LibcIo.openR_append`), and that is all: nothing in `_write_r` or
`f_write` looks at it again. As long as nobody seeks, every write begins where the last one
ended, and the file grows by what is written (`BareMetal.LibcIo.appendOk_of_openR`). After a
seek a write goes to the new position, over what is there; and a seek behind the end makes the
file longer without a write, since it is open for writing.

So the descriptor appends along the runs in which every write is made at the end of the file and
no seek leaves it (`BareMetal.LibcIo.appendOk_of_atEnd`), and a write or a seek that breaks this
condition breaks the property (`BareMetal.LibcIo.not_appendOk_of_inside`,
`BareMetal.LibcIo.not_appendOk_of_extended`).
-/

namespace BareMetal

namespace LibcIo

open FatFs

/-! ### The code -/

/-- The bytes of a write; the length is a `size_t`. -/
structure WriteData where
  bytes : List (BitVec 8)
  length_lt : bytes.length < 2 ^ 32

/-- `_write_r`, with the bytes of the files: what it returns, the bytes that were written, and
what it leaves. -/
def writeRData (s : Files) (content : Fin maxFileDescriptors → ℕ → BitVec 8) (fd : ℤ)
    (data : WriteData) (e : WriteEnd) :
    (FileResult × List (BitVec 8)) × Files × (Fin maxFileDescriptors → ℕ → BitVec 8) :=
  if fd = 1 ∨ fd = 2 then
    ((⟨(BitVec.ofNat 32 data.bytes.length).toInt, none⟩, []), s, content)
  else
    match getDescr fd with
    | none => ((⟨-1, some .ebadf⟩, []), s, content)
    | some i =>
        let r := fWriteData s.vols (s.fil i) (content i) data.bytes e
        ((if r.1.1.1 ≠ .ok then ⟨-1, rc2errno r.1.1.1⟩ else ⟨r.1.1.2.toInt, none⟩,
            data.bytes.take r.1.1.2.toNat),
          s.setFil i r.1.2, Function.update content i r.2)

/-- A call on a descriptor, with what it meets. -/
inductive AppendCall where
  | write (data : WriteData) (e : WriteEnd)
  | read (n : BitVec 32) (e : ReadEnd)
  | lseek (c : SeekCall)

/-- The files and their bytes. -/
structure Appending where
  files : Files
  content : Fin maxFileDescriptors → ℕ → BitVec 8

/-- One call on the descriptor of a slot: what it returns, and the bytes that were written. -/
def appendStep (i : Fin maxFileDescriptors) (s : Appending) :
    AppendCall → (FileResult × List (BitVec 8)) × Appending
  | .write data e =>
      let r := writeRData s.files s.content (i + 3) data e
      (r.1, ⟨r.2.1, r.2.2⟩)
  | .read n e =>
      let r := readR s.files (i + 3) (readBody (s.files.fil i) n e)
      ((r.1, []), { s with files := r.2 })
  | .lseek c =>
      let r := lseekAt s.files i c
      ((r.1, []), { s with files := r.2 })

/-- **What a write returns is what `writeR` returns.** -/
theorem writeRData_eq {fd : ℤ} {i : Fin maxFileDescriptors} (hi : getDescr fd = some i)
    (s : Files) (content : Fin maxFileDescriptors → ℕ → BitVec 8) (data : WriteData)
    (e : WriteEnd) :
    ((writeRData s content fd data e).1.1, (writeRData s content fd data e).2.1) =
      writeR s fd (BitVec.ofNat 32 data.bytes.length)
        (writeBody (s.fil i) (BitVec.ofNat 32 data.bytes.length) e) := by
  unfold writeRData writeR
  split
  · rfl
  · simp only [hi, fWriteData]
    split <;> simp_all only [ne_eq, not_false_eq_true, if_true, if_false]

/-! ### Only appending -/

/-- The content of the file of a slot. -/
def Appending.bytes (s : Appending) (i : Fin maxFileDescriptors) : List (BitVec 8) :=
  load (s.content i) 0 (s.files.fil i).obj.objsize.toNat

/-- What has been written, the oldest first. -/
def writtenBytes (h : List (AppendCall × FileResult × List (BitVec 8))) : List (BitVec 8) :=
  (logOf (fun o => some o.2) h).flatten

/-- **The descriptor only appends**: the content is what it was at the beginning, followed by
everything that has been written. -/
def AppendOk (i : Fin maxFileDescriptors) (s₀ : Appending)
    (h : List (AppendCall × FileResult × List (BitVec 8))) (s : Appending) : Prop :=
  s.bytes i = s₀.bytes i ++ writtenBytes h

/-- A write is made at the end of the file, and no seek leaves it; what is refused, since an
earlier call has failed, may be anything. -/
def AtEnd (i : Fin maxFileDescriptors) (s : Appending) : AppendCall → Prop
  | .write data _ => data.bytes = [] ∨ (s.files.fil i).err ≠ .ok ∨
      (s.files.fil i).fptr = (s.files.fil i).obj.objsize
  | .read .. => True
  | .lseek c => (s.files.fil i).err ≠ .ok ∨ ∀ dest, seekDest (s.files.fil i) c.ptr c.dir = some dest →
      dest.toNat ≤ (s.files.fil i).obj.objsize.toNat

/-! ### One call -/

section Step

variable (i : Fin maxFileDescriptors) (s : Appending)

/-- What a write leaves in its slot. -/
theorem appendStep_write (data : WriteData) (e : WriteEnd) :
    let r := fWriteData s.files.vols (s.files.fil i) (s.content i) data.bytes e
    (appendStep i s (.write data e)).1.2 = data.bytes.take r.1.1.2.toNat ∧
      (appendStep i s (.write data e)).2.files.fil i = r.1.2 ∧
      (appendStep i s (.write data e)).2.content i = r.2 := by
  have hne : ¬((i : ℤ) + 3 = 1 ∨ (i : ℤ) + 3 = 2) := by omega
  simp only [appendStep, writeRData, if_neg hne, getDescr_add_three, setFil_self,
    Function.update_self]
  exact ⟨trivial, trivial, trivial⟩

/-- What a read leaves in its slot. -/
theorem appendStep_read (n : BitVec 32) (e : ReadEnd) :
    (appendStep i s (.read n e)).2.files.fil i =
      (fRead s.files.vols (s.files.fil i) (readBody (s.files.fil i) n e)).2 := by
  have hne : ¬((i : ℤ) + 3 = 1 ∨ (i : ℤ) + 3 = 2) := by omega
  simp only [appendStep, readR, if_neg hne, getDescr_add_three]
  split <;> exact setFil_self _ _ _

/-- A read leaves the end of the file. -/
theorem appendStep_read_objsize (n : BitVec 32) (e : ReadEnd) :
    ((appendStep i s (.read n e)).2.files.fil i).obj.objsize =
      (s.files.fil i).obj.objsize := by
  rw [appendStep_read, fRead]
  by_cases h : Accepts s.files.vols (s.files.fil i) faRead
  · rw [fAccess_of_accepts h, Fil.transfer_objsize]
    rfl
  · rw [(fAccess_of_not_accepts h _).2.2]

/-- What a seek does to the end of the file: nothing if it is refused, and otherwise what the
loop along the chain does. -/
theorem appendStep_lseek_objsize (c : SeekCall) :
    ((appendStep i s (.lseek c)).2.files.fil i).obj.objsize = (s.files.fil i).obj.objsize ∨
      (s.files.fil i).err = .ok ∧ ∃ dest, seekDest (s.files.fil i) c.ptr c.dir = some dest ∧
        ((appendStep i s (.lseek c)).2.files.fil i).obj.objsize =
          (seekIo (s.files.fil i) c.env dest).objsize := by
  cases hdest : seekDest (s.files.fil i) c.ptr c.dir with
  | none =>
    refine Or.inl ?_
    simp only [appendStep, lseekAt, lseekR, getDescr_add_three, hdest]
  | some dest =>
    by_cases hvalid : validate s.files.vols (s.files.fil i).obj = .ok
    · by_cases herr : (s.files.fil i).err = .ok
      · refine Or.inr ⟨herr, dest, rfl, ?_⟩
        have hopen := (lseekAt_of_open (c := c) hvalid herr hdest).2.1
        rwa [SeekCall.io, hdest] at hopen
      · have hsame := (fLseek_of_refused (Or.inr herr) (c.io (s.files.fil i)) :
          (fLseek s.files.vols (s.files.fil i) _).1 ≠ .ok ∧ _).2
        refine Or.inl ?_
        simp only [appendStep, lseekAt, lseekR, getDescr_add_three, hdest]
        split <;> simp only [setFil_self, hsame]
    · have hsame := (fLseek_of_refused (Or.inl hvalid) (c.io (s.files.fil i))).2
      refine Or.inl ?_
      simp only [appendStep, lseekAt, lseekR, getDescr_add_three, hdest]
      split <;> simp only [setFil_self, hsame]

variable {i s} {s₀ : Appending} {h : List (AppendCall × FileResult × List (BitVec 8))}

theorem writtenBytes_cons (e : AppendCall) (o : FileResult × List (BitVec 8)) :
    writtenBytes ((e, o) :: h) = writtenBytes h ++ o.2 := by
  simp [writtenBytes, logOf]

/-- **Every call at the end of the file keeps the property.** -/
theorem appendOk_step (hok : AppendOk i s₀ h s) {e : AppendCall} (hend : AtEnd i s e) :
    AppendOk i s₀ ((e, (appendStep i s e).1) :: h) (appendStep i s e).2 := by
  rw [AppendOk, writtenBytes_cons, ← List.append_assoc, ← show _ = _ from hok]
  cases e with
  | write data e =>
    obtain ⟨hwritten, hfil, hcontent⟩ := appendStep_write i s data e
    rw [hwritten, Appending.bytes, hfil, hcontent]
    rcases hend with hnil | herr | hend
    · obtain ⟨hsize, hsame⟩ := fWriteData_nil s.files.vols (s.files.fil i) (s.content i) e
      rw [hnil, hsize, hsame]
      simp [Appending.bytes]
    · have hnot : ¬Accepts s.files.vols (s.files.fil i) faWrite := fun hcon => herr hcon.2.1
      obtain ⟨-, hcount, hsame, hbytes⟩ := fWriteData_of_not_accepts (s.content i)
        data.bytes e hnot
      rw [hcount, hsame, hbytes]
      simp [Appending.bytes]
    · exact load_fWriteData (s.content i) data.bytes e hend data.length_lt
  | read n e =>
    rw [Appending.bytes, appendStep_read_objsize]
    simp [appendStep, Appending.bytes]
  | lseek c =>
    have hsize : ((appendStep i s (.lseek c)).2.files.fil i).obj.objsize =
        (s.files.fil i).obj.objsize := by
      rcases appendStep_lseek_objsize i s c with hsame | ⟨herr, dest, hdest, hsize⟩
      · exact hsame
      · rw [hsize]
        exact seekIo_objsize_of_le _ _ _ ((hend.resolve_left (not_not.mpr herr)) dest hdest)
    rw [Appending.bytes, hsize]
    simp [appendStep, Appending.bytes]

end Step

/-! ### Every run -/

/-- **The descriptor only appends** along every run in which each write is made at the end of the
file and no seek leaves it, whatever the state it begins with. -/
theorem appendOk_of_atEnd {i : Fin maxFileDescriptors} {s₀ s : Appending}
    {h : List (AppendCall × FileResult × List (BitVec 8))}
    (hr : Reach (fnStep (appendStep i)) (AtEnd i) s₀ h s) : AppendOk i s₀ h s := by
  refine hr.fnInvariant (AppendOk i s₀) ?_ ?_
  · simp [AppendOk, writtenBytes, logOf]
  · intro h s e hok hend
    exact appendOk_step hok hend

/-- A file of 100 bytes, all of them zero, is opened with `O_WRONLY | O_APPEND`. -/
def appendHundred : Appending :=
  ⟨(runFn fileStep [] Files.init [.mount (some .sd) (some ['/', 's', 'd']) false mountGood,
    .openR sdFile 0x9#32 openGood]).2, fun _ _ => 0#8⟩

/-- One byte. -/
def oneByte : WriteData := ⟨oneByteFile.content, oneByteFile.length_lt⟩

/-- A write that moves everything. -/
def writeGood : WriteEnd := ⟨none, false, 0#32, 5#32, false, fun _ => 0#8⟩

/-- Two bytes are appended, with a seek between them that does not move. -/
theorem appendOk_of_atEnd_twice :
    let r := runFn (appendStep 0) [] appendHundred
      [.write oneByte writeGood, .lseek ⟨0#32, .cur, chainEnv⟩, .write oneByte writeGood]
    AppendOk 0 appendHundred r.1 r.2 ∧ writtenBytes r.1 = [1#8, 1#8] := by
  intro r
  have hreach : Reach (fnStep (appendStep 0)) (AtEnd 0) appendHundred r.1 r.2 := by
    refine reach_runFn ⟨Or.inr (Or.inr (by decide)), Or.inr fun dest hdest => ?_,
      Or.inr (Or.inr (by decide)), trivial⟩
    rw [← Option.some.inj hdest]
    decide
  exact ⟨appendOk_of_atEnd hreach, by decide⟩

/-- **A write after a seek goes over the file.** The descriptor is open with `O_APPEND`; a seek to
the beginning and a write of one byte replace the first byte and add none. -/
theorem not_appendOk_rewind :
    let r := runFn (appendStep 0) [] appendHundred
      [.lseek ⟨0#32, .set, chainEnv⟩, .write oneByte writeGood]
    Reach (fnStep (appendStep 0)) Always appendHundred r.1 r.2 ∧
      r.1.map (fun e => e.2.1) = [⟨1, none⟩, ⟨0, none⟩] ∧
      appendHundred.content 0 0 = 0#8 ∧ r.2.content 0 0 = 1#8 ∧
      (r.2.files.fil 0).obj.objsize = 100#32 ∧ ¬AppendOk 0 appendHundred r.1 r.2 := by
  intro r
  refine ⟨reach_runFn okAlong_always, by decide, rfl, by decide, by decide, fun hok => ?_⟩
  have hlength := congrArg List.length hok
  exact absurd hlength (by decide)

/-! ### Runs without seeks -/

section NoSeek

/-- The call is no seek. -/
def NoSeek (_ : Appending) : AppendCall → Prop
  | .lseek _ => False
  | _ => True

/-- The position is at the end of the file, and reads do not move it. -/
def Attached (i : Fin maxFileDescriptors) (s : Appending) : Prop :=
  (s.files.fil i).fptr = (s.files.fil i).obj.objsize ∧ has (s.files.fil i).flag faRead = false

/-- **An open with `O_APPEND`** and for writing leaves the position at the end of the file, and a
descriptor that cannot be read. -/
theorem openR_append {s : Files} {path : Path} {cFlags : BitVec 32} {io : OpenIo}
    (happend : has cFlags oAppend = true) (hwriting : has cFlags oWriting = true)
    (hok : (openR s path cFlags io).1.errno = none) :
    ∃ i : Fin maxFileDescriptors, (openR s path cFlags io).1 = ⟨i + 3, none⟩ ∧
      ∀ content, Attached i ⟨(openR s path cFlags io).2, content⟩ := by
  obtain ⟨i, hfree, hres⟩ := openR_ok_imp hok
  obtain ⟨p, -, w, -, -, -, -, hopened⟩ := fOpen_ok_imp hres
  have hmode := (createOrOpen_mode (openMode cFlags) io.followed io).imp_right And.right
  obtain ⟨⟨hread, -⟩, ⟨hreadModified, -⟩, hseek⟩ := has_openMode_access cFlags hmode
  rw [happend] at hseek
  rw [hwriting] at hread hreadModified
  generalize hr : fOpen s.vols (s.fil i) path (openFlags cFlags) io = r at hres hopened
  change r.2 = ((openAt w p (createOrOpen (openMode cFlags) io.followed io).2 io).2, w) at hopened
  generalize (createOrOpen (openMode cFlags) io.followed io).2 = m at *
  rw [openR_of_free hfree hr, if_neg (not_not.mpr hres), hopened]
  refine ⟨i, rfl, fun content => ?_⟩
  simp only [Attached, Function.update_self]
  have hflag : has (openAt w p m io).2.flag faRead = false := by
    rw [(openAt_fields w p m io).2.1, openedFil]
    dsimp only
    split
    · exact hreadModified
    · exact hread
  refine ⟨?_, hflag⟩
  -- an empty file is at its end already
  simp only [openAt, hseek, Bool.true_and, bne_iff_ne, ne_eq]
  split
  · rfl
  · rename_i hempty
    exact (not_not.mp hempty).symm

variable {i : Fin maxFileDescriptors} {s : Appending}

/-- A write keeps the position at the end. -/
theorem attached_write (h : Attached i s) (data : WriteData) (e : WriteEnd) :
    Attached i (appendStep i s (.write data e)).2 := by
  rw [Attached, (appendStep_write i s data e).2.1]
  by_cases haccepts : Accepts s.files.vols (s.files.fil i) faWrite
  · rw [fWriteData_fil _ _ _ haccepts]
    refine ⟨?_, ?_⟩
    · rw [Fil.transfer_fptr, Fil.transfer_objsize]
      refine BitVec.eq_of_toNat_eq ?_
      have hfptr := toNat_fptr_add_writeCount (s.files.fil i)
        (BitVec.ofNat 32 data.bytes.length) e
      by_cases hzero : writeCount (s.files.fil i) (BitVec.ofNat 32 data.bytes.length) e = 0#32
      · rw [writeBody_objsize_of_zero _ _ _ hzero, ← h.1]
        simp [writeBody, hzero]
      · rw [toNat_writeBody_objsize _ _ _ hzero, ← h.1]
        refine hfptr.trans ?_
        omega
    · rw [Fil.transfer_flag]
      exact has_writeFlag_faRead h.2 e
  · rw [(fWriteData_of_not_accepts _ _ _ haccepts).2.2.1]
    exact h

/-- A read is refused. -/
theorem attached_read (h : Attached i s) (n : BitVec 32) (e : ReadEnd) :
    Attached i (appendStep i s (.read n e)).2 := by
  have hnot : ¬Accepts s.files.vols (s.files.fil i) faRead := by
    rintro ⟨-, -, hread⟩
    rw [h.2] at hread
    exact Bool.false_ne_true hread
  rw [Attached, appendStep_read, fRead, (fAccess_of_not_accepts hnot _).2.2]
  exact h

/-- **Without seeks the descriptor only appends**, once its position is at the end of the file,
as an open with `O_APPEND` leaves it. -/
theorem appendOk_of_noSeek {s₀ : Appending} (hstart : Attached i s₀)
    {h : List (AppendCall × FileResult × List (BitVec 8))}
    (hr : Reach (fnStep (appendStep i)) NoSeek s₀ h s) : AppendOk i s₀ h s := by
  have hinv : AppendOk i s₀ h s ∧ Attached i s := by
    refine hr.fnInvariant (fun h s => AppendOk i s₀ h s ∧ Attached i s) ⟨?_, hstart⟩ ?_
    · simp [AppendOk, writtenBytes, logOf]
    · rintro h s e ⟨hok, hatt⟩ hno
      cases e with
      | write data e =>
        exact ⟨appendOk_step hok (Or.inr (Or.inr hatt.1)), attached_write hatt data e⟩
      | read n e => exact ⟨appendOk_step hok trivial, attached_read hatt n e⟩
      | lseek c => exact hno.elim
  exact hinv.1

/-- So does every descriptor that was opened with `O_APPEND` and for writing. -/
theorem appendOk_of_openR {s : Files} {path : Path} {cFlags : BitVec 32} {io : OpenIo}
    (happend : has cFlags oAppend = true) (hwriting : has cFlags oWriting = true)
    (hok : (openR s path cFlags io).1.errno = none) :
    ∃ i : Fin maxFileDescriptors, (openR s path cFlags io).1 = ⟨i + 3, none⟩ ∧
      ∀ content h t, Reach (fnStep (appendStep i)) NoSeek ⟨(openR s path cFlags io).2, content⟩ h t →
        AppendOk i ⟨(openR s path cFlags io).2, content⟩ h t := by
  obtain ⟨i, hret, hatt⟩ := openR_append happend hwriting hok
  exact ⟨i, hret, fun content h t hr => appendOk_of_noSeek (hatt content) hr⟩

end NoSeek

/-! ### The condition is needed -/

section Needed

variable {i : Fin maxFileDescriptors} {s₀ s : Appending}
  {h : List (AppendCall × FileResult × List (BitVec 8))}

theorem length_bytes (t : Appending) :
    (t.bytes i).length = (t.files.fil i).obj.objsize.toNat := by
  simp [Appending.bytes, load]

/-- The property fails as soon as the file does not grow by what a call has written. -/
theorem not_appendOk_of_length (hok : AppendOk i s₀ h s) {e : AppendCall}
    (hne : ((appendStep i s e).2.files.fil i).obj.objsize.toNat ≠
      (s.files.fil i).obj.objsize.toNat + (appendStep i s e).1.2.length) :
    ¬AppendOk i s₀ ((e, (appendStep i s e).1) :: h) (appendStep i s e).2 := by
  intro hcon
  rw [AppendOk, writtenBytes_cons, ← List.append_assoc, ← show _ = _ from hok] at hcon
  refine hne ?_
  rw [← length_bytes, hcon, List.length_append, length_bytes]

/-- **A write that is not made at the end** and moves something goes over what is there. -/
theorem not_appendOk_of_inside (hok : AppendOk i s₀ h s) {data : WriteData} {e : WriteEnd}
    (haccepts : Accepts s.files.vols (s.files.fil i) faWrite)
    (hinside : (s.files.fil i).fptr ≠ (s.files.fil i).obj.objsize)
    (hcount : writeCount (s.files.fil i) (BitVec.ofNat 32 data.bytes.length) e ≠ 0#32) :
    ¬AppendOk i s₀ ((.write data e, (appendStep i s (.write data e)).1) :: h)
      (appendStep i s (.write data e)).2 := by
  refine not_appendOk_of_length hok ?_
  obtain ⟨hwritten, hfil, -⟩ := appendStep_write i s data e
  have hle := fWriteData_count_le s.files.vols (s.files.fil i) (s.content i) data.bytes e
    data.length_lt
  rw [hwritten, hfil, List.length_take, Nat.min_eq_left hle, fWriteData_count _ _ _ haccepts,
    fWriteData_fil _ _ _ haccepts, Fil.transfer_objsize, toNat_writeBody_objsize _ _ _ hcount]
  have hpos : (s.files.fil i).fptr.toNat ≠ (s.files.fil i).obj.objsize.toNat :=
    fun hcon => hinside (BitVec.eq_of_toNat_eq hcon)
  have hmoved : (writeCount (s.files.fil i) (BitVec.ofNat 32 data.bytes.length) e).toNat ≠ 0 :=
    fun hcon => hcount (BitVec.eq_of_toNat_eq hcon)
  omega

/-- **A seek that leaves the file** makes it longer with nothing written. -/
theorem not_appendOk_of_extended (hok : AppendOk i s₀ h s) {c : SeekCall} {dest : BitVec 32}
    (hvalid : validate s.files.vols (s.files.fil i).obj = .ok)
    (herr : (s.files.fil i).err = .ok)
    (hdest : seekDest (s.files.fil i) c.ptr c.dir = some dest)
    (hleft : (s.files.fil i).obj.objsize.toNat <
      (seekPos (s.files.fil i) c.env (clipOfs (s.files.fil i) dest.toNat)).fptr)
    (hfound : (seekPos (s.files.fil i) c.env (clipOfs (s.files.fil i) dest.toNat)).abort = none) :
    ¬AppendOk i s₀ ((.lseek c, (appendStep i s (.lseek c)).1) :: h)
      (appendStep i s (.lseek c)).2 := by
  refine not_appendOk_of_length hok ?_
  have hsize := (lseekAt_of_open (c := c) hvalid herr hdest).2.1
  rw [SeekCall.io, hdest] at hsize
  show ((lseekAt s.files i c).2.fil i).obj.objsize.toNat ≠ _ + 0
  rw [hsize, seekIo_objsize_of_gt _ _ _ hfound hleft]
  omega

end Needed

end LibcIo

end BareMetal
