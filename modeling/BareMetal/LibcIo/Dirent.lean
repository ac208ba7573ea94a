import BareMetal.Runs
import BareMetal.Handover
import BareMetal.LibcIo.Errno
import Mathlib.Logic.Function.Basic

/-!
# Directory streams

`readdir` asks FatFs for the next item of a directory and hands out the address of a
`struct dirent` it has filled in. There is **one** such structure, a static variable of the
function, for all streams.

Each name arrives whole: the longest name FatFs returns fits (`BareMetal.LibcIo.entry_direntOf`),
and what a stream has obtained, entry by entry, is what FatFs has yielded for it. But an entry
has to survive until its stream is read or closed again, and a `readdir` of any other stream
that finds something overwrites it – which is what every walk through a tree of directories
does when it goes down one level. The structure is a hand-over through shared memory
(`BareMetal.Undisturbed`): an entry is due to its stream from one call to the next, and it is
kept along exactly the runs in which no stream is read over the entry of another
(`BareMetal.LibcIo.direntsOk_of_noOverwrite`, `BareMetal.LibcIo.not_direntsOk_of_overwrite`).

What FatFs answers is an input of a call.
-/

namespace BareMetal

namespace LibcIo

open FatFs (FResult amDir has)

/-! ### The code -/

/-- `FF_LFN_BUF`. -/
def ffLfnBuf : ℕ := 255

/-- `FILINFO`, as far as `readdir` looks at it: `fname` is a string that fits its array. -/
structure FilInfo where
  fname : List (BitVec 8)
  fattrib : BitVec 8
  length_le : fname.length ≤ ffLfnBuf
  ne_zero : 0#8 ∉ fname

/-- `struct dirent`. -/
structure Dirent where
  dType : BitVec 8
  dName : Fin 256 → BitVec 8

/-- The address of the `struct dirent` of `readdir`. -/
inductive DirentPtr where
  | de
  deriving DecidableEq, Repr

/-- `DT_DIR`. -/
def dtDir : BitVec 8 := 4#8

/-- `DT_REG`. -/
def dtReg : BitVec 8 := 8#8

/-- The static variable of `readdir`, and the blocks of the heap that hold a `DIR`. -/
structure Dirs where
  de : Dirent
  dir : ℕ → Bool

/-- Power-on. -/
def Dirs.init : Dirs := ⟨⟨0#8, fun _ => 0#8⟩, fun _ => false⟩

/-- What a pointer to a `struct dirent` points to. -/
def Dirs.deref (s : Dirs) : DirentPtr → Dirent
  | .de => s.de

/-- `strncpy`: what is behind the end of the source is filled with zeros. -/
def strncpy (dst : Fin 256 → BitVec 8) (src : List (BitVec 8)) (n : ℕ) : Fin 256 → BitVec 8 :=
  fun i => if i < n then (src[(i : ℕ)]?).getD 0#8 else dst i

/-- A call, with what `malloc` and FatFs answer in it. -/
inductive DirCall where
  | opendir (block : Option ℕ) (rc : FResult)
  | closedir (dir : ℕ) (rc : FResult)
  | readdir (dir : ℕ) (rc : FResult) (fi : FilInfo)

/-- What a call returns, with what it stores in `errno`; for a `readdir`, the pointer together
with what it points to. -/
inductive DirResult where
  | opened (dir : Option ℕ) (errno : Option Errno)
  | closed (ret : ℤ) (errno : Option Errno)
  | read (de : Option (DirentPtr × Dirent)) (errno : Option Errno)

/-- `opendir`. -/
def opendir (s : Dirs) (block : Option ℕ) (rc : FResult) : DirResult × Dirs :=
  match block with
  | none => (.opened none (some .enomem), s)
  | some dir =>
      if rc ≠ .ok then (.opened none (rc2errno rc), s)
      else (.opened (some dir) none, { s with dir := Function.update s.dir dir true })

/-- `closedir`; on an error the block stays allocated. -/
def closedir (s : Dirs) (dir : ℕ) (rc : FResult) : DirResult × Dirs :=
  if rc ≠ .ok then (.closed (-1) (rc2errno rc), s)
  else (.closed 0 none, { s with dir := Function.update s.dir dir false })

/-- What `readdir` fills in. -/
def direntOf (fi : FilInfo) : Dirent where
  dName := strncpy (fun _ => 0#8) fi.fname (256 - 1)
  dType := if has fi.fattrib amDir then dtDir else dtReg

/-- `readdir`. -/
def readdir (s : Dirs) (rc : FResult) (fi : FilInfo) : DirResult × Dirs :=
  if rc ≠ .ok then (.read none (rc2errno rc), s)
  else if fi.fname = [] then
    -- the end of the directory
    (.read none none, s)
  else
    let s := { s with de := direntOf fi }
    (.read (some (.de, s.deref .de)) none, s)

/-- One call. -/
def dirStep (s : Dirs) : DirCall → DirResult × Dirs
  | .opendir block rc => opendir s block rc
  | .closedir dir rc => closedir s dir rc
  | .readdir _ rc fi => readdir s rc fi

/-! ### Entries -/

/-- The string in `d_name`, and `d_type`. -/
def Dirent.entry (de : Dirent) : List (BitVec 8) × BitVec 8 :=
  (((List.finRange 256).map de.dName).takeWhile (· ≠ 0#8), de.dType)

/-- The entry FatFs yields in a call of `f_readdir`, if there is one. -/
def yields (rc : FResult) (fi : FilInfo) : Option (List (BitVec 8) × BitVec 8) :=
  if rc = .ok ∧ fi.fname ≠ [] then
    some (fi.fname, if has fi.fattrib amDir then dtDir else dtReg)
  else
    none

/-- What FatFs has yielded for a stream, the newest first. -/
def yielded : List (DirCall × DirResult) → ℕ → List (List (BitVec 8) × BitVec 8)
  | [], _ => []
  | (.readdir dir' rc fi, _) :: h, dir =>
      if dir' = dir then (yields rc fi).toList ++ yielded h dir else yielded h dir
  | _ :: h, dir => yielded h dir

/-- What a stream has obtained, the newest first. -/
def obtained : List (DirCall × DirResult) → ℕ → List (List (BitVec 8) × BitVec 8)
  | [], _ => []
  | (.readdir dir' _ _, .read de _) :: h, dir =>
      if dir' = dir then (de.map fun p => p.2.entry).toList ++ obtained h dir else obtained h dir
  | _ :: h, dir => obtained h dir

/-- The entry a stream holds: its last call was a `readdir` that found this one. -/
def held : List (DirCall × DirResult) → ℕ → Option (List (BitVec 8) × BitVec 8)
  | [], _ => none
  | (.readdir dir' rc fi, _) :: h, dir => if dir' = dir then yields rc fi else held h dir
  | (.closedir dir' _, _) :: h, dir => if dir' = dir then none else held h dir
  | (.opendir .., _) :: h, dir => held h dir

/-- What the holder of an entry sees: all of them look at one structure. -/
def seesDirent (s : Dirs) (_dir : ℕ) : List (BitVec 8) × BitVec 8 := (s.deref .de).entry

/-- **Entries survive**: a stream that holds an entry finds it where it was told, and every
stream has obtained what FatFs has yielded for it. -/
structure DirentsOk (h : List (DirCall × DirResult)) (s : Dirs) : Prop where
  kept : Undisturbed seesDirent (held h) s
  listed : ∀ dir, obtained h dir = yielded h dir

/-- No stream was read over an entry that another one held, unless with the same entry. -/
def NoOverwrite : List (DirCall × DirResult) → Prop
  | [] => True
  | (.readdir dir rc fi, _) :: h =>
      (∀ dir' e e', dir' ≠ dir → held h dir' = some e' → yields rc fi = some e → e = e') ∧
        NoOverwrite h
  | _ :: h => NoOverwrite h

/-! ### Names -/

/-- The bytes of a copied name: the name, and zeros up to the end of the array. -/
theorem map_strncpy (fi : FilInfo) :
    (List.finRange 256).map (direntOf fi).dName =
      fi.fname ++ List.replicate (256 - fi.fname.length) 0#8 := by
  have hlen : fi.fname.length ≤ 255 := fi.length_le
  refine List.ext_getElem (by simp; omega) fun i hi hi' => ?_
  have hi256 : i < 256 := by simpa using hi
  rw [List.getElem_map, List.getElem_finRange]
  simp only [direntOf, strncpy, Fin.val_cast, Nat.add_one_sub_one]
  by_cases hname : i < fi.fname.length
  · rw [if_pos (by omega), List.getElem?_eq_getElem hname, List.getElem_append_left hname]
    rfl
  · rw [List.getElem_append_right (by omega), List.getElem_replicate,
      List.getElem?_eq_none (by omega)]
    split <;> rfl

/-- **No name is truncated**: what is filled in is what FatFs has yielded. -/
theorem entry_direntOf {rc : FResult} {fi : FilInfo} {e : List (BitVec 8) × BitVec 8}
    (h : yields rc fi = some e) : (direntOf fi).entry = e := by
  have hname : (fi.fname ++ List.replicate (256 - fi.fname.length) 0#8).takeWhile (· ≠ 0#8) =
      fi.fname := by
    rw [List.takeWhile_append_of_pos]
    · simp
    · intro b hb
      simp only [decide_eq_true_eq]
      rintro rfl
      exact fi.ne_zero hb
  unfold yields at h
  split at h
  · rw [Dirent.entry, map_strncpy, hname]
    exact Option.some.inj h
  · simp at h

/-! ### What a call does -/

theorem readdir_none {rc : FResult} {fi : FilInfo} (h : yields rc fi = none) (s : Dirs) :
    (readdir s rc fi).2 = s ∧ ∃ err, (readdir s rc fi).1 = .read none err := by
  unfold readdir
  split
  · exact ⟨rfl, _, rfl⟩
  · rename_i hrc
    have hend : fi.fname = [] := by
      by_contra hne
      simp only [ne_eq, Decidable.not_not] at hrc
      simp [yields, hrc, hne] at h
    rw [if_pos hend]
    exact ⟨rfl, _, rfl⟩

theorem readdir_some {rc : FResult} {fi : FilInfo} {e : List (BitVec 8) × BitVec 8}
    (h : yields rc fi = some e) (s : Dirs) :
    (readdir s rc fi).2 = { s with de := direntOf fi } ∧
      (readdir s rc fi).1 = .read (some (.de, direntOf fi)) none := by
  have hcond : rc = .ok ∧ fi.fname ≠ [] := by
    by_contra hcon
    simp [yields, hcon] at h
  rw [readdir, if_neg (by simp [hcond.1]), if_neg hcond.2]
  exact ⟨rfl, rfl⟩

theorem opendir_de (s : Dirs) (block : Option ℕ) (rc : FResult) :
    (opendir s block rc).2.de = s.de := by
  unfold opendir
  split
  · rfl
  · split <;> rfl

theorem closedir_de (s : Dirs) (dir : ℕ) (rc : FResult) : (closedir s dir rc).2.de = s.de := by
  unfold closedir
  split <;> rfl

/-! ### Every run -/

/-- A call keeps the entries that are held, if it is not made over one of them. -/
theorem kept_step {h : List (DirCall × DirResult)} {s : Dirs}
    (hkept : Undisturbed seesDirent (held h) s) (e : DirCall)
    (hno : NoOverwrite ((e, (dirStep s e).1) :: h)) :
    Undisturbed seesDirent (held ((e, (dirStep s e).1) :: h)) (dirStep s e).2 := by
  cases e with
  | opendir block rc =>
    refine hkept.step fun dir v hv => Or.inl ⟨hv, ?_⟩
    simp only [seesDirent, Dirs.deref, dirStep, opendir_de]
  | closedir dir rc =>
    refine hkept.step fun dir' v hv => Or.inl ⟨?_, ?_⟩
    · simp only [held] at hv
      split at hv
      · simp at hv
      · exact hv
    · simp only [seesDirent, Dirs.deref, dirStep, closedir_de]
  | readdir dir rc fi =>
    cases hy : yields rc fi with
    | none =>
      have hsame : (dirStep s (.readdir dir rc fi)).2 = s := (readdir_none hy s).1
      rw [hsame]
      refine hkept.settle fun dir' v hv => ?_
      simp only [held, hy] at hv
      split at hv
      · simp at hv
      · exact hv
    | some e =>
      have hnew : (dirStep s (.readdir dir rc fi)).2 = { s with de := direntOf fi } :=
        (readdir_some hy s).1
      rw [hnew]
      refine hkept.step fun dir' v hv => Or.inr ?_
      have hsees : seesDirent { s with de := direntOf fi } dir' = e := entry_direntOf hy
      rw [hsees]
      simp only [held, hy] at hv
      split at hv
      · exact Option.some.inj hv
      · rename_i hne
        exact hno.1 dir' e v (Ne.symm hne) hv hy

/-- A call lets each stream obtain what FatFs yields for it. -/
theorem listed_step {h : List (DirCall × DirResult)} {dir : ℕ}
    (hlisted : obtained h dir = yielded h dir) (s : Dirs) (e : DirCall) :
    obtained ((e, (dirStep s e).1) :: h) dir = yielded ((e, (dirStep s e).1) :: h) dir := by
  cases e with
  | opendir block rc => exact hlisted
  | closedir dir' rc => exact hlisted
  | readdir dir' rc fi =>
    cases hy : yields rc fi with
    | none =>
      obtain ⟨err, hres⟩ := (readdir_none hy s).2
      simp only [dirStep, hres, obtained, yielded, hy, hlisted]
      rfl
    | some e =>
      simp only [dirStep, (readdir_some hy s).2, obtained, yielded, hy, hlisted, Option.map_some,
        entry_direntOf hy]

/-- **Entries survive along every run in which no stream is read over the entry of
another.** -/
theorem direntsOk_of_noOverwrite {h : List (DirCall × DirResult)} {s : Dirs}
    (hr : Reach (fnStep dirStep) Always Dirs.init h s) (hno : NoOverwrite h) : DirentsOk h s := by
  have hinv : (NoOverwrite h → Undisturbed seesDirent (held h) s) ∧
      ∀ dir, obtained h dir = yielded h dir := by
    refine hr.fnInvariant (fun h s => (NoOverwrite h → Undisturbed seesDirent (held h) s) ∧
      ∀ dir, obtained h dir = yielded h dir) ⟨fun _ => ?_, fun _ => rfl⟩ ?_
    · exact undisturbed_none fun _ => rfl
    · rintro h s e ⟨hkept, hlisted⟩ -
      refine ⟨fun hno => kept_step (hkept ?_) e hno, fun dir => listed_step (hlisted dir) s e⟩
      cases e with
      | opendir block rc => exact hno
      | closedir dir rc => exact hno
      | readdir dir rc fi => exact hno.2
  exact ⟨hinv.1 hno, hinv.2⟩

/-- A file `a`. -/
def fileA : FilInfo := ⟨[0x61#8], 0#8, by decide, by decide⟩

/-- A directory `b`. -/
def directoryB : FilInfo := ⟨[0x62#8], amDir, by decide, by decide⟩

/-- One stream is read and closed, and then another one is. -/
theorem direntsOk_of_noOverwrite_closed :
    let r := runFn dirStep [] Dirs.init [.opendir (some 1) .ok, .readdir 1 .ok directoryB,
      .closedir 1 .ok, .opendir (some 2) .ok, .readdir 2 .ok fileA]
    DirentsOk r.1 r.2 ∧ held r.1 2 = some ([0x61#8], dtReg) := by
  intro r
  have hreach : Reach (fnStep dirStep) Always Dirs.init r.1 r.2 := reach_runFn okAlong_always
  have hheld : ∀ dir, held (runFn dirStep [] Dirs.init [.opendir (some 1) .ok,
      .readdir 1 .ok directoryB, .closedir 1 .ok, .opendir (some 2) .ok]).1 dir = none := by
    intro dir
    by_cases h1 : 1 = dir
    · simp [runFn, held, h1]
    · simp [runFn, held, h1]
  refine ⟨direntsOk_of_noOverwrite hreach ⟨?_, ?_, trivial⟩, by decide⟩
  · intro dir' e e' _ hcon
    exact absurd ((hheld dir').symm.trans hcon) (by simp)
  · intro dir' e e' _ hcon
    exact absurd hcon (by simp [held])

/-- **A walk goes down one level.** The directory is read, its first entry is the directory
`b`; that one is opened and read, and the entry of the first stream has become the one of the
second. -/
theorem not_direntsOk_walk :
    let r := runFn dirStep [] Dirs.init [.opendir (some 1) .ok, .readdir 1 .ok directoryB,
      .opendir (some 2) .ok, .readdir 2 .ok fileA]
    Reach (fnStep dirStep) Always Dirs.init r.1 r.2 ∧ held r.1 1 = some ([0x62#8], dtDir) ∧
      seesDirent r.2 1 = ([0x61#8], dtReg) ∧ ¬DirentsOk r.1 r.2 := by
  intro r
  have hyields : yields .ok fileA = some ([0x61#8], dtReg) := by decide
  have hsees : seesDirent r.2 1 = ([0x61#8], dtReg) := entry_direntOf hyields
  refine ⟨reach_runFn okAlong_always, by decide, hsees, fun hok => ?_⟩
  have hkept := hok.kept 1 ([0x62#8], dtDir) (by decide)
  rw [hsees] at hkept
  exact absurd hkept (by decide)

/-! ### The condition is needed -/

/-- **A `readdir` over the entry of another stream loses it.** -/
theorem not_direntsOk_of_overwrite {h : List (DirCall × DirResult)} {dir dir' : ℕ} {rc : FResult}
    {fi : FilInfo} {e e' : List (BitVec 8) × BitVec 8} (hne : dir' ≠ dir)
    (hheld : held h dir' = some e') (hy : yields rc fi = some e) (hdiff : e ≠ e') (s : Dirs)
    (o : DirResult) :
    ¬DirentsOk ((.readdir dir rc fi, o) :: h) (dirStep s (.readdir dir rc fi)).2 := by
  intro hok
  have hstill : held ((.readdir dir rc fi, o) :: h) dir' = some e' := by
    rw [held, if_neg (Ne.symm hne), hheld]
  have hkept := hok.kept dir' e' hstill
  have hnew : (dirStep s (.readdir dir rc fi)).2 = { s with de := direntOf fi } :=
    (readdir_some hy s).1
  rw [hnew] at hkept
  exact hdiff ((entry_direntOf hy).symm.trans hkept)

end LibcIo

end BareMetal
