import BareMetal.FatFs.Calls

/-!
# The outcomes of the calls

The calls of `ff.c` are modelled at two levels. The callers in the C library only see the object of a file,
and at their level a call takes what happens inside the volume as an input: how the transfer loop has
ended (`BareMetal.FatFs.BodyIo`), what the steps of `f_sync` have answered (`BareMetal.FatFs.SyncIo`), what
`f_open` has met (`BareMetal.FatFs.OpenIo`). Over a window and a disk these outcomes are computed.

Here the two are put together: with the outcome that is computed (`BareMetal.FatFs.Stream.bodyIo`,
`BareMetal.FatFs.Stream.syncIo`, `BareMetal.FatFs.Stream.openIo`) the call on the object returns and leaves
what the call on the volume does. So whatever holds of the object for **every** outcome holds of the object
over every volume, and disk.

| call | theorem |
|---|---|
| `f_read`, `f_write` | `BareMetal.FatFs.Stream.fRead_outcome`, `BareMetal.FatFs.Stream.fWrite_outcome` |
| `f_lseek` | `BareMetal.FatFs.Stream.fLseek_outcome` |
| `f_sync`, `f_close` | `BareMetal.FatFs.Stream.fSync_outcome`, `BareMetal.FatFs.Stream.fClose_outcome` |
| `f_open` | `BareMetal.FatFs.Stream.fOpen_outcome` |

How the loops of `f_write` and `f_lseek` end is looked at more closely in the next two modules. Only
`f_open` asks for something: that an object that is filled after its file has been overwritten is
empty is read off the window, which has been elsewhere in between.
-/

namespace BareMetal

namespace FatFs

namespace Stream

variable {δ : Type} [DiskIo δ] {vols : Volumes} {g : Geometry} {v : Vol δ} {f : OpenFil}

/-! ### Reading, writing and seeking -/

/-- The error a computation has left with. -/
def errorOf {α : Type} : Except InnerResult α → Option InnerResult
  | .ok _ => none
  | .error e => some e

/-- What a call leaves of the object, and of the bytes. -/
def leaves (abort : Option InnerResult) (s : FileState δ) : BodyIo :=
  ⟨BitVec.ofNat 32 s.moved.length, abort, s.fil.flag, s.fil.obj.sclust, s.fil.obj.objsize, s.fil.fptr⟩

/-- How the body of a call ends. -/
def bodyIo (m : FileM δ Unit) (v : Vol δ) (f : OpenFil) : BodyIo :=
  leaves (errorOf (m.from ⟨v, f, []⟩).1) (m.from ⟨v, f, []⟩).2

omit [DiskIo δ] in
/-- A call whose runs all leave something of a kind leaves something of that kind. -/
theorem exists_bodyIo {m : FileM δ Unit} {v : Vol δ} {f : OpenFil} {α : Type} {F : α → BodyIo}
    (h : Ends m ⟨v, f, []⟩ (fun _ s => ∃ a, leaves none s = F a) fun e s => ∃ a, leaves (some e) s = F a) :
    ∃ a, bodyIo m v f = F a := by
  unfold Ends at h
  unfold bodyIo
  generalize m.from ⟨v, f, []⟩ = r at h
  obtain ⟨e | u, s⟩ := r
  · exact h
  · exact h

omit [DiskIo δ] in
/-- A body that leaves the handle of the object is a transfer of the object. -/
theorem transfer_bodyIo {m : FileM δ Unit} (hm : ∀ o, Keeps (fun s => s.fil.handle = o) m) (v : Vol δ)
    (f : OpenFil) : f.toFil.transfer (bodyIo m v f) =
      (((run m v f).1.1, BitVec.ofNat 32 (run m v f).1.2.length), (run m v f).2.2.toFil) := by
  have hkeeps := hm f.handle ⟨v, f, []⟩ rfl
  unfold Ends at hkeeps
  unfold run bodyIo leaves Fil.transfer
  generalize m.from ⟨v, f, []⟩ = r at hkeeps
  obtain ⟨r | r, s⟩ := r
  all_goals
    have hfs : s.fil.obj.fs = f.obj.fs := congrArg Handle.fs hkeeps
    have hid : s.fil.obj.id = f.obj.id := congrArg Handle.id hkeeps
    have herr : s.fil.err = f.err := congrArg Handle.err hkeeps
    simp only [errorOf, ← hfs, ← hid, ← herr]

omit [DiskIo δ] in
/-- The checks at the head of a call are the same. -/
theorem call_outcome {m : FileM δ Unit} (hm : ∀ o, Keeps (fun s => s.fil.handle = o) m)
    (access : BitVec 8) : fAccess vols f.toFil access (bodyIo m v f) =
      (((call vols (some access) m v f).1.1, BitVec.ofNat 32 (call vols (some access) m v f).1.2.length),
        (call vols (some access) m v f).2.2.toFil) := by
  unfold fAccess call refusal
  by_cases hvalid : validate vols f.obj = .ok
  · by_cases herr : f.err = .ok
    · cases haccess : has f.flag access with
      | true => simp [hvalid, herr, haccess, transfer_bodyIo hm]
      | false => simp [hvalid, herr, haccess]
    · simp [hvalid, herr]
  · simp [hvalid]

/-- **`f_read`** on the object and on the volume. -/
theorem fRead_outcome (vols : Volumes) (g : Geometry) (v : Vol δ) (f : OpenFil) (btr : BitVec 32) :
    FatFs.fRead vols f.toFil (bodyIo (readBody g btr) v f) =
      (((fRead vols g v f btr).1.1, BitVec.ofNat 32 (fRead vols g v f btr).1.2.length),
        (fRead vols g v f btr).2.2.toFil) :=
  call_outcome (fun o => (calm_handle o).readBody g btr) faRead

/-- **`f_write`** on the object and on the volume. -/
theorem fWrite_outcome (vols : Volumes) (g : Geometry) (v : Vol δ) (f : OpenFil) (data : List (BitVec 8)) :
    FatFs.fWrite vols f.toFil (bodyIo (writeBody g data) v f) =
      (((fWrite vols g v f data).1.1, BitVec.ofNat 32 (fWrite vols g v f data).1.2.length),
        (fWrite vols g v f data).2.2.toFil) :=
  call_outcome (fun o => (calm_handle o).writeBody (fun s buf hs => (handle_dirty s.fil buf).trans hs)
    g data) faWrite

/-- **`f_lseek`** on the object and on the volume. -/
theorem fLseek_outcome (vols : Volumes) (g : Geometry) (v : Vol δ) (f : OpenFil) (ofs : BitVec 32) :
    FatFs.fLseek vols f.toFil (bodyIo (seekBody g ofs) v f) =
      ((fLseek vols g v f ofs).1.1, (fLseek vols g v f ofs).2.2.toFil) := by
  have hrun := transfer_bodyIo (fun o => (calm_handle o).seekBody g ofs) v f
  unfold FatFs.fLseek fLseek call refusal
  by_cases hvalid : validate vols f.obj = .ok
  · by_cases herr : f.err = .ok
    · simp [hvalid, herr, hrun]
    · simp [hvalid, herr]
  · simp [hvalid]

/-! ### Syncing and closing -/

/-- The volume and the file after the buffer has been written back. -/
def flushed (v : Vol δ) (f : OpenFil) : Vol δ :=
  if has f.flag faDirty = true then
    setDisk v (diskWrite v.window.disk (fun _ => f.buf) f.sect 1).2
  else v

/-- What `f_sync` meets. -/
def syncIo (g : Geometry) (tm : BitVec 32) (v : Vol δ) (f : OpenFil) : SyncIo :=
  let r := editWindow g (flushed v f).window f.dirSect
    (storeEntry g f.dirPtr f.obj.sclust f.obj.objsize tm)
  { write := (diskWrite v.window.disk (fun _ => f.buf) f.sect 1).1
    window := if r.1 = .ok then .ok else .diskErr
    sync := if (syncFs g { flushed v f with window := r.2 }).1 = .ok then .ok else .diskErr }

/-- What `flush` does, and when it fails. -/
theorem flush_ends (s : FileState δ) :
    Ends flush s
      (fun _ s' => (has s.fil.flag faDirty = true →
          (diskWrite s.vol.window.disk (fun _ => s.fil.buf) s.fil.sect 1).1 = .ok) ∧
        s' = { s with
          vol := flushed s.vol s.fil
          fil := { s.fil with flag := s.fil.flag &&& ~~~faDirty } })
      (fun e s' => (has s.fil.flag faDirty = true ∧
          (diskWrite s.vol.window.disk (fun _ => s.fil.buf) s.fil.sect 1).1 ≠ .ok) ∧
        e = .diskErr ∧ s'.fil = s.fil) := by
  simp only [flush, writeBack, modifyFil, ends_bind, ends_get, ends_set, ends_onlyIf, ends_failIf,
    ends_modify]
  refine ⟨fun hdirty => ⟨fun hne => ⟨⟨hdirty, hne⟩, trivial, trivial⟩, fun hok =>
    ⟨fun _ => not_not.mp hok, ?_⟩⟩, fun hclean => ⟨fun hdirty => absurd hdirty hclean, ?_⟩⟩
  · rw [flushed, if_pos hdirty]
  · rw [flushed, if_neg hclean, and_not_faDirty _ (Bool.eq_false_iff.mpr hclean)]

omit [DiskIo δ] in
/-- `f_sync` of an object that is marked. -/
theorem fSync_of_modified {fil : Fil} (hvalid : validate vols fil.obj = .ok)
    (hmod : has fil.flag faModified = true) (io : SyncIo) :
    FatFs.fSync vols fil io =
      if has fil.flag faDirty = true ∧ io.write ≠ .ok then (.diskErr, fil)
      else if io.window = .ok then
        (io.sync.toFResult, { fil with flag := fil.flag &&& ~~~faDirty &&& ~~~faModified })
      else (io.window.toFResult, { fil with flag := fil.flag &&& ~~~faDirty }) := by
  simp [FatFs.fSync, hvalid, hmod]

theorem syncBody_ends (hvalid : validate vols f.obj = .ok) (tm : BitVec 32) :
    Ends (syncBody g tm) ⟨v, f, []⟩
      (fun _ s' => FatFs.fSync vols f.toFil (syncIo g tm v f) = (.ok, s'.fil.toFil))
      (fun e s' => FatFs.fSync vols f.toFil (syncIo g tm v f) = (e.toFResult, s'.fil.toFil)) := by
  unfold syncBody
  rw [ends_bind, ends_get, ends_onlyIf]
  refine ⟨fun hmod => ?_, fun hmod => by simp [FatFs.fSync, hvalid, hmod]⟩
  rw [fSync_of_modified hvalid hmod]
  refine (flush_ends _).bind (fun _ s' hs' => ?_) fun e s' hs' => ?_
  · obtain ⟨hwrite, rfl⟩ := hs'
    rw [if_neg fun hcon => hcon.2 (hwrite hcon.1)]
    simp only [syncEntry, ends_bind, ends_get, ends_set, ends_failIf, syncIo]
    refine ⟨fun hne => ?_, fun hok => ⟨fun hne => ?_, fun hok' => ?_⟩⟩
    · simp [hne]
    · simp only [if_pos (not_not.mp hok), if_neg hne, if_true]
    · simp only [if_pos (not_not.mp hok), if_pos (not_not.mp hok'), if_true]
      rfl
  · obtain ⟨hfail, rfl, hfil⟩ := hs'
    have hnot : has f.flag faDirty = true ∧ (syncIo g tm v f).write ≠ .ok := hfail
    rw [if_pos hnot, hfil]
    rfl

/-- **`f_sync`** on the object and on the volume. -/
theorem fSync_outcome (vols : Volumes) (g : Geometry) (v : Vol δ) (f : OpenFil) (tm : BitVec 32) :
    FatFs.fSync vols f.toFil (syncIo g tm v f) =
      ((fSync vols g v f tm).1, (fSync vols g v f tm).2.2.toFil) := by
  by_cases hvalid : validate vols f.obj = .ok
  · have hends := syncBody_ends (g := g) (v := v) hvalid tm
    unfold Ends at hends
    rw [fSync, if_neg (not_not.mpr hvalid)]
    split at hends <;> rename_i heq <;> rw [heq] <;> exact hends
  · rw [FatFs.fSync, fSync, if_pos hvalid, if_pos hvalid]

/-- **`f_close`** on the object and on the volume. -/
theorem fClose_outcome (vols : Volumes) (g : Geometry) (v : Vol δ) (f : OpenFil) (tm : BitVec 32) :
    FatFs.fClose vols f.toFil (syncIo g tm v f) =
      ((fClose vols g v f tm).1, (fClose vols g v f tm).2.2.toFil) := by
  rw [FatFs.fClose, fClose, fSync_outcome]
  generalize fSync vols g v f tm = r
  obtain ⟨res, v', f'⟩ := r
  cases res with
  | ok =>
    by_cases hvalid : validate vols f'.obj = .ok
    · simp only [if_pos hvalid]
      rfl
    · simp only [if_neg hvalid]
  | _ => rfl

/-! ### Opening -/

/-- The state in which the object is filled, once the entry is in the window. -/
def cleared (g : Geometry) (dir : ℕ) (mode : BitVec 8) (tm : BitVec 32) (s : FileState δ) : FileState δ :=
  if has mode faCreateAlways = true then ((resetEntry g dir tm).from s).2 else s

/-- The mode in the object: a file that has been overwritten is marked. -/
def openMode (mode : BitVec 8) : BitVec 8 :=
  if has mode faCreateAlways = true then mode ||| faModified else mode

/-- What `f_open` meets, given how the volume has been found. -/
def openIo (g : Geometry) (p : FsPtr) (id : BitVec 16) (v : Vol δ) (f : OpenFil) (sect : BitVec 32)
    (dir : ℕ) (mode : BitVec 8) (tm : BitVec 32) (mount : MountIo) : OpenIo :=
  let r := moveWindow g v.window sect
  let s : FileState δ := ⟨{ v with window := r.2 }, f, []⟩
  let s₁ := cleared g dir mode tm s
  let o := filled g p id dir (openMode mode) s₁.vol.window s₁.fil
  { mount := mount
    nambuf := true
    follow := if r.1 = .ok then .ok else .diskErr
    noName := false
    attr := peek r.2.win (dir + 11)
    register := .ok
    truncate := (errorOf ((resetEntry g dir tm).from s).1).getD .ok
    sclust := ldClust g r.2.win dir
    objsize := ldDword r.2.win (dir + 28)
    seek := (errorOf ((seekEnd g).from { s₁ with fil := o }).1).getD .ok }

theorem keeps_toFil_readFat (g : Geometry) (clst : BitVec 32) (o : Fil) :
    Keeps (fun s : FileState δ => s.fil.toFil = o) (readFat g clst) :=
  Keeps.get_bind fun _ hs => Keeps.bind (keeps_set hs) fun _ => keeps_pure _

theorem keeps_toFil_appendLoop (g : Geometry) (fuel ofs : ℕ) (o : Fil) :
    Keeps (fun s : FileState δ => s.fil.toFil = o) (appendLoop g fuel ofs) := by
  induction fuel generalizing ofs with
  | zero => exact keeps_pure _
  | succ fuel ih =>
    exact Keeps.ite (Keeps.get_bind fun _ _ => Keeps.bind (keeps_toFil_readFat g _ o) fun _ =>
      Keeps.bind (keeps_modify fun _ hs => hs) fun _ => Keeps.bind (keeps_failIf _) fun _ =>
      Keeps.bind (keeps_failIf _) fun _ => ih _) (keeps_pure _)

theorem keeps_toFil_loadLast (g : Geometry) (ofs : ℕ) (o : Fil) :
    Keeps (fun s : FileState δ => s.fil.toFil = o) (loadLast g ofs) :=
  Keeps.get_bind fun _ _ => Keeps.bind (keeps_failIf _) fun _ =>
    Keeps.bind (keeps_modify fun _ hs => hs) fun _ =>
    Keeps.get_bind fun _ hs => Keeps.bind (keeps_set hs) fun _ => keeps_failIf _

/-- Where the object is after `FA_OPEN_APPEND`, whether or not the last sector could be read. -/
def atEnd (fil : Fil) : Fil :=
  if has fil.flag faSeekend && fil.obj.objsize != 0#32 then { fil with fptr := fil.obj.objsize } else fil

/-- Only a file that is to be opened at its end is followed, and only that can fail. -/
theorem seekEnd_toFil (g : Geometry) (s : FileState δ) :
    Ends (seekEnd g) s (fun _ s' => s'.fil.toFil = atEnd s.fil.toFil)
      fun _ s' => s'.fil.toFil = atEnd s.fil.toFil ∧
        (has s.fil.flag faSeekend && s.fil.obj.objsize != 0#32) = true := by
  have hpos : s.fil.obj.objsize > 0#32 ↔ s.fil.obj.objsize ≠ 0#32 := by
    rw [gt_iff_lt, BitVec.lt_def, BitVec.toNat_zero, Nat.pos_iff_ne_zero, ne_eq, ne_eq,
      ← BitVec.toNat_inj, BitVec.toNat_zero]
  simp only [seekEnd, ends_bind, ends_get, ends_onlyIf, modifyFil, ends_modify]
  refine ⟨fun hopen => ?_, fun hnot => ?_⟩
  · obtain ⟨hseek, hsize⟩ := hopen
    have hcond : (has s.fil.flag faSeekend && s.fil.obj.objsize != 0#32) = true := by
      simp [hseek, hpos.mp hsize]
    rw [atEnd, if_pos hcond]
    refine (keeps_toFil_appendLoop g _ _ _ _ rfl).mono (fun ofs s' hs' => ?_)
      fun _ _ hs' => ⟨hs', hcond⟩
    rw [← ends_onlyIf]
    exact (Keeps.onlyIf (keeps_toFil_loadLast g ofs _) s' hs').mono (fun _ _ hs' => hs')
      fun _ _ hs' => ⟨hs', hcond⟩
  · rw [atEnd, if_neg (by simpa [hpos] using hnot)]

omit [DiskIo δ] in
/-- What `f_open` makes of the mode and the attributes of an entry that is there. -/
theorem createOrOpen_eq (mode : BitVec 8) (io : OpenIo) :
    createOrOpen mode .ok io = match openRefusal mode io.attr with
      | some res => (res, mode)
      | none => (if has mode faCreateAlways = true then io.truncate.toFResult else .ok, mode) := by
  unfold createOrOpen openRefusal
  by_cases hcreate : has mode (faCreateAlways ||| faOpenAlways ||| faCreateNew) = true
  · simp only [hcreate, if_true]
    by_cases hattr : has io.attr (amRdo ||| amDir) = true
    · simp [hattr]
    · by_cases hnew : has mode faCreateNew = true
      · simp [hattr, hnew]
      · by_cases halways : has mode faCreateAlways = true <;> simp [hattr, hnew, halways]
  · have halways : has mode faCreateAlways = false := by
      have hany : ∀ m : BitVec 8, has m faCreateAlways = true →
          has m (faCreateAlways ||| faOpenAlways ||| faCreateNew) = true := by decide
      exact Bool.eq_false_iff.mpr (mt (hany mode) hcreate)
    simp only [hcreate, halways]
    by_cases hdir : has io.attr amDir = true
    · simp [hdir]
    · by_cases hwrite : has mode faWrite = true ∧ has io.attr amRdo = true
      · simp [hdir, hwrite]
      · simp [hdir, hwrite]

omit [DiskIo δ] in
theorem openAt_eq (vols : Volumes) (p : FsPtr) (mode : BitVec 8) (io : OpenIo) :
    openAt vols p mode io =
      (if has (openedFil vols p mode io).flag faSeekend && (openedFil vols p mode io).obj.objsize != 0#32
        then io.seek.toFResult else .ok, atEnd (openedFil vols p mode io)) := by
  have hflag : has (openedFil vols p mode io).flag faSeekend = has mode faSeekend := by
    unfold openedFil
    dsimp only
    split
    · exact has_or (by decide) _
    · rfl
  unfold openAt atEnd
  rw [hflag]
  dsimp only
  split <;> rfl

/-- The object is filled and, if that is asked for, followed to its end. -/
theorem filled_ends {p : FsPtr} {id : BitVec 16} {dir : ℕ} {mode : BitVec 8} {s : FileState δ} {io : OpenIo}
    (hfil : (filled g p id dir (openMode mode) s.vol.window s.fil).toFil = openedFil vols p mode io)
    (hseek : io.seek = (errorOf ((seekEnd g).from
      { s with fil := filled g p id dir (openMode mode) s.vol.window s.fil }).1).getD .ok) :
    Ends (do
        modify fun s => { s with fil := filled g p id dir (openMode mode) s.vol.window s.fil }
        seekEnd g) s
      (fun _ s' => openAt vols p mode io = (.ok, s'.fil.toFil))
      (fun e s' => openAt vols p mode io = (e.toFResult, s'.fil.toFil)) := by
  have hends := seekEnd_toFil g { s with fil := filled g p id dir (openMode mode) s.vol.window s.fil }
  rw [ends_bind, ends_modify, openAt_eq, ← hfil]
  unfold Ends at hends ⊢
  generalize (seekEnd g).from
    { s with fil := filled g p id dir (openMode mode) s.vol.window s.fil } = r at hseek hends
  obtain ⟨e | u, s'⟩ := r
  · obtain ⟨htoFil, hcond⟩ := hends
    dsimp only at htoFil hcond hseek ⊢
    rw [if_pos hcond, htoFil, hseek]
    rfl
  · dsimp only at hends hseek ⊢
    rw [hends, hseek]
    split <;> rfl

section Open

variable {l : Layout} {chain : List (BitVec 32)} {content : Content} {size sect : BitVec 32} {ptr : ℕ}

/-- What `f_open` comes to is **what is computed**, with the entry of the file in the window. -/
structure Computed (vols : Volumes) (l : Layout) (p : FsPtr) (v : Vol δ) (f : OpenFil) (ptr : ℕ)
    (mode : BitVec 8) (tm : BitVec 32) (io : OpenIo) : Prop where
  followed : io.followed = .ok
  attr : io.attr = peek v.window.win (ptr + 11)
  truncate : io.truncate = (errorOf ((resetEntry l ptr tm).from ⟨v, f, []⟩).1).getD .ok
  sclust : io.sclust = ldClust l v.window.win ptr
  objsize : io.objsize = ldDword v.window.win (ptr + 28)
  seek : io.seek = (errorOf ((seekEnd l).from { cleared l.toGeometry ptr mode tm ⟨v, f, []⟩ with
    fil := filled l p (vols.fatfs p).id ptr (openMode mode)
      (cleared l.toGeometry ptr mode tm ⟨v, f, []⟩).vol.window
      (cleared l.toGeometry ptr mode tm ⟨v, f, []⟩).fil }).1).getD .ok

/-- `f_open` behind its checks, with the outcome that is computed. -/
theorem openBody_ends (h : Rests l v.window chain content size sect ptr)
    (hwin : v.window.winsect = sect) (hdir : Foreign l (v.table l) chain sect) (hptr : ptr + 32 ≤ 512)
    {p : FsPtr} {mode : BitVec 8} (hplain : has mode faCreateAlways = true →
      protection v.window sect ptr = 0#8) {tm : BitVec 32} {io : OpenIo}
    (hio : Computed vols l p v f ptr mode tm io) :
    Ends (openBody l p (vols.fatfs p).id ptr mode tm) ⟨v, f, []⟩
      (fun _ s' => (has mode faCreateAlways = true → io.truncate = .ok) ∧
        openAt vols p mode io = (.ok, s'.fil.toFil))
      (fun e s' => has mode faCreateAlways = true ∧ io.truncate = e ∧ s'.fil = f ∨
        (has mode faCreateAlways = true → io.truncate = .ok) ∧
          openAt vols p mode io = (e.toFResult, s'.fil.toFil)) := by
  unfold openBody
  have htrunc := hio.truncate
  have hseek := hio.seek
  by_cases hcreate : has mode faCreateAlways = true
  · have hspec := resetEntry_spec (s := ⟨v, f, []⟩) h hwin hdir hptr (hplain hcreate) tm
    rw [cleared, if_pos hcreate] at hseek
    rw [ends_bind, ends_onlyIf]
    refine ⟨fun _ => ?_, fun hcon => absurd hcreate hcon⟩
    rw [Ends] at hspec ⊢
    generalize (resetEntry l.toGeometry ptr tm).from ⟨v, f, []⟩ = r at hspec htrunc hseek
    obtain ⟨e | u, s₁⟩ := r
    · exact Or.inl ⟨hcreate, htrunc, hspec.1.fil⟩
    · obtain ⟨hcleared, hwin₁, -⟩ := hspec
      have hthere : s₁.vol.window.win = s₁.vol.window.view sect := by rw [← hwin₁, view_winsect]
      have hfil : (filled l p (vols.fatfs p).id ptr (openMode mode) s₁.vol.window s₁.fil).toFil =
          openedFil vols p mode io := by
        have hstart : ldClust l s₁.vol.window.win ptr = 0#32 := hthere ▸ hcleared.rests.start
        have hlength : ldDword s₁.vol.window.win (ptr + 28) = 0#32 := hthere ▸ hcleared.rests.length
        simp only [filled, openedFil, openMode, hcreate, if_true, hstart, hlength]
      exact (filled_ends hfil hseek).mono (fun _ s' hs' => ⟨fun _ => htrunc, hs'⟩)
        fun e s' hs' => Or.inr ⟨fun _ => htrunc, hs'⟩
  · rw [cleared, if_neg hcreate] at hseek
    rw [ends_bind, ends_onlyIf]
    refine ⟨fun hcon => absurd hcon hcreate, fun _ => ?_⟩
    have hfil : (filled l p (vols.fatfs p).id ptr (openMode mode) v.window f).toFil =
        openedFil vols p mode io := by
      simp only [filled, openedFil, openMode, hcreate, hio.sclust, hio.objsize]
      rfl
    exact (filled_ends (s := ⟨v, f, []⟩) hfil hseek).mono
      (fun _ s' hs' => ⟨fun hcon => absurd hcon hcreate, hs'⟩)
      fun e s' hs' => Or.inr ⟨fun hcon => absurd hcon hcreate, hs'⟩

/-- What `f_open` has found in the way is its answer. -/
theorem createOrOpen_diskErr (mode : BitVec 8) (io : OpenIo) :
    (createOrOpen mode .diskErr io).1 = .diskErr := by
  unfold createOrOpen
  split <;> simp

/-- `f_open` inside the volume, once the entry is in the window. -/
theorem openIn_outcome (hcoh : v.window.Coherent l) (h : Rests l v.window chain content size sect ptr)
    (hwin : v.window.winsect = sect) (hdir : Foreign l (v.table l) chain sect) (hptr : ptr + 32 ≤ 512)
    {p : FsPtr} {mode : BitVec 8} (hclean : has mode faDirty = false) {tm : BitVec 32} {io : OpenIo}
    (hio : Computed vols l p v f ptr mode tm io) :
    let o := openIn vols f.toFil p mode io
    match openRefusal mode (peek v.window.win (ptr + 11)) with
    | some res => o = (res, f.toFil) ∧ res ≠ .ok
    | none => Ends (openBody l p (vols.fatfs p).id ptr mode tm) ⟨v, f, []⟩
        (fun _ s' => o = (.ok, s'.fil.toFil))
        (fun e s' => o = (e.toFResult, s'.fil.toFil) ∧ e ≠ .ok) := by
  dsimp only
  rw [openIn, hio.followed, createOrOpen_eq, hio.attr]
  cases hrefusal : openRefusal mode (peek v.window.win (ptr + 11)) with
  | some res =>
    have hne : res ≠ .ok := by
      rintro rfl
      unfold openRefusal at hrefusal
      split_ifs at hrefusal <;> cases hrefusal
    exact ⟨by rw [if_neg hne], hne⟩
  | none =>
    have hplain : has mode faCreateAlways = true → protection v.window sect ptr = 0#8 := by
      intro hcreate
      rw [protection, ← hwin, view_winsect]
      exact eq_zero_of_openRefusal hrefusal hcreate
    have hends := (openBody_ends h hwin hdir hptr hplain hio).and
      (openBody_spec (s := ⟨v, f, []⟩) hcoh h hwin hdir hptr p (vols.fatfs p).id hclean hplain tm)
    have hpass : (has mode faCreateAlways = true → io.truncate = .ok) →
        (if has mode faCreateAlways = true then io.truncate.toFResult else .ok) = .ok := by
      intro hres
      split
      · rename_i hcreate
        rw [hres hcreate]
        rfl
      · rfl
    refine hends.mono (fun _ s' hs' => ?_) fun e s' hs' => ⟨?_, hs'.2.2.2⟩
    · obtain ⟨⟨hres, heq⟩, -⟩ := hs'
      rw [hpass hres, if_pos rfl, heq]
    · have hne : e.toFResult ≠ .ok := mt InnerResult.toFResult_eq_ok_iff.mp hs'.2.2.2
      rcases hs'.1 with ⟨hcreate, htrunc', hfil⟩ | ⟨hres, heq⟩
      · rw [if_pos hcreate, htrunc', if_neg hne, hfil]
      · rw [hpass hres, if_pos rfl, heq]

/-- **`f_open`** on the object and on the volume, of a file that rests there. -/
theorem fOpen_outcome (hcoh : v.window.Coherent l) (h : Rests l v.window chain content size sect ptr)
    (hdir : Foreign l (v.table l) chain sect) (hptr : ptr + 32 ≤ 512) {p : FsPtr} {path : Path}
    {mode : BitVec 8} {mount : MountIo} {reached : List DiskCall}
    (hfind : findVolume vols path (mode &&& openMask) mount = ((.ok, some p), reached, vols))
    (tm : BitVec 32) :
    FatFs.fOpen vols f.toFil path mode
        (openIo l p (vols.fatfs p).id v f sect ptr (mode &&& openMask) tm mount) =
      ((fOpen vols p l v f sect ptr mode tm).1, (fOpen vols p l v f sect ptr mode tm).2.2.toFil, vols) := by
  have hclean : has (mode &&& openMask) faDirty = false := by
    have hall : ∀ m : BitVec 8, has (m &&& openMask) faDirty = false := by decide
    exact hall mode
  obtain ⟨hkept, hview, hres⟩ := moveWindow_spec hcoh sect
  generalize hio : openIo l p (vols.fatfs p).id v f sect ptr (mode &&& openMask) tm mount = io
  have hnambuf : io.nambuf = true := by rw [← hio]; rfl
  have hmount : io.mount = mount := by rw [← hio]; rfl
  rw [FatFs.fOpen, hmount, hfind]
  simp only [hnambuf, Bool.not_true, Bool.false_eq_true, if_false]
  unfold fOpen
  unfold openIo at hio
  generalize moveWindow l.toGeometry v.window sect = r at hkept hview hres hio
  obtain ⟨res, w⟩ := r
  dsimp only at hkept hview hres hio
  rcases hres with ⟨rfl, hwin⟩ | ⟨rfl, -⟩
  · have htable : Vol.table l { v with window := w } = v.table l := funext (hview.fatEntry l)
    have hcomputed : Computed vols l p { v with window := w } f ptr (mode &&& openMask) tm io := by
      subst hio
      exact ⟨rfl, rfl, rfl, rfl, rfl, rfl⟩
    have hout := openIn_outcome hkept.coherent (h.of_sameView hdir.1 hview) hwin (htable ▸ hdir) hptr
      hclean hcomputed
    dsimp only at hout ⊢
    cases hrefusal : openRefusal (mode &&& openMask) (peek w.win (ptr + 11)) with
    | some res =>
      simp only [hrefusal] at hout
      simp only [hout.1, if_neg hout.2]
      rfl
    | none =>
      simp only [hrefusal] at hout
      unfold Ends at hout
      split at hout <;> rename_i heq <;> rw [heq]
      · simp only [hout, if_true]
      · have hne := mt InnerResult.toFResult_eq_ok_iff.mp hout.2
        simp only [hout.1, if_neg hne]
        rfl
  · have hfollowed : io.followed = .diskErr := by rw [← hio]; rfl
    simp only [openIn, hfollowed, createOrOpen_diskErr]
    rfl

end Open

end Stream

end FatFs

end BareMetal
