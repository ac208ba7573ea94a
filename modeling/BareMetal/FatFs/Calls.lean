import BareMetal.FatFs.Marking
import BareMetal.FatFs.Opening

/-!
# A file and its specification

What the callers of FatFs may rely on is said here without clusters, sectors or windows: a file has a
content, a size and, while it is open, a position (`BareMetal.FatFs.FileSpec`). A call does what it should
(`BareMetal.FatFs.Does`), or the disk has failed it (`BareMetal.FatFs.Breaks`), and then a call on the data
has given up the file.

`BareMetal.FatFs.Stands` says what stands for such a state on the volume and in the object, and
`BareMetal.FatFs.Stands.served` that every call keeps to the specification and to the frame of the file. One
thing is asked of the callers (`BareMetal.FatFs.FileCall.Fits`): that a file that has failed is not
synchronized or closed, since `f_sync` would then write a buffer whose sector may be another's by now.
-/

namespace BareMetal

namespace FatFs

variable {δ : Type} [DiskIo δ]

/-! ### The calls -/

/-- A call on a file. -/
inductive FileCall where
  | fOpen (p : FsPtr) (mode : BitVec 8)
  | fRead (btr : BitVec 32)
  | fWrite (data : List (BitVec 8))
  | fLseek (ofs : BitVec 32)
  | fTruncate
  | fSync
  | fClose

/-- The place of a directory entry. -/
structure Slot where
  sect : BitVec 32
  ptr : ℕ

/-- What a call returns, with the bytes it has moved, and leaves. -/
def FileCall.run (vols : Volumes) (g : Geometry) (tm : BitVec 32) (slot : Slot) (v : Vol δ) (f : OpenFil) :
    FileCall → (FResult × List (BitVec 8)) × (Vol δ × OpenFil)
  | .fOpen p mode =>
      let r := Stream.fOpen vols p g v f slot.sect slot.ptr mode tm
      ((r.1, []), r.2)
  | .fRead btr => Stream.fRead vols g v f btr
  | .fWrite data => Stream.fWrite vols g v f data
  | .fLseek ofs => Stream.fLseek vols g v f ofs
  | .fTruncate => Stream.fTruncate vols g v f
  | .fSync =>
      let r := Stream.fSync vols g v f tm
      ((r.1, []), r.2)
  | .fClose =>
      let r := Stream.fClose vols g v f tm
      ((r.1, []), r.2)

/-- What the caller has to see to: a file is not opened twice, a count fits its type, and a file that
has failed is given up. `f_sync` and `f_close` do not look at the error that a call has left in the object,
and would write the buffer of such a file. -/
def FileCall.Fits (f : OpenFil) : FileCall → Prop
  | .fOpen _ _ => f.obj.fs = none
  | .fWrite data => data.length < 2 ^ 32
  | .fSync | .fClose => f.err = .ok ∨ f.obj.fs = none
  | _ => True

/-! ### The specification -/

/-- What a file is to its users: its content, as far as it has been set, and its size; while it is open
also the position. A file that has failed is worth nothing. -/
inductive FileSpec where
  | closed (content : Content) (size : ℕ)
  | opened (o : Handle) (content : Content) (size pos : ℕ)
  | failed (o : Handle)

def FileSpec.size : FileSpec → ℕ
  | .closed _ n => n
  | .opened _ _ n _ => n
  | .failed _ => 0

/-- Whether the object is still valid. -/
def Handle.validity (vols : Volumes) (o : Handle) : FResult := validate vols ⟨o.fs, o.id, 0#32, 0#32⟩

/-- The checks at the head of a call. -/
def Handle.refusal (vols : Volumes) (o : Handle) (access : Option Bool) : Option FResult :=
  if o.validity vols ≠ .ok then some (o.validity vols)
  else if o.err ≠ .ok then some o.err
  else
    match access with
    | some a => if a = false then some .denied else none
    | none => none

/-- Why a call is refused. -/
def FileCall.refusal (vols : Volumes) (o : Handle) : FileCall → Option FResult
  | .fOpen _ _ => none
  | .fRead _ => o.refusal vols (some o.readable)
  | .fWrite _ | .fTruncate => o.refusal vols (some o.writable)
  | .fLseek _ => o.refusal vols none
  | .fSync | .fClose => if o.validity vols ≠ .ok then some (o.validity vols) else none

/-- The calls that work on the data. -/
def FileCall.isData : FileCall → Bool
  | .fRead _ | .fWrite _ | .fLseek _ | .fTruncate => true
  | _ => false

/-- What an object is good for after `f_open`. -/
structure Handle.Grants (vols : Volumes) (p : FsPtr) (mode : BitVec 8) (o : Handle) : Prop where
  fs : o.fs = some p
  id : o.id = (vols.fatfs p).id
  err : o.err = .ok
  readable : o.readable = has mode faRead
  writable : o.writable = has mode faWrite

/-- Where `f_lseek` goes: a file that is not to be written ends where it ends. -/
def Handle.target (o : Handle) (ofs : BitVec 32) (size : ℕ) : ℕ :=
  if o.writable = false then min ofs.toNat size else ofs.toNat

/-- **What a call does on a sound volume.** Whether a file may be opened depends on its attributes. A
write or a seek may stop short if the volume is full, and then the file ends there. -/
inductive Does (vols : Volumes) (attr : BitVec 8) (full : Prop) :
    FileSpec → FileCall → FResult × List (BitVec 8) → FileSpec → Prop
  | unopen {c n call} (hcall : ∀ p mode, call ≠ .fOpen p mode) :
      Does vols attr full (.closed c n) call (.invalidObject, []) (.closed c n)
  | barred {c n p mode res} (h : Stream.openRefusal (mode &&& openMask) attr = some res) :
      Does vols attr full (.closed c n) (.fOpen p mode) (res, []) (.closed c n)
  | opens {c n p mode o} (h : Stream.openRefusal (mode &&& openMask) attr = none)
      (ho : o.Grants vols p mode) :
      Does vols attr full (.closed c n) (.fOpen p mode) (.ok, [])
        (.opened o (Stream.opensTo mode (fun _ => none) c) (Stream.opensTo mode 0 n)
          (if has mode faSeekend = true then Stream.opensTo mode 0 n else 0))
  | refused {o c n pos call res} (h : call.refusal vols o = some res) :
      Does vols attr full (.opened o c n pos) call (res, []) (.opened o c n pos)
  | dead {o call res} (h : call.refusal vols o = some res) :
      Does vols attr full (.failed o) call (res, []) (.failed o)
  | reads {o c n pos btr bytes} (h : FileCall.refusal vols o (.fRead btr) = none)
      (hlen : bytes.length = min btr.toNat (n - pos)) (hbytes : Stream.Carries c pos bytes) :
      Does vols attr full (.opened o c n pos) (.fRead btr) (.ok, bytes) (.opened o c n (pos + bytes.length))
  | writes {o c n pos data k} (h : FileCall.refusal vols o (.fWrite data) = none)
      (hle : k ≤ min data.length (2 ^ 32 - 1 - pos))
      (hshort : k < min data.length (2 ^ 32 - 1 - pos) → full ∧ n ≤ pos + k) :
      Does vols attr full (.opened o c n pos) (.fWrite data) (.ok, data.take k)
        (.opened o (c.put pos (data.take k)) (max n (pos + k)) (pos + k))
  | seeks {o c n pos ofs pos'} (h : FileCall.refusal vols o (.fLseek ofs) = none)
      (hle : pos' ≤ o.target ofs n) (hshort : pos' < o.target ofs n → full ∧ n ≤ pos') :
      Does vols attr full (.opened o c n pos) (.fLseek ofs) (.ok, []) (.opened o c (max n pos') pos')
  | truncates {o c n pos} (h : FileCall.refusal vols o .fTruncate = none) :
      Does vols attr full (.opened o c n pos) .fTruncate (.ok, []) (.opened o (c.cut pos) pos pos)
  | syncs {o c n pos} (h : FileCall.refusal vols o .fSync = none) :
      Does vols attr full (.opened o c n pos) .fSync (.ok, []) (.opened o c n pos)
  | closes {o c n pos} (h : FileCall.refusal vols o .fClose = none) :
      Does vols attr full (.opened o c n pos) .fClose (.ok, []) (.closed c n)

/-- **What a call may do if the disk fails.** A file that could not be opened is as it was, or has been
overwritten; a call on the data gives the file up; and `f_sync` and `f_close` leave it as it was. -/
inductive Breaks : FileSpec → FileCall → FResult × List (BitVec 8) → FileSpec → Prop
  | unopened {c n p mode res} (hres : res ≠ .ok) :
      Breaks (.closed c n) (.fOpen p mode) (res, []) (.closed c n)
  | cleared {c n p mode res} (hres : res ≠ .ok) : Breaks (.closed c n) (.fOpen p mode) (res, [])
      (.closed (Stream.opensTo mode (fun _ => none) c) (Stream.opensTo mode 0 n))
  | aborts {o c n pos call res bytes} (hdata : call.isData = true) (hres : res ≠ .ok) :
      Breaks (.opened o c n pos) call (res, bytes) (.failed { o with err := res })
  | unsynced {o c n pos call} (hcall : call = .fSync ∨ call = .fClose) :
      Breaks (.opened o c n pos) call (.diskErr, []) (.opened o c n pos)

/-! ### What stands for the specification -/

/-- An open file. -/
structure Live (l : Layout) (slot : Slot) (v : Vol δ) (chain : List (BitVec 32)) (f : OpenFil) (o : Handle)
    (content : Content) (size pos : ℕ) : Prop where
  core : Core l v.window chain content f
  positioned : Positioned l chain f
  within : content.Within size
  handle : f.handle = o
  valid : o.fs ≠ none
  err : o.err = .ok
  sect : o.dirSect = slot.sect
  ptr : o.dirPtr = slot.ptr
  size : f.obj.objsize.toNat = size
  pos : f.fptr.toNat = pos
  entry : f.modified = false → EntryAt l v.window.view f
  marked : has f.flag faDirty = true → f.modified = true

/-- A file that is not open. -/
structure Laid (l : Layout) (slot : Slot) (v : Vol δ) (chain : List (BitVec 32)) (f : OpenFil)
    (content : Content) (size : ℕ) : Prop where
  fs : f.obj.fs = none
  within : content.Within size
  rests : ∃ n : BitVec 32, n.toNat = size ∧ Rests l v.window chain content n slot.sect slot.ptr

/-- **What stands for a file** on the volume and in its object. -/
def Stands (l : Layout) (slot : Slot) (v : Vol δ) (chain : List (BitVec 32)) (f : OpenFil) : FileSpec → Prop
  | .closed c n => Laid l slot v chain f c n
  | .opened o c n pos => Live l slot v chain f o c n pos
  | .failed o => f.handle = o ∧ o.fs ≠ none ∧ o.err ≠ .ok ∧ chain = []

/-- **What a call comes to**: the specification allows it, what stands for the file afterwards is its
new state, and nothing but the file's own clusters and its directory entry is touched. Unless the disk
fails, no cluster is lost and none is held without need. -/
structure Served (l : Layout) (slot : Slot) (vols : Volumes) (v : Vol δ) (chain : List (BitVec 32))
    (x : FileSpec) (call : FileCall) (r : (FResult × List (BitVec 8)) × (Vol δ × OpenFil))
    (chain' : List (BitVec 32)) (x' : FileSpec) : Prop where
  outcome : (Does vols (protection v.window slot.sect slot.ptr) (Full l r.2.1) x call r.1 x' ∧
      Accounts l (v.table l) (r.2.1.table l) chain chain' ∧ (Tight l chain x.size → Tight l chain' x'.size)) ∨
    (Breaks x call r.1 x' ∧ ¬Good l v)
  stands : Stands l slot r.2.1 chain' r.2.2 x'
  around : Around l chain slot.sect slot.ptr v r.2.1
  grows : Grows (v.table l) chain chain'

section Calls

variable {l : Layout} {slot : Slot} {vols : Volumes} {v : Vol δ} {chain chain' : List (BitVec 32)} {f : OpenFil}
  {o : Handle} {c : Content} {n pos : ℕ}

/-- A call that does nothing. -/
theorem Served.refl {x : FileSpec} {call : FileCall} {out : FResult × List (BitVec 8)}
    (hcoh : v.window.Coherent l) (hdir : Foreign l (v.table l) chain slot.sect)
    (h : Stands l slot v chain f x)
    (hdoes : Does vols (protection v.window slot.sect slot.ptr) (Full l v) x call out x) :
    Served l slot vols v chain x call (out, v, f) chain x :=
  ⟨Or.inl ⟨hdoes, Accounts.of_eq rfl, id⟩, h, (Spares.refl hcoh).around hdir _, Grows.refl _ _⟩

theorem Live.dirSect (h : Live l slot v chain f o c n pos) : f.dirSect = slot.sect := by
  rw [← h.sect, ← h.handle]
  rfl

theorem Live.dirPtr (h : Live l slot v chain f o c n pos) : f.dirPtr = slot.ptr := by
  rw [← h.ptr, ← h.handle]
  rfl

theorem Live.validity_eq (vols : Volumes) (h : Live l slot v chain f o c n pos) :
    validate vols f.obj = o.validity vols := by
  rw [← h.handle]
  rfl

/-- An open file after a call that has worked on it. -/
theorem Live.next {s' : FileState δ} {c' : Content} {n' pos' : ℕ} (h : Live l slot v chain f o c n pos)
    (hdir : Foreign l (v.table l) chain slot.sect) (hspares : Spares l chain v s'.vol)
    (hcore : Core l s'.vol.window chain' c' s'.fil) (hpos : Positioned l chain' s'.fil)
    (hwithin : c'.Within n') (hhandle : s'.fil.handle = f.handle) (hsize : s'.fil.obj.objsize.toNat = n')
    (hfptr : s'.fil.fptr.toNat = pos')
    (hunmarked : s'.fil.modified = false → f.modified = false ∧ s'.fil.obj.sclust = f.obj.sclust ∧
      s'.fil.obj.objsize = f.obj.objsize)
    (hmarked : Stream.Marked s') : Live l slot s'.vol chain' s'.fil o c' n' pos' where
  core := hcore
  positioned := hpos
  within := hwithin
  handle := hhandle.trans h.handle
  valid := h.valid
  err := h.err
  sect := h.sect
  ptr := h.ptr
  size := hsize
  pos := hfptr
  entry hmod := by
    obtain ⟨hold, hstart, hobj⟩ := hunmarked hmod
    refine (h.entry hold).congr (congrArg Handle.dirSect hhandle) (congrArg Handle.dirPtr hhandle) hstart hobj
      fun i _ => ?_
    rw [h.dirSect, hspares.sectors _ hdir]
  marked := hmarked

/-! ### The calls on the data -/

omit [DiskIo δ] in
theorem run_ends {m : FileM δ Unit} {Q : Unit → FileState δ → Prop} {E : InnerResult → FileState δ → Prop}
    (h : Ends m ⟨v, f, []⟩ Q E) :
    (∃ s', Q () s' ∧ Stream.run m v f = ((.ok, s'.moved), s'.vol, s'.fil)) ∨
      ∃ e s', E e s' ∧ Stream.run m v f =
        ((e.toFResult, s'.moved), s'.vol, { s'.fil with err := e.toFResult }) := by
  unfold Ends at h
  unfold Stream.run
  split at h
  · rename_i s' heq
    exact Or.inl ⟨s', h, by rw [heq]⟩
  · rename_i e s' heq
    exact Or.inr ⟨e, s', h, by rw [heq]⟩

/-- A call on the data of an open file, once it is known what it does if it is not refused. -/
theorem Live.call {m : FileM δ Unit} {access : Option (BitVec 8)} {call : FileCall}
    {Q : Unit → FileState δ → Prop} (h : Live l slot v chain f o c n pos)
    (hdir : Foreign l (v.table l) chain slot.sect) (hdata : call.isData = true)
    (hrefusal : Stream.refusal vols f.toFil access = call.refusal vols o)
    (hbody : Ends m ⟨v, f, []⟩ Q (Fails l chain v))
    (hkeeps : Keeps (fun s => s.fil.handle = o) m)
    (hQ : call.refusal vols o = none → ∀ s', Q () s' → ∃ chain' x',
      Served l slot vols v chain (.opened o c n pos) call ((.ok, s'.moved), s'.vol, s'.fil) chain' x') :
    ∃ chain' x', Served l slot vols v chain (.opened o c n pos) call (Stream.call vols access m v f)
      chain' x' := by
  unfold Stream.call
  rw [hrefusal]
  cases hres : call.refusal vols o with
  | some res => exact ⟨chain, _, .refl h.core.coherent hdir h (.refused hres)⟩
  | none =>
    have hends := hbody.and (hkeeps ⟨v, f, []⟩ h.handle)
    rcases run_ends hends with ⟨s', hs', heq⟩ | ⟨e, s', ⟨hfail, hhandle⟩, heq⟩
    · simp only [heq]
      exact hQ hres s' hs'.1
    · simp only [heq]
      have hne : e.toFResult ≠ .ok := mt InnerResult.toFResult_eq_ok_iff.mp hfail.ne_ok
      refine ⟨[], .failed { o with err := e.toFResult }, Or.inr ⟨.aborts hdata hne, hfail.bad⟩,
        ⟨?_, h.valid, hne, rfl⟩, hfail.spares.around hdir _, fun a ha => by simp at ha⟩
      rw [← hhandle]
      rfl

theorem Live.fRead (h : Live l slot v chain f o c n pos) (hdir : Foreign l (v.table l) chain slot.sect)
    (btr : BitVec 32) : ∃ chain' x', Served l slot vols v chain (.opened o c n pos) (.fRead btr)
      (Stream.fRead vols l v f btr) chain' x' := by
  have hbody := (Stream.readBody_spec (s := ⟨v, f, []⟩) h.core h.positioned btr).and
    (Stream.calm_marked.readBody l btr ⟨v, f, []⟩ h.marked)
  refine h.call hdir rfl (by rw [← h.handle]; rfl) (hbody.mono (fun _ _ hs' => hs') fun _ _ hs' => hs'.1)
    ((Stream.calm_handle o).readBody l btr) fun hres s' hs' => ?_
  obtain ⟨hread, hmarked⟩ := hs'
  obtain ⟨bytes, hmoved, hlen, hbytes⟩ := hread.moved
  rw [show (⟨v, f, []⟩ : FileState δ).moved = [] from rfl, List.nil_append] at hmoved
  simp only [h.size, h.pos] at hlen hbytes
  have hfptr := hread.fptr
  simp only [h.size, h.pos] at hfptr
  refine ⟨chain, .opened o c n (pos + bytes.length), Or.inl ⟨?_, Accounts.of_eq hread.table, id⟩, ?_,
    hread.spares.around hdir _, Grows.refl _ _⟩
  · simp only [hmoved]
    exact .reads hres hlen hbytes
  · exact h.next hdir hread.spares hread.core hread.positioned h.within hread.handle
      (by rw [hread.obj]; exact h.size) (by rw [hfptr, hlen])
      (fun hmod => ⟨hread.modified ▸ hmod, by rw [hread.obj], by rw [hread.obj]⟩) hmarked

theorem Live.fWrite (h : Live l slot v chain f o c n pos) (hdir : Foreign l (v.table l) chain slot.sect)
    {data : List (BitVec 8)} (hlen : data.length < 2 ^ 32) :
    ∃ chain' x', Served l slot vols v chain (.opened o c n pos) (.fWrite data)
      (Stream.fWrite vols l v f data) chain' x' := by
  have hin : c.Within f.obj.objsize.toNat := h.size ▸ h.within
  refine h.call hdir rfl (by rw [← h.handle]; rfl)
    (Stream.writeBody_spec (s := ⟨v, f, []⟩) h.core h.positioned hin hlen)
    ((Stream.calm_handle o).writeBody (fun s buf hs => (handle_dirty s.fil buf).trans hs) l data)
    fun hres s' hs' => ?_
  obtain ⟨chain', k, hwrote, hmod, hmost, hshort⟩ := hs'
  have hle := hwrote.le
  have hmoved := hwrote.moved
  have hobj := hwrote.objsize
  have hfptr := hwrote.fptr
  have hcore := hwrote.core
  simp only [h.size, h.pos, List.nil_append] at hmost hshort hmoved hobj hfptr hcore
  refine ⟨chain', .opened o (c.put pos (data.take k)) (max n (pos + k)) (pos + k),
    Or.inl ⟨?_, hwrote.accounts, ?_⟩, ?_, hwrote.spares.around hdir _, hwrote.grows⟩
  · simp only [hmoved]
    refine .writes hres (by omega) fun hlt => ?_
    obtain ⟨hfull, hend⟩ := hshort hlt
    exact ⟨hfull, by omega⟩
  · have htight := hwrote.tight
    simp only [h.size, hobj] at htight
    exact htight
  · refine h.next hdir hwrote.spares hcore hwrote.positioned ?_ hwrote.handle hobj hfptr
      (fun hcon => ?_) fun _ => hmod
    · have hput := h.within.put pos (data.take k)
      rwa [List.length_take, Nat.min_eq_left hle] at hput
    · rw [hmod] at hcon
      cases hcon

theorem Live.fLseek (h : Live l slot v chain f o c n pos) (hdir : Foreign l (v.table l) chain slot.sect)
    (ofs : BitVec 32) : ∃ chain' x', Served l slot vols v chain (.opened o c n pos) (.fLseek ofs)
      (Stream.fLseek vols l v f ofs) chain' x' := by
  have hin : c.Within f.obj.objsize.toNat := h.size ▸ h.within
  have hbody := (Stream.seekBody_spec (s := ⟨v, f, []⟩) h.core h.positioned hin ofs).and
    (Stream.calm_marked.seekBody l ofs ⟨v, f, []⟩ h.marked)
  have htarget : Stream.seekTarget f ofs = o.target ofs n := by
    rw [← h.handle, ← h.size]
    rfl
  refine h.call hdir rfl (by rw [← h.handle]; rfl) (hbody.mono (fun _ _ hs' => hs') fun _ _ hs' => hs'.1)
    ((Stream.calm_handle o).seekBody l ofs) fun hres s' hs' => ?_
  obtain ⟨⟨chain', hsought⟩, hmarked⟩ := hs'
  have hobj := hsought.objsize
  have hle := hsought.fptr_le
  have hfull := hsought.full
  have htight := hsought.tight
  simp only [h.size, htarget] at hobj hle hfull htight
  refine ⟨chain', .opened o c (max n s'.fil.fptr.toNat) s'.fil.fptr.toNat,
    Or.inl ⟨?_, hsought.accounts, ?_⟩, ?_, hsought.spares.around hdir _, hsought.grows⟩
  · simp only [hsought.moved]
    exact .seeks hres hle hfull
  · rw [hobj] at htight
    exact htight
  · exact h.next hdir hsought.spares hsought.core hsought.positioned
      (fun p hp => h.within p ((Nat.le_max_left _ _).trans hp)) hsought.handle hobj rfl hsought.unmarked
      hmarked

theorem Live.fTruncate (h : Live l slot v chain f o c n pos)
    (hdir : Foreign l (v.table l) chain slot.sect) :
    ∃ chain' x', Served l slot vols v chain (.opened o c n pos) .fTruncate
      (Stream.fTruncate vols l v f) chain' x' := by
  have hin : c.Within f.obj.objsize.toNat := h.size ▸ h.within
  have hbody := (Stream.truncateBody_spec (s := ⟨v, f, []⟩) h.core h.positioned hin).and
    (Stream.calm_marked.truncateBody l ⟨v, f, []⟩ h.marked)
  refine h.call hdir rfl (by rw [← h.handle]; rfl) (hbody.mono (fun _ _ hs' => hs') fun _ _ hs' => hs'.1)
    ((Stream.calm_handle o).truncateBody l) fun hres s' hs' => ?_
  obtain ⟨⟨chain', htrunc⟩, hmarked⟩ := hs'
  have hobj : s'.fil.obj.objsize.toNat = pos := by rw [htrunc.objsize, ← h.pos]
  have hcore := htrunc.core
  have htight := htrunc.tight
  simp only [h.size, h.pos, hobj] at hcore htight
  refine ⟨chain', .opened o (c.cut pos) pos pos, Or.inl ⟨?_, htrunc.accounts, htight⟩, ?_,
    htrunc.spares.around hdir _, htrunc.grows⟩
  · simp only [htrunc.moved]
    exact .truncates hres
  · exact h.next hdir htrunc.spares hcore htrunc.positioned (Content.within_cut c pos) htrunc.handle hobj
      (by rw [htrunc.fptr]; exact h.pos) htrunc.unmarked hmarked

/-! ### Synchronizing and closing -/

/-- An open file after `f_sync`, whatever the answer is. -/
theorem Live.synced {s' : FileState δ} (h : Live l slot v chain f o c n pos)
    (hsynced : Stream.Synced l chain c ⟨v, f, []⟩ s') (hmarked : Stream.Marked s') :
    Live l slot s'.vol chain s'.fil o c n pos where
  core := hsynced.core
  positioned := by
    rw [hsynced.same]
    exact ⟨h.positioned.fptr_le, h.positioned.clust, h.positioned.sect⟩
  within := h.within
  handle := hsynced.handle.trans h.handle
  valid := h.valid
  err := h.err
  sect := h.sect
  ptr := h.ptr
  size := by
    rw [hsynced.same]
    exact h.size
  pos := by
    rw [hsynced.same]
    exact h.pos
  entry := hsynced.entry h.entry
  marked := hmarked

/-- **How `f_sync` ends.** -/
theorem Live.fSync_ends (vols : Volumes) (h : Live l slot v chain f o c n pos)
    (hdir : Foreign l (v.table l) chain slot.sect) (hptr : slot.ptr + 32 ≤ 512) (tm : BitVec 32) :
    (∃ res, o.validity vols = res ∧ res ≠ .ok ∧ Stream.fSync vols l v f tm = (res, v, f)) ∨
      o.validity vols = .ok ∧ ∃ s' : FileState δ, Around l chain slot.sect slot.ptr v s'.vol ∧
        s'.vol.table l = v.table l ∧ Live l slot s'.vol chain s'.fil o c n pos ∧
        ((Stream.fSync vols l v f tm = (.ok, s'.vol, s'.fil) ∧ s'.fil.modified = false ∧
            (f.modified = true → s'.vol.window.wflag = false)) ∨
          (Stream.fSync vols l v f tm = (.diskErr, s'.vol, s'.fil) ∧ ¬Good l v)) := by
  have hbody := Stream.syncBody_spec (s := ⟨v, f, []⟩) h.core (h.dirSect ▸ hdir) (h.dirPtr ▸ hptr) tm
  unfold Stream.fSync
  rw [h.validity_eq vols]
  by_cases hok : o.validity vols = .ok
  · refine Or.inr ⟨hok, ?_⟩
    rw [if_neg (not_not.mpr hok)]
    unfold Ends at hbody
    split at hbody
    · rename_i s' heq
      obtain ⟨hsynced, hmod, hwritten, hsame⟩ := hbody
      have haround := hsynced.around
      simp only [h.dirSect, h.dirPtr] at haround
      refine ⟨s', haround, hsynced.table, h.synced hsynced fun hd => ?_,
        Or.inl ⟨by rw [heq], hmod, fun hmodified => (hwritten hmodified).1⟩⟩
      cases hold : f.modified with
      | true =>
        rw [(hwritten hold).2] at hd
        cases hd
      | false =>
        rw [hsame hold] at hd
        have hcon := h.marked hd
        rw [hold] at hcon
        cases hcon
    · rename_i e s' heq
      obtain ⟨rfl, hsynced, hbad, hdirty⟩ := hbody
      have haround := hsynced.around
      simp only [h.dirSect, h.dirPtr] at haround
      refine ⟨s', haround, hsynced.table, h.synced hsynced fun hd => ?_, Or.inr ⟨by rw [heq]; rfl, hbad⟩⟩
      have hfil := hdirty hd
      rw [hfil] at hd ⊢
      exact h.marked hd
  · exact Or.inl ⟨_, rfl, hok, by rw [if_pos hok]⟩

theorem Live.fSync (h : Live l slot v chain f o c n pos) (hdir : Foreign l (v.table l) chain slot.sect)
    (hptr : slot.ptr + 32 ≤ 512) (tm : BitVec 32) :
    ∃ chain' x', Served l slot vols v chain (.opened o c n pos) .fSync
      (FileCall.run vols l tm slot v f .fSync) chain' x' := by
  simp only [FileCall.run]
  rcases h.fSync_ends vols hdir hptr tm with
    ⟨res, hvalid, hne, heq⟩ | ⟨hvalid, s', haround, htable, hlive, ⟨heq, -⟩ | ⟨heq, hbad⟩⟩
  · rw [heq]
    refine ⟨chain, _, .refl h.core.coherent hdir h (.refused ?_)⟩
    rw [FileCall.refusal, hvalid, if_pos hne]
  · rw [heq]
    refine ⟨chain, _, Or.inl ⟨.syncs ?_, Accounts.of_eq htable, id⟩, hlive, haround, Grows.refl _ _⟩
    rw [FileCall.refusal, if_neg (not_not.mpr hvalid)]
  · rw [heq]
    exact ⟨chain, _, Or.inr ⟨.unsynced (Or.inl rfl), hbad⟩, hlive, haround, Grows.refl _ _⟩

theorem fClose_of_ne {tm : BitVec 32} {res : FResult} {r : Vol δ × OpenFil}
    (h : Stream.fSync vols l v f tm = (res, r)) (hne : res ≠ .ok) :
    Stream.fClose vols l v f tm = (res, r) := by
  unfold Stream.fClose
  rw [h]
  split
  · rename_i heq
    exact absurd (Prod.mk.inj heq).1 hne
  · rfl

theorem fClose_of_ok {tm : BitVec 32} {v' : Vol δ} {f' : OpenFil}
    (h : Stream.fSync vols l v f tm = (.ok, v', f')) (hvalid : validate vols f'.obj = .ok) :
    Stream.fClose vols l v f tm = (.ok, v', { f' with obj := { f'.obj with fs := none } }) := by
  unfold Stream.fClose
  rw [h]
  exact if_pos hvalid

/-- An open file that has not been modified rests on the volume. -/
theorem Live.rests (h : Live l slot v chain f o c n pos) (hmod : f.modified = false) :
    Rests l v.window chain c f.obj.objsize slot.sect slot.ptr := by
  have hclean : has f.flag faDirty = false := by
    rw [Bool.eq_false_iff]
    intro hd
    rw [h.marked hd] at hmod
    cases hmod
  have hrests := h.core.rests hclean (h.entry hmod)
  rwa [h.dirSect, h.dirPtr] at hrests

theorem Live.fClose (h : Live l slot v chain f o c n pos) (hdir : Foreign l (v.table l) chain slot.sect)
    (hptr : slot.ptr + 32 ≤ 512) (tm : BitVec 32) :
    ∃ chain' x', Served l slot vols v chain (.opened o c n pos) .fClose
      (FileCall.run vols l tm slot v f .fClose) chain' x' := by
  simp only [FileCall.run]
  rcases h.fSync_ends vols hdir hptr tm with
    ⟨res, hvalid, hne, heq⟩ | ⟨hvalid, s', haround, htable, hlive, ⟨heq, hmod, -⟩ | ⟨heq, hbad⟩⟩
  · rw [fClose_of_ne heq hne]
    refine ⟨chain, _, .refl h.core.coherent hdir h (.refused ?_)⟩
    rw [FileCall.refusal, hvalid, if_pos hne]
  · rw [fClose_of_ok heq ((hlive.validity_eq vols).trans hvalid)]
    refine ⟨chain, .closed c n, Or.inl ⟨.closes ?_, Accounts.of_eq htable, id⟩,
      ⟨rfl, h.within, _, hlive.size, hlive.rests hmod⟩, haround, Grows.refl _ _⟩
    rw [FileCall.refusal, if_neg (not_not.mpr hvalid)]
  · rw [fClose_of_ne heq (by decide)]
    exact ⟨chain, _, Or.inr ⟨.unsynced (Or.inr rfl), hbad⟩, hlive, haround, Grows.refl _ _⟩

/-! ### Opening -/

theorem opensTo_mask {α : Type} (mode : BitVec 8) (none x : α) :
    Stream.opensTo (mode &&& openMask) none x = Stream.opensTo mode none x := by
  rw [Stream.opensTo, Stream.opensTo, has_and_of_le (by decide)]

theorem has_mask_faDirty : ∀ mode : BitVec 8, has (mode &&& openMask) faDirty = false := by decide

/-- What is left of a file when it is opened is inside its size. -/
theorem Content.Within.opensTo (h : c.Within n) (mode : BitVec 8) :
    (Stream.opensTo mode (fun _ => none) c : Content).Within (Stream.opensTo mode 0 n) := by
  unfold Stream.opensTo
  split
  · exact fun _ _ => rfl
  · exact h

theorem toNat_opensTo (mode : BitVec 8) (size : BitVec 32) :
    (Stream.opensTo mode 0#32 size).toNat = Stream.opensTo mode 0 size.toNat := by
  unfold Stream.opensTo
  split <;> rfl

theorem Tight.opensTo (h : Tight l chain n) (mode : BitVec 8) :
    Tight l (Stream.opensTo (mode &&& openMask) [] chain) (Stream.opensTo mode 0 n) := by
  rw [opensTo_mask]
  unfold Stream.opensTo
  split
  · exact tight_nil l _
  · exact h

/-- A file that has been opened. -/
theorem Stream.Begun.live {s s' : FileState δ} {size : BitVec 32} {p : FsPtr} {id : BitVec 16} {mode : BitVec 8}
    (h : Begun l chain chain' (opensTo (mode &&& openMask) (fun _ => none) c)
      (opensTo (mode &&& openMask) 0#32 size) (has (mode &&& openMask) faSeekend)
      ⟨some p, id, .ok, has (mode &&& openMask) faRead, has (mode &&& openMask) faWrite, slot.sect, slot.ptr⟩
      s s') (hwithin : c.Within size.toNat) :
    Live l slot s'.vol chain' s'.fil
      ⟨some p, id, .ok, has (mode &&& openMask) faRead, has (mode &&& openMask) faWrite, slot.sect, slot.ptr⟩
      (opensTo mode (fun _ => none) c) (opensTo mode 0 size.toNat)
      (if has mode faSeekend = true then opensTo mode 0 size.toNat else 0) where
  core := by
    have hcore := h.core
    rwa [opensTo_mask] at hcore
  positioned := h.positioned
  within := hwithin.opensTo mode
  handle := h.handle
  valid := by simp
  err := rfl
  sect := rfl
  ptr := rfl
  size := by rw [h.objsize, opensTo_mask, toNat_opensTo]
  pos := by
    rw [h.fptr, opensTo_mask, has_and_of_le (by decide)]
    split
    · exact toNat_opensTo _ _
    · rfl
  entry _ := h.entry
  marked hd := by
    rw [h.clean] at hd
    cases hd

/-- A file that could not be opened. -/
theorem Rests.laid {size : BitVec 32} (h : Rests l v.window chain c size slot.sect slot.ptr)
    (hwithin : c.Within size.toNat) (hfs : f.obj.fs = none) : Laid l slot v chain f c size.toNat :=
  ⟨hfs, hwithin, size, rfl, h⟩

theorem Laid.fOpen (h : Laid l slot v chain f c n) (hcoh : v.window.Coherent l)
    (hdir : Foreign l (v.table l) chain slot.sect) (hptr : slot.ptr + 32 ≤ 512) (p : FsPtr) (mode : BitVec 8)
    (tm : BitVec 32) :
    ∃ chain' x', Served l slot vols v chain (.closed c n) (.fOpen p mode)
      (FileCall.run vols l tm slot v f (.fOpen p mode)) chain' x' := by
  obtain ⟨-, hwithin, size, rfl, hrests⟩ := h
  obtain ⟨hkept, hview, hres⟩ := moveWindow_spec hcoh slot.sect
  have hplace := moveWindow_winsect l.toGeometry v.window slot.sect
  simp only [FileCall.run, Stream.fOpen]
  generalize moveWindow l.toGeometry v.window slot.sect = r at hkept hview hres hplace
  obtain ⟨res, w⟩ := r
  simp only at hkept hview hres hplace ⊢
  have hmoved : _ ∧ Around l chain slot.sect slot.ptr v { v with window := w } :=
    Around.of_move chain slot.ptr hdir hkept hplace hview rfl
  obtain ⟨htable, haround⟩ := hmoved
  have hrests₁ := hrests.of_sameView hdir.1 hview
  rcases hres with ⟨rfl, hwin⟩ | ⟨rfl, hfail⟩
  · -- the attributes in the window are those of the entry
    have hattr : protection w slot.sect slot.ptr = peek w.win (slot.ptr + 11) &&& (amRdo ||| amDir) := by
      rw [protection, ← hwin, view_winsect]
    have hrefusal := Stream.openRefusal_and (mode &&& openMask) (peek w.win (slot.ptr + 11))
    rw [← hattr, haround.protection] at hrefusal
    simp only
    split
    · rename_i res hrefused
      rw [hrefused] at hrefusal
      exact ⟨chain, _, Or.inl ⟨.barred hrefusal, Accounts.of_eq htable, id⟩, hrests₁.laid hwithin rfl,
        haround, Grows.refl _ _⟩
    · rename_i hgranted
      rw [hgranted] at hrefusal
      have hbody := Stream.openBody_spec (s := ⟨{ v with window := w }, f, []⟩) hkept.coherent hrests₁ hwin
        (htable ▸ hdir) hptr p (vols.fatfs p).id (has_mask_faDirty mode)
        (fun hcreate => hattr.trans (Stream.eq_zero_of_openRefusal hgranted hcreate)) tm
      unfold Ends at hbody
      split at hbody
      · rename_i s' heq
        rw [heq]
        have haccounts := hbody.accounts
        have hgrows := hbody.grows
        simp only [htable] at haccounts hgrows
        refine ⟨_, _, Or.inl ⟨.opens hrefusal ⟨rfl, rfl, rfl, has_and_of_le (by decide) _,
          has_and_of_le (by decide) _⟩, haccounts, fun htight => ?_⟩, hbody.live hwithin,
          haround.trans hbody.around (Grows.refl _ _), hgrows⟩
        exact htight.opensTo mode
      · rename_i e s' heq
        rw [heq]
        obtain ⟨hun, hbad, hne⟩ := hbody
        have hgrows := hun.grows
        simp only [htable] at hgrows
        have hrests := hun.rests
        simp only [opensTo_mask] at hrests
        have hlaid := hrests.laid (f := { s'.fil with obj := { s'.fil.obj with fs := none } })
          (by rw [toNat_opensTo]; exact hwithin.opensTo mode) rfl
        rw [toNat_opensTo] at hlaid
        rw [opensTo_mask] at hgrows
        exact ⟨_, _, Or.inr ⟨.cleared (mt InnerResult.toFResult_eq_ok_iff.mp hne),
          fun hgood => hbad (haround.good hgood)⟩, hlaid, haround.trans hun.around (Grows.refl _ _), hgrows⟩
  · simp only
    exact ⟨chain, _, Or.inr ⟨.unopened (by decide), fun hgood => hfail hgood.works⟩,
      hrests₁.laid hwithin rfl, haround, Grows.refl _ _⟩

/-! ### Every call -/

theorem refusal_of_failed (vols : Volumes) {call : FileCall} (herr : o.err ≠ .ok)
    (hdata : call.isData = true) :
    ∃ res, call.refusal vols o = some res := by
  have hany : ∀ access, ∃ res, o.refusal vols access = some res := by
    intro access
    unfold Handle.refusal
    rw [if_pos herr]
    split
    · exact ⟨_, rfl⟩
    · exact ⟨_, rfl⟩
  cases call with
  | fRead btr => exact hany (some o.readable)
  | fWrite data => exact hany (some o.writable)
  | fLseek ofs => exact hany none
  | fTruncate => exact hany (some o.writable)
  | fOpen p mode => cases hdata
  | fSync => cases hdata
  | fClose => cases hdata

/-- A call on the data of a file that refuses it. -/
theorem run_of_refusal {call : FileCall} {res : FResult} (hdata : call.isData = true)
    (h : call.refusal vols f.handle = some res) (tm : BitVec 32) :
    call.run vols l tm slot v f = ((res, []), v, f) := by
  have hcall : ∀ access m, Stream.refusal vols f.toFil access = some res →
      Stream.call vols access m v f = ((res, []), v, f) := by
    intro access m hres
    unfold Stream.call
    rw [hres]
  cases call with
  | fRead btr => exact hcall _ _ h
  | fWrite data => exact hcall _ _ h
  | fLseek ofs => exact hcall _ _ h
  | fTruncate => exact hcall _ _ h
  | fOpen p mode => cases hdata
  | fSync => cases hdata
  | fClose => cases hdata

/-- A file that is not open is not worked on. -/
theorem run_of_unopen {call : FileCall} (hfs : f.obj.fs = none) (hcall : ∀ p mode, call ≠ .fOpen p mode)
    (tm : BitVec 32) : call.run vols l tm slot v f = ((.invalidObject, []), v, f) := by
  have hvalid : validate vols f.obj = .invalidObject := by
    unfold validate
    rw [hfs]
  have hrefusal : ∀ access, Stream.refusal vols f.toFil access = some .invalidObject := by
    intro access
    unfold Stream.refusal
    rw [hvalid, if_pos (by decide)]
  have hsync : Stream.fSync vols l v f tm = (.invalidObject, v, f) := by
    unfold Stream.fSync
    rw [hvalid, if_pos (by decide)]
  have hdata : ∀ access m, Stream.call vols access m v f = ((.invalidObject, []), v, f) := by
    intro access m
    unfold Stream.call
    rw [hrefusal]
  cases call with
  | fRead btr => exact hdata _ _
  | fWrite data => exact hdata _ _
  | fLseek ofs => exact hdata _ _
  | fTruncate => exact hdata _ _
  | fOpen p mode => exact absurd rfl (hcall p mode)
  | fSync => simp only [FileCall.run, hsync]
  | fClose => simp only [FileCall.run, fClose_of_ne hsync (by decide)]

/-- **Every call on a file is one the specification allows.** -/
theorem Stands.served (vols : Volumes) {x : FileSpec} (h : Stands l slot v chain f x)
    (hcoh : v.window.Coherent l) (hdir : Foreign l (v.table l) chain slot.sect) (hptr : slot.ptr + 32 ≤ 512) {call : FileCall}
    (hfits : call.Fits f) (tm : BitVec 32) :
    ∃ chain' x', Served l slot vols v chain x call (call.run vols l tm slot v f) chain' x' := by
  cases x with
  | closed c n =>
    by_cases hcall : ∃ p mode, call = .fOpen p mode
    · obtain ⟨p, mode, rfl⟩ := hcall
      exact Laid.fOpen h hcoh hdir hptr p mode tm
    · have hother : ∀ p mode, call ≠ .fOpen p mode := fun p mode heq => hcall ⟨p, mode, heq⟩
      rw [run_of_unopen h.fs hother]
      exact ⟨chain, _, .refl hcoh hdir h (.unopen hother)⟩
  | opened o c n pos =>
    have hlive : Live l slot v chain f o c n pos := h
    cases call with
    | fOpen p mode =>
      have hfs : f.obj.fs = none := hfits
      refine absurd ?_ hlive.valid
      rw [← hlive.handle]
      exact hfs
    | fRead btr => exact hlive.fRead hdir btr
    | fWrite data => exact hlive.fWrite hdir hfits
    | fLseek ofs => exact hlive.fLseek hdir ofs
    | fTruncate => exact hlive.fTruncate hdir
    | fSync => exact hlive.fSync hdir hptr tm
    | fClose => exact hlive.fClose hdir hptr tm
  | failed o =>
    obtain ⟨hhandle, hfs, herr, -⟩ := id h
    have hdata : call.isData = true := by
      subst hhandle
      cases call with
      | fRead btr => rfl
      | fWrite data => rfl
      | fLseek ofs => rfl
      | fTruncate => rfl
      | fOpen p mode => exact absurd hfits hfs
      | fSync => exact absurd hfits (not_or.mpr ⟨herr, hfs⟩)
      | fClose => exact absurd hfits (not_or.mpr ⟨herr, hfs⟩)
    obtain ⟨res, hres⟩ := refusal_of_failed vols herr hdata
    rw [run_of_refusal hdata (hhandle ▸ hres)]
    exact ⟨chain, _, .refl hcoh hdir h (.dead hres)⟩

end Calls

end FatFs

end BareMetal
