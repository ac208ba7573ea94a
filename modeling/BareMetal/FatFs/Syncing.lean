import BareMetal.FatFs.Truncating

/-!
# The directory entry of a file

What a file is without its object is its directory entry: the first cluster and the size. `f_sync` brings it
up to date, after the buffer, and then has `sync_fs` write the window and, on a FAT32 volume, the
information sector. `f_close` is `f_sync`, after which the object is given back.

After a success nothing of the file is in memory only (`BareMetal.FatFs.Stream.syncBody_spec`). After a
failure the file holds what it held, but `FA_MODIFIED` may have been taken off before `sync_fs` failed, so
that another `f_sync` reports success and writes nothing, while the entry may still be in the window only.
-/

namespace BareMetal

namespace FatFs

variable {δ : Type} [DiskIo δ]

/-! ### The code -/

/-- `ld_clust`, of the entry at an offset of a sector. -/
def ldClust (g : Geometry) (w : Sector) (dir : ℕ) : BitVec 32 :=
  let cl := (ldWord w (dir + 26)).setWidth 32
  if g.fsType = .fat32 then cl ||| (ldWord w (dir + 20)).setWidth 32 <<< 16 else cl

/-- `st_clust`. -/
def stClust (g : Geometry) (w : Sector) (dir : ℕ) (cl : BitVec 32) : Sector :=
  let w := stWord w (dir + 26) (cl.setWidth 16)
  if g.fsType = .fat32 then stWord w (dir + 20) ((cl >>> 16).setWidth 16) else w

/-- What `f_sync` makes of a directory entry: the archive attribute is set, and the first cluster, the
size, the time of the change and the date of the last access are stored. -/
def storeEntry (g : Geometry) (dir : ℕ) (cl size tm : BitVec 32) (w : Sector) : Sector :=
  let w := poke w (dir + 11) (peek w (dir + 11) ||| amArc)
  let w := stClust g w dir cl
  let w := stDword w (dir + 28) size
  let w := stDword w (dir + 22) tm
  stWord w (dir + 18) 0#16

/-- The information sector of a FAT32 volume. -/
def fsInfo (v : Vol δ) : Sector :=
  let w := stWord (fun _ => 0#8) 510 0xAA55#16
  let w := stDword w 0 0x41615252#32
  let w := stDword w 484 0x61417272#32
  let w := stDword w 488 v.freeClst
  stDword w 492 v.lastClst

/-- The part of `sync_fs` for the information sector: the answer of the write is not looked at. -/
def syncInfo (g : Geometry) (v : Vol δ) : Vol δ :=
  if g.fsType = .fat32 ∧ v.fsiFlag = 1#8 then
    { v with
      window := { v.window with
        win := fsInfo v
        winsect := g.volbase + 1#32
        disk := (diskWrite v.window.disk (fun _ => fsInfo v) (g.volbase + 1#32) 1).2 }
      fsiFlag := 0#8 }
  else v

/-- `sync_fs`. -/
def syncFs (g : Geometry) (v : Vol δ) : FResult × Vol δ :=
  match syncWindow g v.window with
  | (.ok, w) =>
      let v := syncInfo g { v with window := w }
      let r := diskSync v.window.disk
      (if r.1 = .ok then .ok else .diskErr, Stream.setDisk v r.2)
  | (res, w) => (res, { v with window := w })

namespace Stream

/-- The directory entry is brought up to date. -/
def syncEntry (g : Geometry) (tm : BitVec 32) : FileM δ Unit := do
  let s ← get
  let r := editWindow g s.vol.window s.fil.dirSect
    (storeEntry g s.fil.dirPtr s.fil.obj.sclust s.fil.obj.objsize tm)
  set { s with vol := { s.vol with window := r.2 } }
  failIf (r.1 ≠ .ok) .diskErr
  let s ← get
  let r := syncFs g s.vol
  -- the mark is taken off whatever the answer is
  set { s with vol := r.2, fil := { s.fil with flag := s.fil.flag &&& ~~~faModified } }
  failIf (r.1 ≠ .ok) .diskErr

/-- `f_sync` behind its check. -/
def syncBody (g : Geometry) (tm : BitVec 32) : FileM δ Unit := do
  let s ← get
  onlyIf (has s.fil.flag faModified = true) (do
    flush
    syncEntry g tm)

/-- `f_sync`: it does not ask whether the file has failed before, and an error is not kept in the
object. -/
def fSync (vols : Volumes) (g : Geometry) (v : Vol δ) (f : OpenFil) (tm : BitVec 32) :
    FResult × (Vol δ × OpenFil) :=
  if validate vols f.obj ≠ .ok then (validate vols f.obj, v, f)
  else
    match (syncBody g tm).from ⟨v, f, []⟩ with
    | (.ok _, s) => (.ok, s.vol, s.fil)
    | (.error e, s) => (e.toFResult, s.vol, s.fil)

/-- `f_close`. -/
def fClose (vols : Volumes) (g : Geometry) (v : Vol δ) (f : OpenFil) (tm : BitVec 32) :
    FResult × (Vol δ × OpenFil) :=
  match fSync vols g v f tm with
  | (.ok, v, f) =>
      if validate vols f.obj = .ok then (.ok, v, { f with obj := { f.obj with fs := none } })
      else (validate vols f.obj, v, f)
  | r => r

end Stream

/-! ### The fields of an entry -/

section Fields

variable {g : Geometry} {w w' : Sector} {dir : ℕ}

theorem ldWord_congr {n : ℕ} [NeZero n] {w w' : Block n} {o : ℕ}
    (h : ∀ j < 2, peek w' (o + j) = peek w (o + j)) : ldWord w' o = ldWord w o := by
  rw [ldWord, ldWord, h 1 (by decide), show peek w' o = peek w o from h 0 (by decide)]

theorem ldDword_congr {n : ℕ} [NeZero n] {w w' : Block n} {o : ℕ}
    (h : ∀ j < 4, peek w' (o + j) = peek w (o + j)) : ldDword w' o = ldDword w o := by
  rw [ldDword, ldDword, h 3 (by decide), h 2 (by decide), h 1 (by decide),
    show peek w' o = peek w o from h 0 (by decide)]

/-- The two halves of a cluster number. -/
theorem halves (cl : BitVec 32) :
    (cl.setWidth 16).setWidth 32 ||| ((cl >>> 16).setWidth 16).setWidth 32 <<< 16 = cl := by
  refine BitVec.eq_of_getLsbD_eq fun i hi => ?_
  simp only [BitVec.getLsbD_or, BitVec.getLsbD_shiftLeft, BitVec.getLsbD_setWidth,
    BitVec.getLsbD_ushiftRight]
  by_cases h : i < 16
  · simp [h, hi]
  · simp [h, hi, Nat.add_sub_cancel' (Nat.le_of_not_lt h), show i - 16 < 32 by omega,
      show i - 16 < 16 by omega]

/-- **A first cluster that has been stored loads back.** -/
theorem ldClust_stClust (w : Sector) (hdir : dir + 32 ≤ 512) {cl : BitVec 32}
    (hcl : g.fsType ≠ .fat32 → cl.toNat < 2 ^ 16) : ldClust g (stClust g w dir cl) dir = cl := by
  unfold ldClust stClust
  by_cases htype : g.fsType = .fat32
  · simp only [if_pos htype]
    rw [ldWord_stWord _ (by omega), ldWord_congr (w := stWord w (dir + 26) (cl.setWidth 16))
      fun j hj => peek_stWord_of_ne _ (by omega) (by omega) (by omega) _,
      ldWord_stWord _ (by omega), halves]
  · simp only [if_neg htype]
    rw [ldWord_stWord _ (by omega)]
    refine BitVec.eq_of_toNat_eq ?_
    rw [BitVec.toNat_setWidth, BitVec.toNat_setWidth, Nat.mod_eq_of_lt (hcl htype),
      Nat.mod_eq_of_lt cl.isLt]

/-- The first cluster of an entry is in its bytes 20, 21, 26 and 27. -/
theorem ldClust_congr
    (h : ∀ j < 2, peek w' (dir + 26 + j) = peek w (dir + 26 + j) ∧
      peek w' (dir + 20 + j) = peek w (dir + 20 + j)) : ldClust g w' dir = ldClust g w dir := by
  rw [ldClust, ldClust, ldWord_congr fun j hj => (h j hj).1, ldWord_congr fun j hj => (h j hj).2]

theorem peek_stClust_of_ne (w : Sector) {i : ℕ} (hi : i < 512) (hdir : dir + 32 ≤ 512)
    (hne : i < dir + 20 ∨ dir + 28 ≤ i) (cl : BitVec 32) :
    peek (stClust g w dir cl) i = peek w i := by
  unfold stClust
  split
  · rw [peek_stWord_of_ne _ hi (by omega) (by omega), peek_stWord_of_ne _ hi (by omega) (by omega)]
  · rw [peek_stWord_of_ne _ hi (by omega) (by omega)]

/-- The archive attribute does not protect a file. -/
theorem archived_and : ∀ attr : BitVec 8,
    (attr ||| amArc) &&& (amRdo ||| amDir) = attr &&& (amRdo ||| amDir) := by
  decide

/-- **What `f_sync` stores loads back**, and the other entries of the sector stay. -/
theorem storeEntry_spec (w : Sector) (hdir : dir + 32 ≤ 512) {cl : BitVec 32}
    (hcl : g.fsType ≠ .fat32 → cl.toNat < 2 ^ 16) (size tm : BitVec 32) :
    ldClust g (storeEntry g dir cl size tm w) dir = cl ∧
      ldDword (storeEntry g dir cl size tm w) (dir + 28) = size ∧
      peek (storeEntry g dir cl size tm w) (dir + 11) = peek w (dir + 11) ||| amArc ∧
      ∀ i < 512, i < dir ∨ dir + 32 ≤ i → peek (storeEntry g dir cl size tm w) i = peek w i := by
  unfold storeEntry
  refine ⟨?_, ?_, ?_, fun i hi hout => ?_⟩
  · generalize poke w (dir + 11) (peek w (dir + 11) ||| amArc) = w₀
    rw [ldClust_congr (w := stClust g w₀ dir cl), ldClust_stClust w₀ hdir hcl]
    intro j hj
    constructor <;>
    rw [peek_stWord_of_ne _ (by omega) (by omega) (by omega),
      peek_stDword_of_ne _ (by omega) (by omega) (by omega),
      peek_stDword_of_ne _ (by omega) (by omega) (by omega)]
  · generalize poke w (dir + 11) (peek w (dir + 11) ||| amArc) = w₀
    rw [ldDword_congr (w := stDword (stClust g w₀ dir cl) (dir + 28) size),
      ldDword_stDword _ (by omega)]
    intro j hj
    rw [peek_stWord_of_ne _ (by omega) (by omega) (by omega),
      peek_stDword_of_ne _ (by omega) (by omega) (by omega)]
  · rw [peek_stWord_of_ne _ (by omega) (by omega) (by omega),
      peek_stDword_of_ne _ (by omega) (by omega) (by omega),
      peek_stDword_of_ne _ (by omega) (by omega) (by omega),
      peek_stClust_of_ne _ (by omega) hdir (by omega), peek_poke_self]
  · rw [peek_stWord_of_ne _ hi (by omega) (by omega), peek_stDword_of_ne _ hi (by omega) (by omega),
      peek_stDword_of_ne _ hi (by omega) (by omega), peek_stClust_of_ne _ hi hdir (by omega),
      peek_poke_of_lt _ hi (by omega) (by omega)]

end Fields

/-! ### The volume -/

section Volume

variable {l : Layout} {v : Vol δ}

/-- The information sector is before the clusters, and is not kept track of. -/
theorem not_inData_info (htype : l.fsType = .fat32) :
    ¬l.InData (l.volbase + 1#32) ∧ ¬l.Tracked (l.volbase + 1#32) := by
  refine ⟨fun hs => ?_, fun hs => hs.2.1 htype rfl⟩
  have hdata := BitVec.le_def.mp hs.1
  have hinfo := l.fsinfo htype
  have htable := table_le l
  have hinside := l.inside
  rw [BitVec.toNat_add, show (1#32).toNat = 1 from rfl] at hdata
  omega

/-- The information sector is written in the place of a window that has been written. -/
theorem syncInfo_spec (h : v.window.Coherent l) (hclean : v.window.wflag = false) :
    TableKept l v.window (syncInfo l v).window ∧ SameView l v.window (syncInfo l v).window ∧
      (syncInfo l v).window.wflag = false ∧ (syncInfo l v).freeClst = v.freeClst := by
  unfold syncInfo
  split
  · rename_i hinfo
    obtain ⟨hout, huntracked⟩ := not_inData_info (l := l) hinfo.1
    obtain ⟨res, d, heq, hres⟩ := diskWrite_one v.window.disk (l.volbase + 1#32) (fsInfo v)
    obtain ⟨b, hd⟩ : ∃ b, Becomes v.window.disk d
        (Function.update (sectors v.window.disk) (l.volbase + 1#32) b) := by
      rcases hres with ⟨-, hd⟩ | ⟨-, -, left, hd⟩
      · exact ⟨_, hd⟩
      · exact ⟨_, hd⟩
    rw [heq]
    refine ⟨⟨⟨⟨fun htrue => ?_, fun _ htracked => absurd htracked huntracked⟩, hd.works⟩,
      Or.inr hout⟩, fun t ht => ?_, hclean, rfl⟩
    · rw [show v.window.wflag = true from htrue] at hclean
      cases hclean
    · have hne : t ≠ l.volbase + 1#32 := ht.2.1 hinfo.1
      rw [h.view_eq hclean ht, view_of_ne hne, hd.stored, Function.update_of_ne hne]
  · exact ⟨h.tableKept, fun _ _ => rfl, hclean, rfl⟩

/-- **`sync_fs` writes what is in the window**, or reports an error, and loses nothing. -/
theorem syncFs_spec (h : v.window.Coherent l) :
    TableKept l v.window (syncFs l v).2.window ∧ SameView l v.window (syncFs l v).2.window ∧
      (syncFs l v).2.freeClst = v.freeClst ∧
      ((syncFs l v).1 = .ok ∧ (syncFs l v).2.window.wflag = false ∨
        (syncFs l v).1 = .diskErr ∧ ¬Works v.window.disk) := by
  obtain ⟨hkept, hview, hres⟩ := syncWindow_spec h
  have hplace := syncWindow_winsect l.toGeometry v.window
  unfold syncFs
  generalize syncWindow l.toGeometry v.window = r at hkept hview hres hplace
  obtain ⟨res, w⟩ := r
  simp only at hkept hview hres hplace
  rcases hres with ⟨rfl, hclean⟩ | ⟨rfl, hfail⟩
  · obtain ⟨hkept', hview', hclean', hfree⟩ :=
      syncInfo_spec (v := { v with window := w }) hkept.coherent hclean
    simp only
    generalize syncInfo l.toGeometry { v with window := w } = v' at hkept' hview' hclean' hfree
    have hall : TableKept l v.window v'.window :=
      TableKept.trans ⟨hkept, Or.inl hplace⟩ hkept'
    obtain ⟨res, d, heq, hd, hres⟩ := diskSync_inv v'.window.disk
    have hnext : TableKept l v.window (Stream.setDisk v' d).window :=
      hall.trans (tableKept_read hall.coherent hd)
    have hsame : SameView l v.window (Stream.setDisk v' d).window :=
      (hview.trans hview').trans fun _ _ => by rw [view_read hd]
    rw [heq]
    rcases hres with rfl | ⟨hne, hfail⟩
    · exact ⟨hnext, hsame, hfree, Or.inl ⟨rfl, hclean'⟩⟩
    · exact ⟨hnext, hsame, hfree, Or.inr ⟨if_neg hne, fun hworks => hfail (hall.works hworks)⟩⟩
  · exact ⟨⟨hkept, Or.inl hplace⟩, hview, rfl, Or.inr ⟨rfl, hfail⟩⟩

end Volume

/-! ### The file -/

/-- The directory entry says where the file begins and how long it is. -/
def EntryAt (g : Geometry) (σ : BitVec 32 → Sector) (f : OpenFil) : Prop :=
  ldClust g (σ f.dirSect) f.dirPtr = f.obj.sclust ∧
    ldDword (σ f.dirSect) (f.dirPtr + 28) = f.obj.objsize

/-- The entry says the same if its bytes do. -/
theorem EntryAt.congr {g : Geometry} {σ σ' : BitVec 32 → Sector} {f f' : OpenFil}
    (h : EntryAt g σ f) (hsect : f'.dirSect = f.dirSect) (hptr : f'.dirPtr = f.dirPtr)
    (hstart : f'.obj.sclust = f.obj.sclust) (hsize : f'.obj.objsize = f.obj.objsize)
    (hbytes : ∀ i < 32,
      peek (σ' f.dirSect) (f.dirPtr + i) = peek (σ f.dirSect) (f.dirPtr + i)) : EntryAt g σ' f' := by
  have hword : ∀ o j, o + j < 32 →
      peek (σ' f.dirSect) (f.dirPtr + o + j) = peek (σ f.dirSect) (f.dirPtr + o + j) := by
    intro o j hoj
    rw [Nat.add_assoc]
    exact hbytes (o + j) hoj
  rw [EntryAt, hsect, hptr, hstart, hsize, ldClust_congr fun j hj => ⟨hword 26 j (by omega),
    hword 20 j (by omega)⟩, ldDword_congr fun j hj => hword 28 j (by omega)]
  exact h

/-- The first cluster of a file fits in the entry. -/
theorem Core.sclust_lt {l : Layout} {w : Window δ} {chain : List (BitVec 32)} {content : Content}
    {f : OpenFil} (h : Core l w chain content f) (htype : l.fsType ≠ .fat32) :
    f.obj.sclust.toNat < 2 ^ 16 := by
  rw [h.start]
  cases hchain : chain with
  | nil => decide
  | cons a rest =>
    have ha : l.Cluster a := h.nodes a (by simp [hchain])
    have hlt := BitVec.lt_def.mp ha.2
    have hmax := l.nFatent_le
    simp only [List.head?_cons, Option.getD_some]
    cases hkind : l.fsType with
    | fat12 =>
      rw [hkind, FatType.maxClusters] at hmax
      omega
    | fat16 =>
      rw [hkind, FatType.maxClusters] at hmax
      omega
    | fat32 => exact absurd hkind htype

namespace Stream

/-- **What `f_sync` leaves alone**, whatever it answers: the file holds what it held, the table stays,
and of what is not the file's own only its directory entry changes. -/
structure Synced (l : Layout) (chain : List (BitVec 32)) (content : Content) (s s' : FileState δ) :
    Prop where
  around : Around l chain s.fil.dirSect s.fil.dirPtr s.vol s'.vol
  table : s'.vol.table l = s.vol.table l
  core : Core l s'.vol.window chain content s'.fil
  same : s'.fil = { s.fil with flag := s'.fil.flag }
  handle : s'.fil.handle = s.fil.handle
  entry : (s.fil.modified = false → EntryAt l s.vol.window.view s.fil) →
    s'.fil.modified = false → EntryAt l s'.vol.window.view s'.fil
  moved : s'.moved = s.moved

section Sync

variable {l : Layout} {chain : List (BitVec 32)} {content : Content} {s s' s'' : FileState δ}

theorem Synced.trans (h : Synced l chain content s s') (h' : Synced l chain content s' s'') :
    Synced l chain content s s'' := by
  have hsect : s'.fil.dirSect = s.fil.dirSect := by rw [h.same]
  have hptr : s'.fil.dirPtr = s.fil.dirPtr := by rw [h.same]
  have haround := h'.around
  rw [hsect, hptr] at haround
  refine ⟨h.around.trans haround (Grows.refl _ _), h'.table.trans h.table, h'.core, ?_,
    h'.handle.trans h.handle, fun hentry => h'.entry (h.entry hentry), h'.moved.trans h.moved⟩
  have hsame := h'.same
  rw [h.same] at hsame
  exact hsame

/-- A part that only writes the buffer back. -/
theorem Synced.of_held (h : Core l s.vol.window chain content s.fil)
    (hdir : Foreign l (s.vol.table l) chain s.fil.dirSect) (hspares : Spares l chain s.vol s'.vol)
    (hheld : Held l s'.vol.window chain content s'.fil) (htable : s'.vol.table l = s.vol.table l)
    (hsame : s'.fil = { s.fil with flag := s'.fil.flag })
    (hhandle : s'.fil.handle = s.fil.handle) (hmod : s'.fil.modified = s.fil.modified)
    (hmoved : s'.moved = s.moved) : Synced l chain content s s' where
  around := hspares.around hdir _
  table := htable
  core := by
    refine ⟨hheld.coherent, ?_, fun a ha => (h.linked a ha).congr fun c _ => congrFun htable c, ?_,
      hheld.dirty, hheld.apart, hheld.data⟩
    · rw [hsame]
      exact h.start
    · rw [hsame]
      exact h.size
  same := hsame
  handle := hhandle
  entry hentry hunmod := by
    refine (hentry (hmod ▸ hunmod)).congr (by rw [hsame]) (by rw [hsame]) (by rw [hsame]) (by rw [hsame])
      fun i _ => ?_
    rw [hspares.sectors _ hdir]
  moved := hmoved

/-- A change of the window that keeps what is in the sectors of the others. -/
theorem Synced.of_window {w' : Window δ} (h : Core l s.vol.window chain content s.fil)
    (hdir : Foreign l (s.vol.table l) chain s.fil.dirSect) (hkept : Kept l s.vol.window w')
    (hplace : w'.winsect = s.vol.window.winsect ∨ ¬l.InData w'.winsect ∨ w'.winsect = s.fil.dirSect)
    (hview : ∀ t, l.Tracked t → t ≠ s.fil.dirSect → w'.view t = s.vol.window.view t)
    (hslot : ∀ i < 512, i < s.fil.dirPtr ∨ s.fil.dirPtr + 32 ≤ i →
      peek (w'.view s.fil.dirSect) i = peek (s.vol.window.view s.fil.dirSect) i)
    (hattr : protection w' s.fil.dirSect s.fil.dirPtr =
      protection s.vol.window s.fil.dirSect s.fil.dirPtr)
    (hvol : s'.vol.window = w') (hfree : s'.vol.freeClst = s.vol.freeClst)
    (hsame : s'.fil = { s.fil with flag := s'.fil.flag })
    (hdirty : has s'.fil.flag faDirty = has s.fil.flag faDirty)
    (hhandle : s'.fil.handle = s.fil.handle)
    (hentry : (s.fil.modified = false → EntryAt l s.vol.window.view s.fil) →
      s'.fil.modified = false → EntryAt l w'.view s'.fil)
    (hmoved : s'.moved = s.moved) : Synced l chain content s s' := by
  subst hvol
  obtain ⟨htable, haround⟩ := Around.of_window chain hdir.2.1 hkept hplace hview hslot hattr hfree
  refine ⟨haround, htable, ?_, hsame, hhandle, hentry, hmoved⟩
  have hcore := h.of_window hkept.coherent (fun c _ => congrFun htable c)
    (fun k hk => hview _ (tracked_of_inData l (inData_sectorOf h.nodes hk))
      (ne_sectorOf_of_foreign hdir h.nodes hk).symm) fun k hk => ?_
  · rw [hsame]
    exact hcore.of_fil rfl rfl hdirty rfl rfl
  · rcases hplace with heq | hout | heq
    · rw [heq]
      exact h.apart k hk
    · exact fun hcon => hout (hcon ▸ inData_sectorOf h.nodes hk)
    · rw [heq]
      exact ne_sectorOf_of_foreign hdir h.nodes hk

/-- Where the window is after an edit, and what it shows. -/
theorem editWindow_winsect (g : Geometry) (w : Window δ) (t : BitVec 32) (f : Sector → Sector) :
    (editWindow g w t f).2.winsect = w.winsect ∨ (editWindow g w t f).2.winsect = t ∨
      (editWindow g w t f).2.winsect = noSector := by
  have hmove := moveWindow_winsect g w t
  unfold editWindow
  split
  · rename_i heq
    rw [heq] at hmove
    exact hmove
  · rename_i heq
    rw [heq] at hmove
    exact hmove

/-- The mark is taken off. -/
theorem handle_unmarked (f : OpenFil) :
    OpenFil.handle { f with flag := f.flag &&& ~~~faModified } = f.handle := by
  simp (disch := decide) only [OpenFil.handle, has_and_not]

/-- **The directory entry is brought up to date**, and if the call succeeds it is on the disk. -/
theorem syncEntry_spec (h : Core l s.vol.window chain content s.fil)
    (hdir : Foreign l (s.vol.table l) chain s.fil.dirSect) (hptr : s.fil.dirPtr + 32 ≤ 512)
    (tm : BitVec 32) :
    Ends (syncEntry l tm) s (fun _ s' => Synced l chain content s s' ∧ s'.fil.modified = false ∧
        s'.vol.window.wflag = false ∧ has s'.fil.flag faDirty = has s.fil.flag faDirty)
      (fun e s' => e = .diskErr ∧ Synced l chain content s s' ∧ ¬Good l s.vol ∧
        has s'.fil.flag faDirty = has s.fil.flag faDirty) := by
  have hsize : l.fsType ≠ .fat32 → s.fil.obj.sclust.toNat < 2 ^ 16 := h.sclust_lt
  obtain ⟨hkept, hres⟩ := editWindow_spec h.coherent hdir.1
    (storeEntry l s.fil.dirPtr s.fil.obj.sclust s.fil.obj.objsize tm)
  have hwin := editWindow_winsect l.toGeometry s.vol.window s.fil.dirSect
    (storeEntry l s.fil.dirPtr s.fil.obj.sclust s.fil.obj.objsize tm)
  simp only [syncEntry, ends_bind, ends_get, ends_set, ends_failIf]
  generalize editWindow l.toGeometry s.vol.window s.fil.dirSect _ = r at hkept hres hwin
  obtain ⟨res, w⟩ := r
  simp only at hkept hres hwin ⊢
  have hplace : w.winsect = s.vol.window.winsect ∨ ¬l.InData w.winsect ∨
      w.winsect = s.fil.dirSect := by
    rcases hwin with heq | heq | heq
    · exact Or.inl heq
    · exact Or.inr (Or.inr heq)
    · rw [heq]
      exact Or.inr (Or.inl (not_inData_noSector l))
  obtain ⟨hclust, hlen, hattr, hother⟩ := storeEntry_spec (g := l.toGeometry)
    (s.vol.window.view s.fil.dirSect) hptr hsize s.fil.obj.objsize tm
  rcases hres with ⟨rfl, hview⟩ | ⟨⟨rfl, hfail⟩, hview⟩
  · refine ⟨fun hcon => absurd rfl hcon, fun _ => ?_⟩
    obtain ⟨hkept', hview', hfree, hres'⟩ := syncFs_spec (v := { s.vol with window := w }) hkept.coherent
    have hkept₂ := hkept.trans hkept'.toKept
    have hplace₂ := hkept'.place
    generalize syncFs l.toGeometry { s.vol with window := w } = r' at hkept' hview' hfree hres' hkept₂ hplace₂
    obtain ⟨res', v'⟩ := r'
    simp only at hkept' hview' hfree hres' hkept₂ hplace₂ ⊢
    have hthere : v'.window.view s.fil.dirSect =
        storeEntry l s.fil.dirPtr s.fil.obj.sclust s.fil.obj.objsize tm
          (s.vol.window.view s.fil.dirSect) := by
      rw [hview' _ hdir.1, hview _ hdir.1, Function.update_self]
    have hsynced : Synced l chain content s { s with
        vol := v'
        fil := { s.fil with flag := s.fil.flag &&& ~~~faModified } } := by
      refine Synced.of_window h hdir hkept₂ ?_ (fun t ht hne => ?_) (fun i hi hout => ?_) ?_ rfl hfree rfl
        (has_and_not (by decide) _) (handle_unmarked _) (fun _ _ => ?_) rfl
      · rcases hplace₂ with heq | hout
        · rw [heq]
          exact hplace
        · exact Or.inr (Or.inl hout)
      · rw [hview' t ht, hview t ht, Function.update_of_ne hne]
      · rw [hthere]
        exact hother i hi hout
      · rw [protection, protection, hthere, hattr, archived_and]
      · simp only [EntryAt, hthere]
        exact ⟨hclust, hlen⟩
    rcases hres' with ⟨rfl, hclean⟩ | ⟨rfl, hfail⟩
    · exact ⟨fun hcon => absurd rfl hcon, fun _ => ⟨hsynced, has_and_not_self _ _, hclean,
        has_and_not (by decide) _⟩⟩
    · exact ⟨fun _ => ⟨trivial, hsynced, fun hgood => hfail (hkept.works hgood.works),
        has_and_not (by decide) _⟩, fun hcon => absurd (by decide) hcon⟩
  · refine ⟨fun _ => ⟨trivial, ?_, fun hgood => hfail hgood.works, trivial⟩,
      fun hcon => absurd (by decide) hcon⟩
    refine Synced.of_window h hdir hkept hplace (fun t ht _ => hview t ht) (fun i _ _ => ?_)
      (protection_congr (hview _ hdir.1) _) rfl rfl rfl rfl rfl (fun hentry hunmod => ?_) rfl
    · rw [hview _ hdir.1]
    · refine (hentry hunmod).congr rfl rfl rfl rfl fun i _ => ?_
      rw [hview _ hdir.1]

/-- **What `f_sync` does** behind its check: nothing, if the file has not been changed. Otherwise it
writes the buffer, the directory entry and the window, or reports an error. -/
theorem syncBody_spec (h : Core l s.vol.window chain content s.fil)
    (hdir : Foreign l (s.vol.table l) chain s.fil.dirSect) (hptr : s.fil.dirPtr + 32 ≤ 512)
    (tm : BitVec 32) :
    Ends (syncBody l tm) s (fun _ s' => Synced l chain content s s' ∧ s'.fil.modified = false ∧
        (s.fil.modified = true → s'.vol.window.wflag = false ∧ has s'.fil.flag faDirty = false) ∧
        (s.fil.modified = false → s' = s))
      (fun e s' => e = .diskErr ∧ Synced l chain content s s' ∧ ¬Good l s.vol ∧
        (has s'.fil.flag faDirty = true → s'.fil = s.fil)) := by
  simp only [syncBody, ends_bind, ends_get, ends_onlyIf]
  refine ⟨fun hmod => ?_, fun hmod => ?_⟩
  · refine (flush_held h.held).mono (fun _ s₁ hs₁ => ?_) fun e s' hfail => ?_
    · obtain ⟨hspares, hheld, htable, hfil, hmoved⟩ := hs₁
      have hsynced : Synced l chain content s s₁ :=
        Synced.of_held h hdir hspares hheld htable (by rw [hfil]) (by rw [hfil, handle_clean])
          (by rw [hfil, modified_clean]) hmoved
      have hdir₁ : Foreign l (s₁.vol.table l) chain s₁.fil.dirSect := by
        rw [htable, hfil]
        exact hdir
      have hclean : has s₁.fil.flag faDirty = false := by
        rw [hfil]
        exact has_and_not_self _ _
      refine (syncEntry_spec hsynced.core hdir₁ (by rw [hfil]; exact hptr) tm).mono
        (fun _ s' hs' => ⟨hsynced.trans hs'.1, hs'.2.1, fun _ => ⟨hs'.2.2.1, hs'.2.2.2.trans hclean⟩,
          fun hcon => absurd hmod (Bool.eq_false_iff.mp hcon)⟩)
        fun e s' hfail => ⟨hfail.1, hsynced.trans hfail.2.1, fun hgood => hfail.2.2.1 (hspares.good hgood),
          fun hd => absurd (hfail.2.2.2.symm.trans hd) (Bool.eq_false_iff.mp hclean)⟩
    · obtain ⟨he, htorn⟩ := hfail
      exact ⟨he, Synced.of_held h hdir htorn.spares htorn.held htorn.table (by rw [htorn.fil])
        (by rw [htorn.fil]) (by rw [htorn.fil]) htorn.moved, htorn.bad, fun _ => htorn.fil⟩
  · have hunmod : s.fil.modified = false := Bool.eq_false_iff.mpr hmod
    exact ⟨Synced.of_held h hdir (Spares.refl h.coherent) h.held rfl rfl rfl rfl rfl, hunmod,
      fun hcon => (by rw [hunmod] at hcon; cases hcon), fun _ => trivial⟩

end Sync

end Stream

end FatFs

end BareMetal
