import BareMetal.FatFs.Syncing

/-!
# Opening a file

`f_open` of a file that exists, from its directory entry on. What the volume holds of a closed file
(`BareMetal.FatFs.Rests`) becomes what the object holds (`BareMetal.FatFs.Core`). A file that is to be
overwritten is emptied first: its entry is cleared in the window, then its chain is removed, so that after an
error in between the file is empty and its clusters are lost, but no cluster is in two files. A file that is
opened to append is followed to its last cluster.
-/

namespace BareMetal

namespace FatFs

variable {δ : Type} [DiskIo δ]

/-! ### The code -/

/-- What `f_open` makes of the entry of a file that it overwrites. -/
def clearEntry (g : Geometry) (dir : ℕ) (tm : BitVec 32) (w : Sector) : Sector :=
  let w := stDword w (dir + 14) tm
  let w := poke w (dir + 11) amArc
  let w := stClust g w dir 0#32
  stDword w (dir + 28) 0#32

namespace Stream

/-- What `f_open` says to the mode and to the attributes of the entry that it has found. -/
def openRefusal (mode attr : BitVec 8) : Option FResult :=
  if has mode (faCreateAlways ||| faOpenAlways ||| faCreateNew) = true then
    if has attr (amRdo ||| amDir) = true then some .denied
    else if has mode faCreateNew = true then some .exist
    else none
  else if has attr amDir = true then some .noFile
  else if has mode faWrite = true ∧ has attr amRdo = true then some .denied
  else none

/-- The chain of a file that is overwritten is removed, and the window comes back to the entry. -/
def removeOld (g : Geometry) (cl dw : BitVec 32) : FileM δ Unit := do
  let res ← dropChain g cl 0#32
  failIf (res = .diskErr) .diskErr
  failIf (res ≠ .ok) .intErr
  let s ← get
  let r := moveWindow g s.vol.window dw
  set { s with vol := { s.vol with window := r.2, lastClst := cl - 1#32 } }
  failIf (r.1 ≠ .ok) .diskErr

/-- The file is overwritten: its entry, at an offset of the window, is cleared, and its chain removed. -/
def resetEntry (g : Geometry) (dir : ℕ) (tm : BitVec 32) : FileM δ Unit := do
  let s ← get
  let cl := ldClust g s.vol.window.win dir
  set { s with vol := { s.vol with window := { s.vol.window with
    win := clearEntry g dir tm s.vol.window.win
    wflag := true } } }
  onlyIf (cl ≠ 0#32) (removeOld g cl s.vol.window.winsect)

/-- An object that is filled from the entry in the window. -/
def filled (g : Geometry) (p : FsPtr) (id : BitVec 16) (dir : ℕ) (mode : BitVec 8) (w : Window δ)
    (f : OpenFil) : OpenFil :=
  { f with
    obj :=
      { fs := some p
        id := id
        sclust := ldClust g w.win dir
        objsize := ldDword w.win (dir + 28) }
    flag := mode
    err := .ok
    fptr := 0#32
    sect := 0#32
    buf := fun _ => 0#8
    dirSect := w.winsect
    dirPtr := dir }

/-- The loop of `f_open` along the chain, for at most so many clusters: what is left of the size. The
cluster is in the object. -/
def appendLoop (g : Geometry) : ℕ → ℕ → FileM δ ℕ
  | 0, ofs => pure ofs
  | fuel + 1, ofs =>
      if ofs > g.csize.toNat * 512 then do
        let s ← get
        let clst ← readFat g s.fil.clust
        modifyFil fun f => { f with clust := clst }
        failIf (clst ≤ 1#32) .intErr
        failIf (clst = 0xFFFFFFFF#32) .diskErr
        appendLoop g fuel (ofs - g.csize.toNat * 512)
      else pure ofs

/-- The last sector of the file is brought into the buffer. -/
def loadLast (g : Geometry) (ofs : ℕ) : FileM δ Unit := do
  let s ← get
  failIf (clst2sect g s.fil.clust = 0#32) .intErr
  modifyFil fun f => { f with sect := clst2sect g s.fil.clust + BitVec.ofNat 32 (ofs / 512) }
  load (clst2sect g s.fil.clust + BitVec.ofNat 32 (ofs / 512))

/-- `FA_OPEN_APPEND`: the file is opened at its end. -/
def seekEnd (g : Geometry) : FileM δ Unit := do
  let s ← get
  onlyIf (has s.fil.flag faSeekend = true ∧ s.fil.obj.objsize > 0#32) (do
    modifyFil fun f => { f with fptr := f.obj.objsize, clust := f.obj.sclust }
    let ofs ← appendLoop g (s.fil.obj.objsize.toNat / (g.csize.toNat * 512)) s.fil.obj.objsize.toNat
    onlyIf (ofs % 512 ≠ 0) (loadLast g ofs))

/-- `f_open`, once the entry of the file has been found and is in the window. -/
def openBody (g : Geometry) (p : FsPtr) (id : BitVec 16) (dir : ℕ) (mode : BitVec 8) (tm : BitVec 32) :
    FileM δ Unit := do
  onlyIf (has mode faCreateAlways = true) (resetEntry g dir tm)
  let mode := if has mode faCreateAlways = true then mode ||| faModified else mode
  modify fun s => { s with fil := filled g p id dir mode s.vol.window s.fil }
  seekEnd g

/-- `f_open` of a file that exists, on a volume that is mounted. The path only leads to the sector and
the offset of its entry: following it looks at directories, and ends with the window over the sector. -/
def fOpen (vols : Volumes) (p : FsPtr) (g : Geometry) (v : Vol δ) (f : OpenFil) (sect : BitVec 32)
    (dir : ℕ) (mode : BitVec 8) (tm : BitVec 32) : FResult × (Vol δ × OpenFil) :=
  match moveWindow g v.window sect with
  | (.ok, w) =>
      match openRefusal (mode &&& openMask) (peek w.win (dir + 11)) with
      | some res => (res, { v with window := w }, { f with obj := { f.obj with fs := none } })
      | none =>
          match (openBody g p (vols.fatfs p).id dir (mode &&& openMask) tm).from
              ⟨{ v with window := w }, f, []⟩ with
          | (.ok _, s) => (.ok, s.vol, s.fil)
          | (.error e, s) =>
              (e.toFResult, s.vol, { s.fil with obj := { s.fil.obj with fs := none } })
  | (res, w) => (res, { v with window := w }, { f with obj := { f.obj with fs := none } })

end Stream

/-! ### A file that is closed -/

/-- **What the volume holds of a file**: its entry says where it begins and how long it is, its chain has
room for that, and the bytes that have been set are in its sectors. -/
structure Rests (l : Layout) (w : Window δ) (chain : List (BitVec 32)) (content : Content)
    (size sect : BitVec 32) (ptr : ℕ) : Prop where
  linked : ∀ a ∈ chain.head?, Linked (fatEntry l w.view) l.Cluster l.End a chain
  start : ldClust l (w.view sect) ptr = chain.head?.getD 0#32
  length : ldDword (w.view sect) (ptr + 28) = size
  room : size.toNat ≤ 512 * sectorCount l chain
  data : ∀ p < 512 * sectorCount l chain, ∀ b, content p = some b →
    peek (w.view (sectorOf l chain (p / 512))) p = b

section Rests

variable {l : Layout} {w w' : Window δ} {chain : List (BitVec 32)} {content : Content} {size sect : BitVec 32}
  {ptr : ℕ} {f : OpenFil}

theorem ldEntry_congr {σ σ' : Sector} (hbytes : ∀ i < 32, peek σ' (ptr + i) = peek σ (ptr + i)) :
    ldClust l σ' ptr = ldClust l σ ptr ∧ ldDword σ' (ptr + 28) = ldDword σ (ptr + 28) := by
  have hword : ∀ o j, o + j < 32 → peek σ' (ptr + o + j) = peek σ (ptr + o + j) := by
    intro o j hoj
    rw [Nat.add_assoc]
    exact hbytes (o + j) hoj
  exact ⟨ldClust_congr fun j hj => ⟨hword 26 j (by omega), hword 20 j (by omega)⟩,
    ldDword_congr fun j hj => hword 28 j (by omega)⟩

/-- The chain, the sectors and the entry of the file stay. -/
theorem Rests.of_window (h : Rests l w chain content size sect ptr)
    (hentries : ∀ c ∈ chain, fatEntry l w'.view c = fatEntry l w.view c)
    (hviews : ∀ k < sectorCount l chain, w'.view (sectorOf l chain k) = w.view (sectorOf l chain k))
    (hbytes : ∀ i < 32, peek (w'.view sect) (ptr + i) = peek (w.view sect) (ptr + i)) :
    Rests l w' chain content size sect ptr := by
  obtain ⟨hclust, hlen⟩ := ldEntry_congr (l := l) hbytes
  refine ⟨fun a ha => (h.linked a ha).congr hentries, hclust.trans h.start, hlen.trans h.length, h.room,
    fun p hp b hb => ?_⟩
  rw [hviews _ (by omega)]
  exact h.data p hp b hb

theorem Rests.of_sameView (h : Rests l w chain content size sect ptr) (hsect : l.Tracked sect)
    (hsame : SameView l w w') : Rests l w' chain content size sect ptr :=
  h.of_window (fun c _ => hsame.fatEntry l c)
    (fun _ hk => hsame _ (tracked_of_inData l (inData_sectorOf (linked_nodes h.linked) hk)))
    fun _ _ => by rw [hsame _ hsect]

theorem Rests.empty {w : Window δ} (hstart : ldClust l (w.view sect) ptr = 0#32)
    (hlen : ldDword (w.view sect) (ptr + 28) = 0#32) : Rests l w [] (fun _ => none) 0#32 sect ptr :=
  ⟨fun a ha => by simp at ha, hstart, hlen, Nat.zero_le _, fun _ _ _ hb => by cases hb⟩

/-- **A file that has been written back rests on the volume.** -/
theorem Core.rests (h : Core l w chain content f) (hclean : has f.flag faDirty = false)
    (hentry : EntryAt l w.view f) : Rests l w chain content f.obj.objsize f.dirSect f.dirPtr :=
  ⟨h.linked, hentry.1.trans h.start, hentry.2, h.size, fun p hp b hb =>
    (h.data p hp b hb).2 fun hcon => by rw [hclean] at hcon; cases hcon.1⟩

/-- **A file that rests can be opened**: an object that is filled from the entry, with an empty buffer,
holds what the volume holds. -/
theorem Rests.core (h : Rests l w chain content size sect ptr) (hcoh : w.Coherent l)
    (hapart : ∀ k < sectorCount l chain, w.winsect ≠ sectorOf l chain k)
    (hstart : f.obj.sclust = ldClust l (w.view sect) ptr)
    (hsize : f.obj.objsize = ldDword (w.view sect) (ptr + 28)) (hclean : has f.flag faDirty = false)
    (hsect : f.sect = 0#32) : Core l w chain content f where
  coherent := hcoh
  start := hstart.trans h.start
  linked := h.linked
  size := by
    rw [hsize, h.length]
    exact h.room
  dirty hd := by
    rw [hclean] at hd
    cases hd
  apart := hapart
  data p hp b hb := by
    refine ⟨fun heq => ?_, fun _ => h.data p hp b hb⟩
    -- sector 0 is before the clusters
    have hdata := inData_sectorOf (linked_nodes h.linked) (show p / 512 < sectorCount l chain by omega)
    rw [← heq, hsect] at hdata
    have hle := BitVec.le_def.mp hdata.1
    have htable := table_le l
    have hreserved := l.reserved
    rw [BitVec.toNat_zero] at hle
    omega

end Rests

/-! ### Overwriting -/

/-- **What `f_open` makes of an entry loads as an empty file**, and the other entries of the sector
stay. -/
theorem clearEntry_spec {g : Geometry} {dir : ℕ} (w : Sector) (hdir : dir + 32 ≤ 512) (tm : BitVec 32) :
    ldClust g (clearEntry g dir tm w) dir = 0#32 ∧ ldDword (clearEntry g dir tm w) (dir + 28) = 0#32 ∧
      peek (clearEntry g dir tm w) (dir + 11) = amArc ∧
      ∀ i < 512, i < dir ∨ dir + 32 ≤ i → peek (clearEntry g dir tm w) i = peek w i := by
  unfold clearEntry
  refine ⟨?_, ldDword_stDword _ (by omega) _, ?_, fun i hi hout => ?_⟩
  · rw [ldClust_congr fun j hj => ⟨peek_stDword_of_ne _ (by omega) (by omega) (by omega) _,
      peek_stDword_of_ne _ (by omega) (by omega) (by omega) _⟩]
    exact ldClust_stClust _ hdir fun _ => by decide
  · rw [peek_stDword_of_ne _ (by omega) (by omega) (by omega),
      peek_stClust_of_ne _ (by omega) hdir (by omega), peek_poke_self]
  · rw [peek_stDword_of_ne _ hi (by omega) (by omega), peek_stClust_of_ne _ hi hdir (by omega),
      peek_poke_of_lt _ hi (by omega) (by omega), peek_stDword_of_ne _ hi (by omega) (by omega)]

namespace Stream

/-- The entry has been cleared: an empty file rests on the volume. -/
structure Cleared (l : Layout) (chain : List (BitVec 32)) (sect : BitVec 32) (ptr : ℕ) (s s' : FileState δ) :
    Prop where
  around : Around l chain sect ptr s.vol s'.vol
  rests : Rests l s'.vol.window [] (fun _ => none) 0#32 sect ptr
  fil : s'.fil = s.fil
  moved : s'.moved = s.moved

section Opening

variable {l : Layout} {chain : List (BitVec 32)} {content : Content} {size sect : BitVec 32} {ptr : ℕ}
  {s s' : FileState δ}

/-- The entry is cleared in the window. -/
theorem cleared_window (hwin : s.vol.window.winsect = sect) (hdir : Foreign l (s.vol.table l) chain sect)
    (hptr : ptr + 32 ≤ 512) (hplain : protection s.vol.window sect ptr = 0#8) (tm : BitVec 32) {v₁ : Vol δ}
    (hv₁ : v₁ = { s.vol with window := { s.vol.window with
      win := clearEntry l ptr tm s.vol.window.win
      wflag := true } }) :
    Cleared l chain sect ptr s { s with vol := v₁ } ∧ v₁.table l = s.vol.table l := by
  obtain ⟨hclust, hlen, hattr, hother⟩ := clearEntry_spec (g := l.toGeometry) s.vol.window.win hptr tm
  have hview : v₁.window.view =
      Function.update s.vol.window.view sect (clearEntry l ptr tm s.vol.window.win) := by
    rw [hv₁, ← hwin]
    exact (Function.update_idem ..).symm
  have hthere : v₁.window.view sect = clearEntry l ptr tm s.vol.window.win := by
    rw [hview, Function.update_self]
  have hkept : Kept l s.vol.window v₁.window := by
    rw [hv₁]
    exact ⟨⟨fun _ => hwin ▸ hdir.1, fun hfalse => by cases hfalse⟩, id⟩
  have hplain₁ : protection v₁.window sect ptr = protection s.vol.window sect ptr := by
    rw [hplain, protection, hthere, hattr]
    rfl
  obtain ⟨htable, haround⟩ := Around.of_window chain hdir.2.1 hkept (Or.inl (by rw [hv₁]))
    (fun t _ hne => by rw [hview, Function.update_of_ne hne])
    (fun i hi hout => by rw [hthere, hother i hi hout, ← hwin, view_winsect]) hplain₁ (by rw [hv₁])
  exact ⟨⟨haround, .empty (hthere ▸ hclust) (hthere ▸ hlen), rfl, rfl⟩, htable⟩

/-- **The old chain is removed**, or the disk fails. -/
theorem removeOld_spec {a : BitVec 32} {rest : List (BitVec 32)} (hcoh : s.vol.window.Coherent l)
    (hchain : Linked (s.vol.table l) l.Cluster l.End a (a :: rest))
    (hdir : Foreign l (s.vol.table l) (a :: rest) sect) (ptr : ℕ) :
    Ends (removeOld l a sect) s (fun _ s' => Around l (a :: rest) sect ptr s.vol s'.vol ∧
        s'.vol.window.view sect = s.vol.window.view sect ∧ s'.fil = s.fil ∧ s'.moved = s.moved ∧
        s'.vol.window.winsect = sect ∧ Accounts l (s.vol.table l) (s'.vol.table l) (a :: rest) [])
      (fun e s' => (Around l (a :: rest) sect ptr s.vol s'.vol ∧
        s'.vol.window.view sect = s.vol.window.view sect ∧ s'.fil = s.fil ∧ s'.moved = s.moved) ∧
        ¬Good l s.vol ∧ e ≠ .ok) := by
  have hwhole : Linked (s.vol.table l) l.Cluster l.End a ([] ++ a :: rest) := hchain
  have hspares := Spares.remove hcoh hwhole
  obtain ⟨hkept, -, hothers, hres⟩ := removeChain_cut hcoh hwhole
  simp only [removeOld, dropChain, ends_bind, ends_get, ends_set, ends_pure, ends_failIf]
  rw [show (List.getLast? ([] : List (BitVec 32))).getD 0#32 = 0#32 from rfl] at hspares hkept hothers hres
  generalize removeChain l.toGeometry s.vol a 0#32 = r at hspares hkept hothers hres
  obtain ⟨res, v₁⟩ := r
  simp only [List.nil_append] at hspares hkept hothers hres ⊢
  have haround₁ := hspares.around hdir ptr
  have hview₁ := hspares.sectors sect hdir
  rcases hres with ⟨rfl, -, hfreed, -⟩ | ⟨rfl, hfail⟩
  · refine ⟨fun hcon => (by cases hcon), fun _ => ⟨fun hcon => absurd rfl hcon, fun _ => ?_⟩⟩
    obtain ⟨hkept₂, hview₂, hres₂⟩ := moveWindow_spec hkept.coherent sect
    have hplace₂ := moveWindow_winsect l.toGeometry v₁.window sect
    generalize moveWindow l.toGeometry v₁.window sect = r at hkept₂ hview₂ hres₂ hplace₂
    obtain ⟨res₂, w₂⟩ := r
    simp only at hkept₂ hview₂ hres₂ hplace₂ ⊢
    have hdir₁ : Foreign l (v₁.table l) (a :: rest) sect := hdir.of_spares hspares (Grows.refl _ _)
    have hmoved : _ ∧ Around l [] sect ptr v₁ { v₁ with window := w₂, lastClst := a - 1#32 } :=
      Around.of_move [] ptr hdir₁ hkept₂ hplace₂ hview₂ rfl
    obtain ⟨htable₂, haround₂⟩ := hmoved
    have haround := haround₁.trans haround₂ fun c hc => by simp at hc
    have hview : w₂.view sect = s.vol.window.view sect := (hview₂ _ hdir.1).trans hview₁
    rcases hres₂ with ⟨rfl, hwin⟩ | ⟨rfl, hfail⟩
    · refine ⟨fun hcon => absurd rfl hcon, fun _ =>
        ⟨haround, hview, trivial, trivial, hwin, fun c hc _ => ?_⟩⟩
      rw [htable₂]
      by_cases hmem : c ∈ a :: rest
      · simp [hfreed c hmem, hmem]
      · rw [hothers c hc hmem]
        exact ⟨fun hused => ⟨hused, hmem⟩, fun hused => hused.1⟩
    · exact ⟨fun _ => ⟨⟨haround, hview, trivial, trivial⟩, fun hgood => hfail (hkept.works hgood.works),
        by decide⟩, fun hcon => absurd (by decide) hcon⟩
  · exact ⟨fun _ => ⟨⟨haround₁, hview₁, trivial, trivial⟩, fun hgood => hfail hgood.works, by decide⟩,
      fun hcon => absurd rfl hcon⟩

/-- **A file is overwritten**: whether or not its chain could be removed, it is empty. -/
theorem resetEntry_spec (h : Rests l s.vol.window chain content size sect ptr)
    (hwin : s.vol.window.winsect = sect) (hdir : Foreign l (s.vol.table l) chain sect)
    (hptr : ptr + 32 ≤ 512) (hplain : protection s.vol.window sect ptr = 0#8) (tm : BitVec 32) :
    Ends (resetEntry l ptr tm) s (fun _ s' => Cleared l chain sect ptr s s' ∧
        s'.vol.window.winsect = sect ∧ Accounts l (s.vol.table l) (s'.vol.table l) chain [])
      (fun e s' => Cleared l chain sect ptr s s' ∧ ¬Good l s.vol ∧ e ≠ .ok) := by
  have hcl : ldClust l s.vol.window.win ptr = chain.head?.getD 0#32 := by
    rw [← h.start, ← hwin, view_winsect]
  simp only [resetEntry, ends_bind, ends_get, ends_set, ends_onlyIf]
  rw [hcl]
  generalize hv₁ : ({ s.vol with window := { s.vol.window with
    win := clearEntry l.toGeometry ptr tm s.vol.window.win
    wflag := true } } : Vol δ) = v₁
  obtain ⟨hcleared, htable⟩ := cleared_window hwin hdir hptr hplain tm hv₁.symm
  rw [hwin]
  cases hchain : chain with
  | nil =>
    subst hchain
    exact ⟨fun hcon => absurd rfl hcon, fun _ => ⟨hcleared, rfl, Accounts.of_eq htable⟩⟩
  | cons a rest =>
    subst hchain
    have hlinked : Linked (v₁.table l) l.Cluster l.End a (a :: rest) := htable ▸ h.linked a rfl
    have hdir₁ : Foreign l (v₁.table l) (a :: rest) sect := htable ▸ hdir
    have hcoh₁ : v₁.window.Coherent l := hcleared.around.kept.coherent
    -- what is left of the file is what is in the window
    have hafter : ∀ s', Around l (a :: rest) sect ptr v₁ s'.vol ∧
        s'.vol.window.view sect = v₁.window.view sect ∧ s'.fil = s.fil ∧ s'.moved = s.moved →
        Cleared l (a :: rest) sect ptr s s' := fun s' hs' =>
      ⟨hcleared.around.trans hs'.1 (Grows.refl _ _), .empty (hs'.2.1 ▸ hcleared.rests.start)
        (hs'.2.1 ▸ hcleared.rests.length), hs'.2.2.1, hs'.2.2.2⟩
    refine ⟨fun _ => ?_, fun hcon => absurd ?_ hcon⟩
    · refine (removeOld_spec (s := { s with vol := v₁ }) hcoh₁ hlinked hdir₁ ptr).mono
        (fun _ s' hs' => ?_) fun e s' hs' => ?_
      · exact ⟨hafter s' ⟨hs'.1, hs'.2.1, hs'.2.2.1, hs'.2.2.2.1⟩, hs'.2.2.2.2.1, htable ▸ hs'.2.2.2.2.2⟩
      · exact ⟨hafter s' hs'.1, fun hgood => hs'.2.1 (hcleared.around.good hgood), hs'.2.2⟩
    · exact ne_of_next (Or.inl (hlinked.nodes a List.mem_cons_self)) (by decide)

/-! ### The end of the file -/

/-- **The loop of `f_open`** ends in the cluster of the last byte. -/
theorem appendLoop_spec {fuel i ofs n : ℕ} (hcoh : s.vol.window.Coherent l)
    (hlinked : ∀ a ∈ chain.head?, Linked (s.vol.table l) l.Cluster l.End a chain)
    (hi : i < chain.length) (hclust : s.fil.clust = chain.getD i 0#32)
    (hrest : i * (l.csize.toNat * 512) + ofs = n) (hpos : 0 < ofs)
    (hroom : n ≤ 512 * sectorCount l chain) (hfuel : ofs ≤ (fuel + 1) * (l.csize.toNat * 512)) :
    Ends (appendLoop l fuel ofs) s (fun r s' => Looked l s.vol s'.vol ∧ s'.moved = s.moved ∧
        ∃ j < chain.length, s'.fil = { s.fil with clust := chain.getD j 0#32 } ∧
          j * (l.csize.toNat * 512) + r = n ∧ 0 < r ∧ r ≤ l.csize.toNat * 512)
      (fun e s' => Looked l s.vol s'.vol ∧ ¬Good l s.vol ∧ e ≠ .ok) := by
  induction fuel generalizing s i ofs with
  | zero => exact ⟨Looked.refl hcoh, rfl, i, hi, by rw [← hclust], hrest, hpos, by omega⟩
  | succ fuel ih =>
    rw [appendLoop]
    split
    · rename_i hmore
      have hstep : (i + 1) * (l.csize.toNat * 512) + (ofs - l.csize.toNat * 512) = n := by
        rw [Nat.add_mul, Nat.one_mul]
        omega
      -- the chain goes on, since it has room for the file
      have hnext : i + 1 < chain.length := by
        rw [mul_sectorCount] at hroom
        exact Nat.lt_of_mul_lt_mul_right (show (i + 1) * (l.csize.toNat * 512) <
          chain.length * (l.csize.toNat * 512) by omega)
      obtain ⟨a, ha⟩ : ∃ a, a ∈ chain.head? :=
        ⟨_, List.head?_eq_some_head (List.ne_nil_of_length_pos (Nat.zero_lt_of_lt hi))⟩
      have hnodes := linked_nodes hlinked
      have hc : l.Cluster chain[i + 1] := hnodes _ (List.getElem_mem hnext)
      have hfollow : s.vol.table l s.fil.clust = chain[i + 1] := by
        rw [hclust, List.getD_eq_getElem _ _ hi]
        exact (hlinked a ha).next_getElem hnext
      have hclst : l.Cluster s.fil.clust := by
        rw [hclust, List.getD_eq_getElem _ _ hi]
        exact hnodes _ (List.getElem_mem hi)
      simp only [ends_bind, ends_get, modifyFil, ends_modify, ends_failIf]
      refine (readFat_looked hcoh hclst).mono (fun r s₁ hs₁ => ?_)
        fun e s' (hfail : Looked l s.vol s'.vol ∧ ¬Good l s.vol ∧ e ≠ .ok) => hfail
      obtain ⟨hlooked, hfil, hmoved, hres⟩ := hs₁
      rcases hres with heq | ⟨rfl, hbad⟩
      · have hr : r = chain[i + 1] := heq.trans hfollow
        rw [← hr] at hc
        obtain ⟨hzero, hone, herr⟩ := not_mem_marks hc
        refine ⟨fun hcon => absurd hc.1 (BitVec.not_le.mpr ?_), fun _ =>
          ⟨fun hcon => absurd hcon herr, fun _ => ?_⟩⟩
        · rw [BitVec.le_def] at hcon
          rw [BitVec.lt_def]
          exact Nat.lt_succ_of_le hcon
        have hrec := ih (s := { s₁ with fil := { s₁.fil with clust := r } }) (i := i + 1)
          hlooked.kept.coherent
          (fun a ha => (hlinked a ha).congr fun c _ => hlooked.view.fatEntry l c) hnext
          (by rw [List.getD_eq_getElem _ _ hnext]; exact hr) hstep (by omega)
          (by rw [Nat.add_mul, Nat.one_mul] at hfuel; omega)
        refine hrec.mono (fun r' s' hs' => ?_) fun e s' hs' => ?_
        · obtain ⟨hlooked', hmoved', j, hj, hfil', hend⟩ := hs'
          refine ⟨hlooked.trans hlooked', hmoved'.trans hmoved, j, hj, ?_, hend⟩
          rw [hfil', hfil]
        · exact ⟨hlooked.trans hs'.1, fun hgood => hs'.2.1 (hlooked.good hgood), hs'.2.2⟩
      · exact ⟨fun hcon => absurd hcon (by decide), fun _ =>
          ⟨fun _ => ⟨hlooked, hbad, by decide⟩, fun hcon => absurd rfl hcon⟩⟩
    · rename_i hle
      exact ⟨Looked.refl hcoh, rfl, i, hi, by rw [← hclust], hrest, hpos, Nat.le_of_not_lt hle⟩

/-- What opening a file at its end, or at its beginning, does. -/
structure AtEnd (l : Layout) (chain : List (BitVec 32)) (content : Content) (s s' : FileState δ) :
    Prop where
  looked : Looked l s.vol s'.vol
  core : Core l s'.vol.window chain content s'.fil
  positioned : Positioned l chain s'.fil
  obj : s'.fil.obj = s.fil.obj
  flag : s'.fil.flag = s.fil.flag
  handle : s'.fil.handle = s.fil.handle
  fptr : s'.fil.fptr = if has s.fil.flag faSeekend = true then s.fil.obj.objsize else 0#32

/-- The last sector is loaded if the end of the file is inside it. -/
theorem loadLast_spec {j ofs : ℕ} (h : Core l s.vol.window chain content s.fil)
    (hclean : has s.fil.flag faDirty = false) (hend : s.fil.fptr = s.fil.obj.objsize)
    (hj : j < chain.length) (hclust : s.fil.clust = chain.getD j 0#32)
    (hrest : j * (l.csize.toNat * 512) + ofs = s.fil.obj.objsize.toNat) (hpos : 0 < ofs)
    (hle : ofs ≤ l.csize.toNat * 512) :
    Ends (onlyIf (ofs % 512 ≠ 0) (loadLast l ofs)) s (fun _ s' => Looked l s.vol s'.vol ∧
        Core l s'.vol.window chain content s'.fil ∧ Positioned l chain s'.fil ∧
        s'.fil.toFil = s.fil.toFil ∧ s'.fil.dirSect = s.fil.dirSect ∧ s'.fil.dirPtr = s.fil.dirPtr)
      (fun e s' => Looked l s.vol s'.vol ∧ ¬Good l s.vol ∧ e ≠ .ok) := by
  have hmod : s.fil.fptr.toNat % 512 = ofs % 512 := by
    rw [hend, ← hrest, ← Nat.mul_assoc, Nat.mul_add_mod_self_right]
  have hcluster : s.fil.clust = chain.getD ((s.fil.fptr.toNat - 1) / 512 / l.csize.toNat) 0#32 := by
    rw [hend, ← hrest, div_offset hpos hle, hclust]
  rw [ends_onlyIf]
  refine ⟨fun hinside => ?_, fun hout => ⟨Looked.refl h.coherent, h, ⟨hend ▸ Nat.le_refl _, fun _ => hcluster,
    fun hcon => absurd (hmod ▸ hcon) hout⟩, rfl, rfl, rfl⟩⟩
  have hsize := h.size
  have hlt : s.fil.fptr.toNat / 512 < sectorCount l chain := by
    rw [← hmod] at hinside
    rw [← hend] at hsize
    omega
  have hsect : clst2sect l s.fil.clust + BitVec.ofNat 32 (ofs / 512) =
      sectorOf l chain (s.fil.fptr.toNat / 512) := by
    rw [hend, ← hrest, sectorOf_offset chain hinside hle, hclust]
  have hc : l.Cluster s.fil.clust := by
    rw [hclust, List.getD_eq_getElem _ _ hj]
    exact h.nodes _ (List.getElem_mem hj)
  simp only [loadLast, modifyFil, ends_bind, ends_get, ends_failIf, ends_modify]
  refine ⟨fun hcon => absurd hcon (clst2sect_ne_zero hc), fun _ => ?_⟩
  rw [hsect]
  refine (load_looked (s := { s with
    fil := { s.fil with sect := sectorOf l chain (s.fil.fptr.toNat / 512) } }) h.coherent
    (h.apart _ hlt) (inData_sectorOf h.nodes hlt).2).mono (fun _ s' hs' => ?_) fun e s' hs' => ?_
  · obtain ⟨d, hd, rfl⟩ := hs'
    exact ⟨⟨tableKept_read h.coherent hd, fun _ _ => by rw [view_read hd], rfl⟩, h.loaded hclean _ hd,
      ⟨hend ▸ Nat.le_refl _, fun _ => hcluster, fun _ => rfl⟩, rfl, rfl, rfl⟩
  · obtain ⟨rfl, hlooked, hbad, -⟩ := hs'
    exact ⟨hlooked, hbad, by decide⟩

/-- **A file is opened at its end if that is asked for**, or the disk fails. -/
theorem seekEnd_spec (h : Core l s.vol.window chain content s.fil)
    (hclean : has s.fil.flag faDirty = false) (hzero : s.fil.fptr = 0#32) :
    Ends (seekEnd l) s (fun _ s' => AtEnd l chain content s s')
      (fun e s' => Looked l s.vol s'.vol ∧ ¬Good l s.vol ∧ e ≠ .ok) := by
  simp only [seekEnd, ends_bind, ends_get, ends_onlyIf, modifyFil, ends_modify]
  refine ⟨fun hcond => ?_, fun hcond => ⟨Looked.refl h.coherent, h, ⟨?_, ?_, ?_⟩, rfl, rfl, rfl, ?_⟩⟩
  · obtain ⟨hseek, hsize⟩ := hcond
    have hn : 0 < s.fil.obj.objsize.toNat := BitVec.lt_def.mp hsize
    have hroom := h.size
    have hlen : 0 < chain.length := by
      rw [mul_sectorCount] at hroom
      exact Nat.pos_of_ne_zero fun hcon => by rw [hcon, Nat.zero_mul] at hroom; omega
    have hfirst : s.fil.obj.sclust = chain.getD 0 0#32 := by
      rw [h.start]
      cases chain <;> rfl
    have hbytes : 0 < l.csize.toNat * 512 := Nat.mul_pos (csize_pos l) (by decide)
    refine (appendLoop_spec (i := 0) (s := { s with
      fil := { s.fil with fptr := s.fil.obj.objsize, clust := s.fil.obj.sclust } }) h.coherent h.linked hlen
      hfirst (by omega) hn hroom ?_).mono (fun ofs s₁ hs₁ => ?_) fun e s' hs' => hs'
    · have hdiv := Nat.lt_div_mul_add (a := s.fil.obj.objsize.toNat) hbytes
      rw [Nat.add_mul, Nat.one_mul]
      omega
    · obtain ⟨hlooked, hmoved, j, hj, hfil, hrest, hpos, hle⟩ := hs₁
      have hcore : Core l s₁.vol.window chain content s₁.fil := by
        rw [hfil]
        exact (h.of_sameView hlooked.kept hlooked.view).of_fil rfl rfl rfl rfl rfl
      rw [← ends_onlyIf]
      refine (loadLast_spec (j := j) hcore (by rw [hfil]; exact hclean) (by rw [hfil]) hj (by rw [hfil])
        (by rw [hfil]; exact hrest) hpos hle).mono (fun _ s' hs' => ?_) fun e s' hs' => ?_
      · obtain ⟨hlooked', hcore', hpos', htoFil, hsect, hptr⟩ := hs'
        have hto : s'.fil.toFil = { s.fil.toFil with fptr := s.fil.obj.objsize } := by
          rw [htoFil, hfil]
        refine ⟨hlooked.trans hlooked', hcore', hpos', by rw [hto], by rw [hto], ?_, ?_⟩
        · rw [OpenFil.handle, hto, hsect, hptr, hfil]
          rfl
        · rw [hto, if_pos hseek]
      · exact ⟨hlooked.trans hs'.1, fun hgood => hs'.2.1 (hlooked.good hgood), hs'.2.2⟩
  · rw [hzero]
    exact Nat.zero_le _
  · rw [hzero]
    exact fun hcon => absurd hcon (by decide)
  · rw [hzero]
    exact fun hcon => absurd rfl hcon
  · rw [hzero]
    split
    · rename_i hseek
      have hempty : ¬s.fil.obj.objsize > 0#32 := fun hsize => hcond ⟨hseek, hsize⟩
      rw [gt_iff_lt, BitVec.lt_def] at hempty
      exact BitVec.eq_of_toNat_eq (by rw [BitVec.toNat_zero] at hempty ⊢; omega)
    · rfl

/-! ### The whole -/

/-- **What opening a file does**: the object holds what the volume holds of the file, and is at its
beginning or at its end. -/
structure Begun (l : Layout) (chain chain' : List (BitVec 32)) (content : Content) (size : BitVec 32)
    (atEnd : Bool) (o : Handle) (s s' : FileState δ) : Prop where
  grows : Grows (s.vol.table l) chain chain'
  accounts : Accounts l (s.vol.table l) (s'.vol.table l) chain chain'
  around : Around l chain o.dirSect o.dirPtr s.vol s'.vol
  core : Core l s'.vol.window chain' content s'.fil
  positioned : Positioned l chain' s'.fil
  objsize : s'.fil.obj.objsize = size
  fptr : s'.fil.fptr = if atEnd = true then size else 0#32
  handle : s'.fil.handle = o
  entry : EntryAt l s'.vol.window.view s'.fil
  clean : has s'.fil.flag faDirty = false

/-- What a failure to open a file leaves of it. -/
structure Unopened (l : Layout) (chain chain' : List (BitVec 32)) (content : Content) (size sect : BitVec 32)
    (ptr : ℕ) (v v' : Vol δ) : Prop where
  grows : Grows (v.table l) chain chain'
  around : Around l chain sect ptr v v'
  rests : Rests l v'.window chain' content size sect ptr

/-- The object is filled from the entry in the window. -/
theorem filled_spec (hcoh : s.vol.window.Coherent l)
    (h : Rests l s.vol.window chain content size sect ptr) (hwin : s.vol.window.winsect = sect)
    (hdir : Foreign l (s.vol.table l) chain sect) (p : FsPtr) (id : BitVec 16) {mode : BitVec 8}
    (hclean : has mode faDirty = false) :
    Ends (do
        modify fun s => { s with fil := filled l p id ptr mode s.vol.window s.fil }
        seekEnd l) s
      (fun _ s' => Begun l chain chain content size (has mode faSeekend)
        ⟨some p, id, .ok, has mode faRead, has mode faWrite, sect, ptr⟩ s s')
      (fun e s' => Unopened l chain chain content size sect ptr s.vol s'.vol ∧ ¬Good l s.vol ∧ e ≠ .ok) := by
  have hthere : s.vol.window.win = s.vol.window.view sect := by rw [← hwin, view_winsect]
  have hcore : Core l s.vol.window chain content (filled l p id ptr mode s.vol.window s.fil) := by
    refine h.core hcoh (fun k hk => ?_) (by rw [← hthere]; rfl) (by rw [← hthere]; rfl) hclean rfl
    rw [hwin]
    exact ne_sectorOf_of_foreign hdir (linked_nodes h.linked) hk
  have hsize : (filled l p id ptr mode s.vol.window s.fil).obj.objsize = size := by
    rw [← h.length, ← hthere]
    rfl
  rw [ends_bind, ends_modify]
  refine (seekEnd_spec (s := { s with fil := filled l p id ptr mode s.vol.window s.fil }) hcore hclean
    rfl).mono (fun _ s' hs' => ?_) fun e s' hs' => ?_
  · have hhandle : s'.fil.handle = ⟨some p, id, .ok, has mode faRead, has mode faWrite, sect, ptr⟩ := by
      rw [hs'.handle, ← hwin]
      rfl
    refine ⟨Grows.refl _ _, Accounts.of_eq (funext (hs'.looked.view.fatEntry l)),
      hs'.looked.spares.around hdir ptr, hs'.core, hs'.positioned, ?_, ?_, hhandle, ⟨?_, ?_⟩, ?_⟩
    · rw [hs'.obj]
      exact hsize
    · rw [hs'.fptr, ← hsize]
      rfl
    · rw [show s'.fil.dirSect = sect from congrArg Handle.dirSect hhandle,
        show s'.fil.dirPtr = ptr from congrArg Handle.dirPtr hhandle, hs'.looked.view _ hdir.1, hs'.obj,
        ← hthere]
      rfl
    · rw [show s'.fil.dirSect = sect from congrArg Handle.dirSect hhandle,
        show s'.fil.dirPtr = ptr from congrArg Handle.dirPtr hhandle, hs'.looked.view _ hdir.1, hs'.obj,
        ← hthere]
      rfl
    · rw [hs'.flag]
      exact hclean
  · obtain ⟨hlooked, hbad, hne⟩ := hs'
    exact ⟨⟨Grows.refl _ _, hlooked.spares.around hdir ptr, h.of_sameView hdir.1 hlooked.view⟩, hbad, hne⟩

/-- What is left of a file when it is opened: nothing, if it is to be overwritten. -/
def opensTo {α : Type} (mode : BitVec 8) (none x : α) : α :=
  if has mode faCreateAlways = true then none else x

/-- What `f_open` says depends on the protection of the entry only. -/
theorem openRefusal_and (mode attr : BitVec 8) :
    openRefusal mode (attr &&& (amRdo ||| amDir)) = openRefusal mode attr := by
  have hmask : ∀ k, (amRdo ||| amDir) &&& k = k → has (attr &&& (amRdo ||| amDir)) k = has attr k :=
    fun k hk => has_and_of_le hk attr
  rw [openRefusal, openRefusal, hmask _ (by decide), hmask _ (by decide), hmask _ (by decide)]

/-- A file that `f_open` overwrites is not protected. -/
theorem eq_zero_of_openRefusal {mode attr : BitVec 8} (h : openRefusal mode attr = none)
    (hcreate : has mode faCreateAlways = true) : attr &&& (amRdo ||| amDir) = 0#8 := by
  have hany : ∀ m : BitVec 8, has m faCreateAlways = true →
      has m (faCreateAlways ||| faOpenAlways ||| faCreateNew) = true := by decide
  rw [openRefusal, if_pos (hany mode hcreate)] at h
  by_contra hne
  rw [if_pos (by simpa [has] using hne)] at h
  cases h

/-- **What `f_open` does** once it has found the entry: the file is opened, or the disk fails. -/
theorem openBody_spec (hcoh : s.vol.window.Coherent l)
    (h : Rests l s.vol.window chain content size sect ptr) (hwin : s.vol.window.winsect = sect)
    (hdir : Foreign l (s.vol.table l) chain sect) (hptr : ptr + 32 ≤ 512) (p : FsPtr) (id : BitVec 16)
    {mode : BitVec 8} (hclean : has mode faDirty = false)
    (hplain : has mode faCreateAlways = true → protection s.vol.window sect ptr = 0#8) (tm : BitVec 32) :
    Ends (openBody l p id ptr mode tm) s
      (fun _ s' => Begun l chain (opensTo mode [] chain) (opensTo mode (fun _ => none) content)
        (opensTo mode 0#32 size) (has mode faSeekend)
        ⟨some p, id, .ok, has mode faRead, has mode faWrite, sect, ptr⟩ s s')
      (fun e s' => Unopened l chain (opensTo mode [] chain) (opensTo mode (fun _ => none) content)
        (opensTo mode 0#32 size) sect ptr s.vol s'.vol ∧ ¬Good l s.vol ∧ e ≠ .ok) := by
  unfold openBody opensTo
  by_cases hcreate : has mode faCreateAlways = true
  · simp only [if_pos hcreate]
    rw [ends_bind, ends_onlyIf]
    refine ⟨fun _ => ?_, fun hcon => absurd hcreate hcon⟩
    have hnil : Grows (s.vol.table l) chain [] := fun c hc => by simp at hc
    refine (resetEntry_spec h hwin hdir hptr (hplain hcreate) tm).mono (fun _ s₁ hs₁ => ?_)
      fun e s' hs' => ⟨⟨hnil, hs'.1.around, hs'.1.rests⟩, hs'.2.1, hs'.2.2⟩
    obtain ⟨hcleared, hwin₁, haccounts⟩ := hs₁
    have hdir₁ := hdir.of_entries hcleared.around.entries hnil
    have hmode : has (mode ||| faModified) faDirty = false := by
      rw [has_or (by decide)]
      exact hclean
    refine (filled_spec hcleared.around.kept.coherent hcleared.rests hwin₁ hdir₁ p id hmode).mono
      (fun _ s' hs' => ⟨hnil, haccounts.trans hs'.accounts hnil, hcleared.around.trans hs'.around hnil,
        hs'.core, hs'.positioned, hs'.objsize, ?_, ?_, hs'.entry, hs'.clean⟩)
      fun e s' hs' => ⟨⟨hnil, hcleared.around.trans hs'.1.around hnil, hs'.1.rests⟩,
        fun hgood => hs'.2.1 (hcleared.around.good hgood), hs'.2.2⟩
    · rw [hs'.fptr, has_or (by decide)]
    · rw [hs'.handle, has_or (by decide), has_or (by decide)]
  · simp only [if_neg hcreate]
    rw [ends_bind, ends_onlyIf]
    exact ⟨fun hcon => absurd hcon hcreate, fun _ => filled_spec hcoh h hwin hdir p id hclean⟩

end Opening

end Stream

end FatFs

end BareMetal
