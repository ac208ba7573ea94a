import BareMetal.FatFs.Stream

/-!
# What a call leaves alone

The calls on one file share the window, the table and the disk with the other files. This is what they
spare, whether they succeed or fail (`BareMetal.FatFs.Spares`): the entries of clusters that are in use and
not in the chain of the file, and the sectors that are foreign to it (`BareMetal.FatFs.Foreign`). A call
that also writes the directory entry spares the other entries of its sector
(`BareMetal.FatFs.Around`).

Frames add up as long as the chain grows by free clusters only (`BareMetal.FatFs.Grows`), and a frame in
which no cluster is lost (`BareMetal.FatFs.Accounts`) is what the count of the free clusters follows
from.
-/

namespace BareMetal

namespace FatFs

variable {δ : Type} [DiskIo δ]

/-! ### The frame -/

/-- A volume on which nothing goes wrong: its disk works, and no entry has the value that marks an
inner error. -/
structure Good (l : Layout) (v : Vol δ) : Prop where
  works : Works v.window.disk
  sane : ∀ c, l.Cluster c → v.table l c ≠ 1#32

/-- A sector that belongs to a cluster is in use by others: it is outside the table, and the
cluster it is in, if any, is not free and not in the chain. -/
def Foreign (l : Layout) (F : Entries) (chain : List (BitVec 32)) (s : BitVec 32) : Prop :=
  l.Tracked s ∧ (∀ j < l.fsize.toNat, s ≠ l.fatbase + BitVec.ofNat 32 j) ∧
    ∀ c k, l.Cluster c → k < l.csize.toNat → s = sectorIn l c k → F c ≠ 0#32 ∧ c ∉ chain

/-- The clusters of a chain come from another one, or were free. -/
def Grows (F : Entries) (chain chain' : List (BitVec 32)) : Prop :=
  ∀ c ∈ chain', c ∈ chain ∨ F c = 0#32

theorem Grows.refl (F : Entries) (chain : List (BitVec 32)) : Grows F chain chain :=
  fun _ hc => Or.inl hc

/-- **No cluster is lost** when a chain takes the place of another: the clusters in use outside it
are those that were in use outside the other. -/
def Accounts (l : Layout) (F F' : Entries) (chain chain' : List (BitVec 32)) : Prop :=
  ∀ c, l.Cluster c → c ∉ chain' → (F' c ≠ 0#32 ↔ F c ≠ 0#32 ∧ c ∉ chain)

theorem Accounts.of_eq {l : Layout} {F F' : Entries} {chain : List (BitVec 32)} (h : F' = F) :
    Accounts l F F' chain chain := by
  intro c _ hnot
  rw [h]
  exact ⟨fun hused => ⟨hused, hnot⟩, fun hused => hused.1⟩

theorem Accounts.trans {l : Layout} {F F' F'' : Entries} {chain chain' chain'' : List (BitVec 32)}
    (h : Accounts l F F' chain chain') (h' : Accounts l F' F'' chain' chain'')
    (hgrows : Grows F chain chain') : Accounts l F F'' chain chain'' := by
  intro c hc hnot
  rw [h' c hc hnot]
  by_cases hmem : c ∈ chain'
  · -- a cluster that has been given up again
    refine ⟨fun hcon => absurd hmem hcon.2, fun hused => ?_⟩
    rcases hgrows c hmem with hin | hfree
    · exact absurd hin hused.2
    · exact absurd hfree hused.1
  · rw [h c hc hmem]
    exact ⟨fun hused => hused.1, fun hused => ⟨hused, hmem⟩⟩

/-- **What a change of the volume on behalf of a chain spares**: the entries and the sectors of all
that is in use by others, the soundness of the volume and the count of its free clusters. -/
structure Spares (l : Layout) (chain : List (BitVec 32)) (v v' : Vol δ) : Prop where
  kept : TableKept l v.window v'.window
  entries : ∀ c, l.Cluster c → v.table l c ≠ 0#32 → c ∉ chain → v'.table l c = v.table l c
  sectors : ∀ s, Foreign l (v.table l) chain s → v'.window.view s = v.window.view s
  good : Good l v → Good l v'
  count : Good l v → FreeExact l v → FreeExact l v'

section Frame

variable {l : Layout} {chain chain' : List (BitVec 32)} {v v' v'' : Vol δ}

theorem Foreign.of_entries {s : BitVec 32} (hs : Foreign l (v.table l) chain s)
    (h : ∀ c, l.Cluster c → v.table l c ≠ 0#32 → c ∉ chain → v'.table l c = v.table l c)
    (hsub : Grows (v.table l) chain chain') : Foreign l (v'.table l) chain' s := by
  refine ⟨hs.1, hs.2.1, fun c k hc hk heq => ?_⟩
  obtain ⟨hused, hnot⟩ := hs.2.2 c k hc hk heq
  rw [h c hc hused hnot]
  exact ⟨hused, fun hmem => (hsub c hmem).elim hnot hused⟩

theorem Foreign.of_spares {s : BitVec 32} (hs : Foreign l (v.table l) chain s)
    (h : Spares l chain v v') (hsub : Grows (v.table l) chain chain') :
    Foreign l (v'.table l) chain' s := hs.of_entries h.entries hsub

/-- Changes for chains that grow by free clusters add up. -/
theorem Spares.trans (h : Spares l chain v v') (h' : Spares l chain' v' v'')
    (hsub : Grows (v.table l) chain chain') : Spares l chain v v'' where
  kept := h.kept.trans h'.kept
  entries c hc hused hnot := by
    have heq := h.entries c hc hused hnot
    rw [← heq]
    rw [← heq] at hused
    refine h'.entries c hc hused fun hmem => ?_
    rcases hsub c hmem with hin | hfree
    · exact hnot hin
    · exact hused (heq.trans hfree)
  sectors s hs := (h'.sectors s (hs.of_spares h hsub)).trans (h.sectors s hs)
  good hgood := h'.good (h.good hgood)
  count hgood hexact := h'.count (h.good hgood) (h.count hgood hexact)

theorem Grows.trans {chain'' : List (BitVec 32)} (h : Grows (v.table l) chain chain')
    (h' : Grows (v'.table l) chain' chain'') (hspares : Spares l chain v v')
    (hnodes : ∀ c ∈ chain'', l.Cluster c) : Grows (v.table l) chain chain'' := by
  intro c hc
  rcases h' c hc with hold | hfree
  · exact h c hold
  · by_cases hin : c ∈ chain
    · exact Or.inl hin
    by_cases hzero : v.table l c = 0#32
    · exact Or.inr hzero
    · rw [hspares.entries c (hnodes c hc) hzero hin] at hfree
      exact Or.inr hfree

theorem Spares.trans_self (h : Spares l chain v v') (h' : Spares l chain v' v'') :
    Spares l chain v v'' := h.trans h' (Grows.refl _ _)

/-- Nothing has changed but the window. -/
theorem Spares.of_sameView (hkept : TableKept l v.window v'.window)
    (hsame : SameView l v.window v'.window) (hvol : v' = { v with window := v'.window }) :
    Spares l chain v v' where
  kept := hkept
  entries c _ _ _ := hsame.fatEntry l c
  sectors s hs := hsame s hs.1
  good hgood := ⟨hkept.works hgood.works, fun c hc => by
    rw [Vol.table, hsame.fatEntry]
    exact hgood.sane c hc⟩
  count _ hexact := freeExact_of_sameView hexact hsame hvol

theorem Spares.refl (h : v.window.Coherent l) : Spares l chain v v :=
  Spares.of_sameView h.tableKept (fun _ _ => rfl) rfl

/-- The attributes of an entry that keep a file from being written: `AM_RDO` and `AM_DIR`. -/
def protection (w : Window δ) (sect : BitVec 32) (ptr : ℕ) : BitVec 8 :=
  peek (w.view sect) (ptr + 11) &&& (amRdo ||| amDir)

theorem protection_congr {w w' : Window δ} {sect : BitVec 32} (h : w'.view sect = w.view sect) (ptr : ℕ) :
    protection w' sect ptr = protection w sect ptr := by
  rw [protection, protection, h]

/-- **What a change on behalf of a file spares**, if it may change the directory entry too: besides the
chain, that is the entry at an offset of a sector, where the protection stays. -/
structure Around (l : Layout) (chain : List (BitVec 32)) (sect : BitVec 32) (ptr : ℕ) (v v' : Vol δ) :
    Prop where
  kept : Kept l v.window v'.window
  place : v'.window.winsect = v.window.winsect ∨ ¬l.InData v'.window.winsect ∨
    v'.window.winsect = sect
  entries : ∀ c, l.Cluster c → v.table l c ≠ 0#32 → c ∉ chain → v'.table l c = v.table l c
  sectors : ∀ s, Foreign l (v.table l) chain s → s ≠ sect → v'.window.view s = v.window.view s
  slot : ∀ i < 512, i < ptr ∨ ptr + 32 ≤ i →
    peek (v'.window.view sect) i = peek (v.window.view sect) i
  protection : protection v'.window sect ptr = protection v.window sect ptr
  good : Good l v → Good l v'
  count : Good l v → FreeExact l v → FreeExact l v'

theorem Spares.around {sect : BitVec 32} (h : Spares l chain v v')
    (hdir : Foreign l (v.table l) chain sect) (ptr : ℕ) : Around l chain sect ptr v v' where
  kept := h.kept.toKept
  place := h.kept.place.imp_right Or.inl
  entries := h.entries
  sectors s hs _ := h.sectors s hs
  slot i _ _ := by rw [h.sectors _ hdir]
  protection := protection_congr (h.sectors _ hdir) ptr
  good := h.good
  count := h.count

theorem Around.trans {sect : BitVec 32} {ptr : ℕ} (h : Around l chain sect ptr v v')
    (h' : Around l chain' sect ptr v' v'') (hsub : Grows (v.table l) chain chain') :
    Around l chain sect ptr v v'' where
  kept := h.kept.trans h'.kept
  place := by
    rcases h'.place with heq | hrest
    · rw [heq]
      exact h.place
    · exact Or.inr hrest
  entries c hc hused hnot := by
    have heq := h.entries c hc hused hnot
    rw [← heq]
    rw [← heq] at hused
    refine h'.entries c hc hused fun hmem => ?_
    rcases hsub c hmem with hin | hfree
    · exact hnot hin
    · exact hused (heq.trans hfree)
  sectors s hs hne := (h'.sectors s (hs.of_entries h.entries hsub) hne).trans (h.sectors s hs hne)
  slot i hi hout := (h'.slot i hi hout).trans (h.slot i hi hout)
  protection := h'.protection.trans h.protection
  good hgood := h'.good (h.good hgood)
  count hgood hexact := h'.count (h.good hgood) (h.count hgood hexact)

/-- A change of the window that keeps the sectors of the others. -/
theorem Around.of_window (chain : List (BitVec 32)) {sect : BitVec 32} {ptr : ℕ}
    (hfat : ∀ j < l.fsize.toNat, sect ≠ l.fatbase + BitVec.ofNat 32 j)
    (hkept : Kept l v.window v'.window)
    (hplace : v'.window.winsect = v.window.winsect ∨ ¬l.InData v'.window.winsect ∨
      v'.window.winsect = sect)
    (hview : ∀ t, l.Tracked t → t ≠ sect → v'.window.view t = v.window.view t)
    (hslot : ∀ i < 512, i < ptr ∨ ptr + 32 ≤ i →
      peek (v'.window.view sect) i = peek (v.window.view sect) i)
    (hattr : FatFs.protection v'.window sect ptr = FatFs.protection v.window sect ptr)
    (hfree : v'.freeClst = v.freeClst) :
    v'.table l = v.table l ∧ Around l chain sect ptr v v' := by
  have htable : v'.table l = v.table l := funext fun c =>
    fatEntry_congr l (fun j hj => hview _ (tracked_fatSector l hj) (hfat j hj).symm) c
  refine ⟨htable, hkept, hplace, fun c _ _ _ => congrFun htable c, fun t ht hne => hview t ht.1 hne, hslot,
    hattr, fun hgood => ⟨hkept.works hgood.works, by rw [htable]; exact hgood.sane⟩, fun _ hexact => ?_⟩
  rw [FreeExact, hfree, htable]
  exact hexact

/-- The window goes to the sector of the entry. -/
theorem Around.of_move (chain : List (BitVec 32)) {sect : BitVec 32} (ptr : ℕ)
    (hdir : Foreign l (v.table l) chain' sect) (hkept : Kept l v.window v'.window)
    (hplace : v'.window.winsect = v.window.winsect ∨ v'.window.winsect = sect ∨
      v'.window.winsect = noSector)
    (hview : SameView l v.window v'.window) (hfree : v'.freeClst = v.freeClst) :
    v'.table l = v.table l ∧ Around l chain sect ptr v v' := by
  refine Around.of_window chain hdir.2.1 hkept ?_ (fun t ht _ => hview t ht) (fun i _ _ => ?_)
    (protection_congr (hview _ hdir.1) ptr) hfree
  · refine hplace.imp_right fun hrest => hrest.symm.imp_left fun heq => ?_
    rw [heq]
    exact not_inData_noSector l
  · rw [hview _ hdir.1]

/-- The volume has only been **looked at**. -/
structure Looked (l : Layout) (v v' : Vol δ) : Prop where
  kept : TableKept l v.window v'.window
  view : SameView l v.window v'.window
  vol : v' = { v with window := v'.window }

theorem Looked.refl (h : v.window.Coherent l) : Looked l v v := ⟨h.tableKept, fun _ _ => rfl, rfl⟩

theorem Looked.trans (h : Looked l v v') (h' : Looked l v' v'') : Looked l v v'' := by
  refine ⟨h.kept.trans h'.kept, h.view.trans h'.view, ?_⟩
  have hvol := h'.vol
  rw [h.vol] at hvol
  exact hvol

theorem Looked.spares (h : Looked l v v') : Spares l chain v v' := Spares.of_sameView h.kept h.view h.vol

theorem Looked.good (h : Looked l v v') (hgood : Good l v) : Good l v' :=
  (show Spares l [] v v' from h.spares).good hgood

/-- How a call fails: it spares what is in use by others, and something is wrong with the disk or
the table. -/
structure Fails (l : Layout) (chain : List (BitVec 32)) (v : Vol δ) (e : InnerResult) (s : FileState δ) :
    Prop where
  spares : Spares l chain v s.vol
  bad : ¬Good l v
  ne_ok : e ≠ .ok

theorem Fails.after {e : InnerResult} {s : FileState δ} (h : Spares l chain v v')
    (hsub : Grows (v.table l) chain chain') (h' : Fails l chain' v' e s) :
    Fails l chain v e s :=
  ⟨h.trans h'.spares hsub, fun hgood => h'.bad (h.good hgood), h'.ne_ok⟩

end Frame

/-! ### Transfers past the window -/

section Transfers

variable {l : Layout} {chain : List (BitVec 32)} {v : Vol δ}

theorem view_setDisk (v : Vol δ) (d : δ) :
    (Stream.setDisk v d).window.view = Function.update (sectors d) v.window.winsect v.window.win := rfl

/-- A transfer that is no write leaves everything as it is. -/
theorem tableKept_read (h : v.window.Coherent l) {d : δ}
    (hd : Becomes v.window.disk d (sectors v.window.disk)) :
    TableKept l v.window (Stream.setDisk v d).window :=
  ⟨⟨⟨h.tracked, fun hclean htracked => (h.clean hclean htracked).trans (congrFun hd.stored _).symm⟩,
    hd.works⟩, Or.inl rfl⟩

theorem view_read {d : δ} (hd : Becomes v.window.disk d (sectors v.window.disk)) :
    (Stream.setDisk v d).window.view = v.window.view := by
  rw [view_setDisk, hd.stored, Window.view]

theorem table_read {d : δ} (hd : Becomes v.window.disk d (sectors v.window.disk)) :
    Vol.table l (Stream.setDisk v d) = v.table l := by
  rw [Vol.table, view_read hd]

theorem Spares.read (h : v.window.Coherent l) {d : δ}
    (hd : Becomes v.window.disk d (DiskIo.sectors v.window.disk)) :
    Spares l chain v (Stream.setDisk v d) :=
  Spares.of_sameView (tableKept_read h hd) (fun _ _ => by rw [view_read hd]) rfl

/-- What is on the disk, where the window is not. -/
theorem sectors_of_apart {s : BitVec 32} (h : v.window.winsect ≠ s) :
    sectors v.window.disk s = v.window.view s := (view_of_ne h.symm).symm

/-- The number of a sector of the file counted from another one in the same cluster. -/
theorem toNat_sectorOf_sub (hnodes : ∀ c ∈ chain, l.Cluster c) (hnodup : chain.Nodup) {k k' cc : ℕ}
    (hcc : k % l.csize.toNat + cc ≤ l.csize.toNat) (hk : k + cc ≤ chain.length * l.csize.toNat)
    (hk' : k' < chain.length * l.csize.toNat) :
    ((sectorOf l chain k' - sectorOf l chain k).toNat < cc ↔ k ≤ k' ∧ k' < k + cc) ∧
      (k ≤ k' → k' < k + cc → (sectorOf l chain k' - sectorOf l chain k).toNat = k' - k) := by
  have hsize := l.csize.isLt
  have hdiff : k ≤ k' → k' < k + cc →
      (sectorOf l chain k' - sectorOf l chain k).toNat = k' - k := by
    intro hle hlt
    have hadd : sectorOf l chain (k + (k' - k)) = sectorOf l chain k + BitVec.ofNat 32 (k' - k) :=
      sectorOf_add (by omega)
    rw [Nat.add_sub_cancel' hle] at hadd
    rw [hadd, BitVec.add_comm, BitVec.add_sub_cancel, BitVec.toNat_ofNat]
    exact Nat.mod_eq_of_lt (by omega)
  refine ⟨⟨fun hlt => ?_, fun hrange => ?_⟩, hdiff⟩
  · have hadd : sectorOf l chain (k + (sectorOf l chain k' - sectorOf l chain k).toNat) =
        sectorOf l chain k + BitVec.ofNat 32 (sectorOf l chain k' - sectorOf l chain k).toNat :=
      sectorOf_add (by omega)
    rw [BitVec.ofNat_toNat, BitVec.setWidth_eq, BitVec.add_comm, BitVec.sub_add_cancel] at hadd
    have heq := sectorOf_inj hnodes hnodup hk' (by omega) hadd.symm
    omega
  · rw [hdiff hrange.1 hrange.2]
    omega

/-- **Sectors of a file are stored** past the window. -/
theorem storeSectors_sectorOf (σ : BitVec 32 → Sector) (buff : ℕ → Sector)
    (hnodes : ∀ c ∈ chain, l.Cluster c) (hnodup : chain.Nodup) {k k' cc : ℕ}
    (hcc : k % l.csize.toNat + cc ≤ l.csize.toNat) (hk : k + cc ≤ chain.length * l.csize.toNat)
    (hk' : k' < chain.length * l.csize.toNat) :
    storeSectors σ (sectorOf l chain k) cc buff (sectorOf l chain k') =
      if k ≤ k' ∧ k' < k + cc then buff (k' - k) else σ (sectorOf l chain k') := by
  obtain ⟨hiff, hdiff⟩ := toNat_sectorOf_sub hnodes hnodup hcc hk hk'
  unfold storeSectors
  by_cases hrange : k ≤ k' ∧ k' < k + cc
  · rw [if_pos hrange, if_pos (hiff.mpr hrange), hdiff hrange.1 hrange.2]
  · rw [if_neg hrange, if_neg (mt hiff.mp hrange)]

/-- What is stored in sectors of a file is not seen elsewhere. -/
theorem storeSectors_of_ne (σ : BitVec 32 → Sector) (buff : ℕ → Sector) {k cc : ℕ} {t : BitVec 32}
    (hcc : k % l.csize.toNat + cc ≤ l.csize.toNat)
    (ht : ∀ j < cc, t ≠ sectorOf l chain (k + j)) :
    storeSectors σ (sectorOf l chain k) cc buff t = σ t := by
  unfold storeSectors
  split
  · rename_i hlt
    refine absurd ?_ (ht _ hlt)
    rw [sectorOf_add (by omega), BitVec.ofNat_toNat, BitVec.setWidth_eq, BitVec.add_comm,
      BitVec.sub_add_cancel]
  · rfl

/-- The view after a transfer past the window. -/
theorem view_store {buff : ℕ → Sector} {k cc : ℕ} (hcc : k % l.csize.toNat + cc ≤ l.csize.toNat)
    (hapart : ∀ j < cc, v.window.winsect ≠ sectorOf l chain (k + j)) {d : δ}
    (hd : Becomes v.window.disk d
      (storeSectors (sectors v.window.disk) (sectorOf l chain k) cc buff)) :
    (Stream.setDisk v d).window.view =
      storeSectors v.window.view (sectorOf l chain k) cc buff := by
  funext t
  rw [view_setDisk, hd.stored]
  by_cases ht : t = v.window.winsect
  · subst ht
    rw [Function.update_self, storeSectors_of_ne _ _ hcc hapart, view_winsect]
  · rw [Function.update_of_ne ht]
    unfold storeSectors
    rw [view_of_ne ht]

/-- A sector of the file is none of the others'. -/
theorem ne_sectorOf_of_foreign {F : Entries} {s : BitVec 32} {k : ℕ} (hs : Foreign l F chain s)
    (hnodes : ∀ c ∈ chain, l.Cluster c) (hk : k < chain.length * l.csize.toNat) :
    s ≠ sectorOf l chain k := by
  intro heq
  have hmem := getD_mem hk
  exact (hs.2.2 _ _ (hnodes _ hmem) (Nat.mod_lt _ (csize_pos l)) heq).2 hmem

theorem ne_sectorOf_of_fat (hnodes : ∀ c ∈ chain, l.Cluster c) {j k : ℕ} (hj : j < l.fsize.toNat)
    (hk : k < chain.length * l.csize.toNat) :
    l.fatbase + BitVec.ofNat 32 j ≠ sectorOf l chain k := by
  intro heq
  have hdata := inData_sectorOf hnodes hk
  rw [← heq] at hdata
  exact not_inData_fatSector l hj hdata

/-- The table after a write to sectors of the file. -/
theorem table_store (hnodes : ∀ c ∈ chain, l.Cluster c) {buff : ℕ → Sector} {k cc : ℕ}
    (hcc : k % l.csize.toNat + cc ≤ l.csize.toNat) (hk : k + cc ≤ chain.length * l.csize.toNat)
    (hapart : ∀ j < cc, v.window.winsect ≠ sectorOf l chain (k + j)) {d : δ}
    (hd : Becomes v.window.disk d
      (storeSectors (sectors v.window.disk) (sectorOf l chain k) cc buff)) (c : BitVec 32) :
    Vol.table l (Stream.setDisk v d) c = v.table l c := by
  refine fatEntry_congr l (fun j hj => ?_) c
  rw [view_store hcc hapart hd]
  exact storeSectors_of_ne _ _ hcc fun i hi => ne_sectorOf_of_fat hnodes hj (by omega)

/-- **A write to sectors of the file** touches nothing else. -/
theorem Spares.write (h : v.window.Coherent l) (hnodes : ∀ c ∈ chain, l.Cluster c)
    {buff : ℕ → Sector} {k cc : ℕ} (hcc : k % l.csize.toNat + cc ≤ l.csize.toNat)
    (hk : k + cc ≤ chain.length * l.csize.toNat)
    (hapart : ∀ j < cc, v.window.winsect ≠ sectorOf l chain (k + j)) {d : δ}
    (hd : Becomes v.window.disk d
      (storeSectors (DiskIo.sectors v.window.disk) (sectorOf l chain k) cc buff)) :
    Spares l chain v (Stream.setDisk v d) := by
  have htable := table_store hnodes hcc hk hapart hd
  refine ⟨⟨⟨⟨h.tracked, fun hclean htracked => ?_⟩, hd.works⟩, Or.inl rfl⟩,
    fun c _ _ _ => htable c, fun s hs => ?_,
    fun hgood => ⟨hd.works hgood.works, fun c hc => by rw [htable]; exact hgood.sane c hc⟩,
    fun _ hexact hknown => ?_⟩
  · -- the sector of the window is not written
    have hwin := storeSectors_of_ne (DiskIo.sectors v.window.disk) buff hcc hapart
    exact (h.clean hclean htracked).trans (hwin.symm.trans (congrFun hd.stored _).symm)
  · rw [view_store hcc hapart hd]
    exact storeSectors_of_ne _ _ hcc fun j hj => ne_sectorOf_of_foreign hs hnodes (by omega)
  · rw [show Vol.table l (Stream.setDisk v _) = v.table l from funext htable]
    exact hexact hknown

end Transfers

/-! ### Changes of the table -/

section Table

variable {l : Layout} {chain : List (BitVec 32)} {v v' : Vol δ} {clst r : BitVec 32}

/-- **`create_chain` spares the others**, if it stretches the chain or begins a new one. -/
theorem Spares.create (hkept : TableKept l v.window v'.window) (h : CreateEnd l v clst r v')
    (hclst : l.Cluster clst → clst ∈ chain) : Spares l chain v v' where
  kept := hkept
  entries c hc hused hnot := h.others hused fun heq => hnot (heq ▸ hclst (heq ▸ hc))
  sectors s hs := h.outside s hs.1 hs.2.1
  good hgood := by
    refine ⟨hkept.works hgood.works, fun c hc => ?_⟩
    cases h with
    | follows _ _ _ hsame _ => rw [Vol.table, hsame.fatEntry]; exact hgood.sane c hc
    | full _ _ _ hsame _ => rw [Vol.table, hsame.fatEntry]; exact hgood.sane c hc
    | insane _ _ hsame _ => rw [Vol.table, hsame.fatEntry]; exact hgood.sane c hc
    | failed _ hfail _ _ _ _ => exact absurd hgood.works hfail
    | created _ hr _ hnew hlink hothers _ _ _ =>
      by_cases hcr : c = r
      · rw [hcr, hnew]
        exact ne_of_next (Or.inr (nFatent_le_clip_eoc l)) (by decide)
      by_cases hcc : c = clst
      · have hzero : clst ≠ 0#32 := ne_of_next (Or.inl (hcc ▸ hc)) (by decide)
        rw [hcc, hlink hzero]
        exact ne_of_next (Or.inl hr) (by decide)
      · rw [hothers c hcr hcc]
        exact hgood.sane c hc
  count hgood hexact := h.freeExact hgood.works hexact

/-- **`remove_chain` spares the others**, if it cuts off the chain. -/
theorem Spares.remove {first : BitVec 32} {front rest : List (BitVec 32)}
    (h : v.window.Coherent l)
    (hchain : Linked (v.table l) l.Cluster l.End first (front ++ clst :: rest)) :
    Spares l (front ++ clst :: rest) v (removeChain l v clst (front.getLast?.getD 0#32)).2 := by
  obtain ⟨hkept, hout, hothers, hres⟩ := removeChain_cut h hchain
  generalize removeChain l.toGeometry v clst _ = p at hkept hout hothers hres
  obtain ⟨res, v'⟩ := p
  simp only at hkept hout hothers hres
  refine ⟨hkept, fun c hc _ hnot => hothers c hc hnot, fun s hs => hout s hs.1 hs.2.1,
    fun hgood => ⟨hkept.works hgood.works, fun c hc => ?_⟩, fun hgood hexact => ?_⟩
  · rcases hres with ⟨-, hfront, hfreed, -⟩ | ⟨-, hfail⟩
    · by_cases hmem : c ∈ front ++ clst :: rest
      · rcases List.mem_append.mp hmem with hf | hr
        · cases hhead : front.head? with
          | none => simp [List.head?_eq_none_iff.mp hhead] at hf
          | some a => exact ne_of_next ((hfront a hhead).next_or hf) (by decide)
        · rw [hfreed c hr]
          decide
      · rw [hothers c hc hmem]
        exact hgood.sane c hc
    · exact absurd hgood.works hfail
  · rcases hres with ⟨-, -, -, hcount⟩ | ⟨-, hfail⟩
    · exact hcount hexact
    · exact absurd hgood.works hfail

end Table

end FatFs

end BareMetal
