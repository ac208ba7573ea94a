import BareMetal.Runs
import BareMetal.FatFs.Disk

/-!
# The sector window of a volume

A mounted volume has one buffer of a sector for all that is not file data: the allocation
table, the directories, the information sector. It is a cache of a single sector, written back
when another sector is wanted. `move_window` brings a sector into the window, `sync_window` writes
a changed one back – twice if it is of the allocation table and the volume has two copies of it –
and a caller that changes the window sets its flag (`BareMetal.FatFs.editWindow`).

Every transfer may fail, and the disk under the window is any that keeps the contract
`BareMetal.FatFs.DiskIo`. The answer to the write of the second copy is not looked at, and neither is
that of the information sector.

What a volume holds is its **view**: the window over the disk. A failed transfer does not change
it: a window that could not be written stays, and a window that could not be filled is no sector's.
So in every run the view is what the successful changes have made of it, whatever has failed in
between, and a successful synchronization puts all of it on the disk
(`BareMetal.FatFs.windowFaithful`). The second copy of the table is kept in step as long as the write of
a sector is not followed by a failed write of its copy (`BareMetal.FatFs.copiesAgree`).
-/

namespace BareMetal

namespace FatFs

variable {δ : Type} [DiskIo δ]

/-! ### The volume -/

/-- `fs_type` of a mounted volume. -/
inductive FatType where
  | fat12 | fat16 | fat32
  deriving DecidableEq, Repr

/-- The fields of a `FATFS` object that mounting sets and nothing changes afterwards. -/
structure Geometry where
  fsType : FatType
  nFats : BitVec 8
  csize : BitVec 16
  nRootdir : BitVec 16
  nFatent : BitVec 32
  fsize : BitVec 32
  volbase : BitVec 32
  fatbase : BitVec 32
  dirbase : BitVec 32
  database : BitVec 32

/-- The bits an entry of the allocation table takes. -/
def FatType.stride : FatType → ℕ
  | .fat12 => 12
  | .fat16 => 16
  | .fat32 => 32

/-- `MAX_FAT12`, `MAX_FAT16` and `MAX_FAT32`. -/
def FatType.maxClusters : FatType → ℕ
  | .fat12 => 0xFF5
  | .fat16 => 0xFFF5
  | .fat32 => 0x0FFFFFF5

/-- A **layout**: the fields as they are on a sound volume. The parts of the volume follow one
another, the allocation table has room for its entries, and the last sector number belongs to no
volume. -/
structure Layout extends Geometry where
  nFats_eq : nFats = 1#8 ∨ nFats = 2#8
  csize_eq : ∃ k < 8, csize = BitVec.ofNat 16 (2 ^ k)
  two_lt : 2 < nFatent.toNat
  nFatent_le : nFatent.toNat ≤ fsType.maxClusters + 2
  room : fsType.stride * nFatent.toNat ≤ 8 * (512 * fsize.toNat)
  reserved : volbase.toNat + 1 ≤ fatbase.toNat
  fsinfo : fsType = .fat32 → volbase.toNat + 2 ≤ fatbase.toNat
  fats : fatbase.toNat + nFats.toNat * fsize.toNat ≤ database.toNat
  inside : database.toNat + csize.toNat * (nFatent.toNat - 2) < 2 ^ 32

/-- The window and the disk under it. -/
structure Window (δ : Type) where
  disk : δ
  winsect : BitVec 32
  win : Sector
  wflag : Bool

/-! ### The code -/

/-- The window holds a sector of the allocation table, of which the volume has two copies. -/
def Window.HasCopy (g : Geometry) (w : Window δ) : Prop :=
  w.winsect - g.fatbase < g.fsize ∧ g.nFats = 2#8

instance (g : Geometry) (w : Window δ) : Decidable (w.HasCopy g) :=
  inferInstanceAs (Decidable (_ ∧ _))

/-- `sync_window`. -/
def syncWindow (g : Geometry) (w : Window δ) : FResult × Window δ :=
  if w.wflag then
    let r := diskWrite w.disk (fun _ => w.win) w.winsect 1
    if r.1 = .ok then
      if w.HasCopy g then
        -- the answer is not looked at
        (.ok, { w with
          wflag := false, disk := (diskWrite r.2 (fun _ => w.win) (w.winsect + g.fsize) 1).2 })
      else (.ok, { w with wflag := false, disk := r.2 })
    else (.diskErr, { w with disk := r.2 })
  else (.ok, w)

/-- `move_window`. -/
def moveWindow (g : Geometry) (w : Window δ) (sector : BitVec 32) : FResult × Window δ :=
  if sector ≠ w.winsect then
    match syncWindow g w with
    | (.ok, w) =>
        let r := diskRead w.disk sector 1
        if r.1.1 = .ok then (.ok, { w with disk := r.2, win := r.1.2 0, winsect := sector })
        else (.diskErr, { w with disk := r.2, win := r.1.2 0, winsect := noSector })
    | (res, w) => (res, w)
  else (.ok, w)

/-- What every function does that changes a sector: it brings the sector into the window, and if
that succeeds changes the window and sets `wflag`. -/
def editWindow (g : Geometry) (w : Window δ) (sector : BitVec 32) (f : Sector → Sector) :
    FResult × Window δ :=
  match moveWindow g w sector with
  | (.ok, w) => (.ok, { w with win := f w.win, wflag := true })
  | (res, w) => (res, w)

/-! ### The view of a volume -/

instance : Coe Layout Geometry := ⟨Layout.toGeometry⟩

/-- **What a volume holds**: the window over the disk. -/
def Window.view (w : Window δ) : BitVec 32 → Sector := Function.update (sectors w.disk) w.winsect w.win

/-- A sector of the second copy of the allocation table. -/
def Geometry.Copy (g : Geometry) (s : BitVec 32) : Prop :=
  g.nFats = 2#8 ∧ ∃ j < g.fsize.toNat, s = g.fatbase + g.fsize + BitVec.ofNat 32 j

/-- The sectors whose contents the window keeps track of: all of them but the last number, the
information sector of a volume that has one, and the second copy of the allocation table. -/
def Geometry.Tracked (g : Geometry) (s : BitVec 32) : Prop :=
  s ≠ noSector ∧ (g.fsType = .fat32 → s ≠ g.volbase + 1#32) ∧ ¬g.Copy s

/-- The sectors from the first cluster on. -/
def Geometry.InData (g : Geometry) (s : BitVec 32) : Prop := g.database ≤ s ∧ s ≠ noSector

/-- **Coherence**: a window that is to be written holds a sector that is kept track of, and a
window that is not is as on the disk. -/
structure Window.Coherent (g : Geometry) (w : Window δ) : Prop where
  tracked : w.wflag = true → g.Tracked w.winsect
  clean : w.wflag = false → g.Tracked w.winsect → w.win = sectors w.disk w.winsect

/-- The same contents, as far as they are kept track of. -/
def SameView (g : Geometry) (w w' : Window δ) : Prop := ∀ s, g.Tracked s → w'.view s = w.view s

theorem SameView.trans {g : Geometry} {w w' w'' : Window δ} (h : SameView g w w')
    (h' : SameView g w' w'') : SameView g w w'' := fun s hs => (h' s hs).trans (h s hs)

/-- What the functions keep: the window is coherent afterwards, and a disk without errors goes on
without errors. -/
structure Kept (g : Geometry) (w w' : Window δ) : Prop where
  coherent : w'.Coherent g
  works : Works w.disk → Works w'.disk

theorem Window.Coherent.kept {g : Geometry} {w : Window δ} (h : w.Coherent g) : Kept g w w := ⟨h, id⟩

theorem Kept.trans {g : Geometry} {w w' w'' : Window δ} (h : Kept g w w') (h' : Kept g w' w'') :
    Kept g w w'' := ⟨h'.coherent, h'.works ∘ h.works⟩

theorem view_winsect (w : Window δ) : w.view w.winsect = w.win := Function.update_self ..

theorem view_of_ne {w : Window δ} {s : BitVec 32} (h : s ≠ w.winsect) : w.view s = sectors w.disk s :=
  Function.update_of_ne h ..

/-- A window that is not to be written shows what is on the disk. -/
theorem Window.Coherent.view_eq {g : Geometry} {w : Window δ} (h : w.Coherent g)
    (hclean : w.wflag = false) {s : BitVec 32} (hs : g.Tracked s) : w.view s = sectors w.disk s := by
  by_cases hwin : s = w.winsect
  · subst hwin
    rw [view_winsect, h.clean hclean hs]
  · exact view_of_ne hwin

/-! ### What the window functions do -/

section Functions

variable {g : Geometry} {w : Window δ}

/-- If the window can be written, then so can its copy after it. -/
def Window.Twice (g : Geometry) (w : Window δ) : Prop :=
  (diskWrite w.disk (fun _ => w.win) w.winsect 1).1 = .ok →
    (diskWrite (diskWrite w.disk (fun _ => w.win) w.winsect 1).2 (fun _ => w.win)
      (w.winsect + g.fsize) 1).1 = .ok

instance (g : Geometry) (w : Window δ) : Decidable (w.Twice g) := inferInstanceAs (Decidable (_ → _))

/-- What is on the disk after the window has been written: the window, and in place of its copy the
window or, if that write fails, anything. -/
def Window.WrittenTo (g : Geometry) (w : Window δ) (d : δ) : Prop :=
  ¬w.HasCopy g ∧ sectors d = Function.update (sectors w.disk) w.winsect w.win ∨
    w.HasCopy g ∧ ∃ b, (w.Twice g → b = w.win) ∧ sectors d =
      Function.update (Function.update (sectors w.disk) w.winsect w.win) (w.winsect + g.fsize) b

/-- **What `sync_window` can do**: nothing, if there is nothing to write; fail, and leave the
window to be written; or write the window, and then perhaps the copy. -/
theorem syncWindow_inv (g : Geometry) (w : Window δ) :
    (w.wflag = false ∧ syncWindow g w = (.ok, w)) ∨
    (w.wflag = true ∧ ∃ d, (Works w.disk → Works d) ∧
      ((syncWindow g w = (.diskErr, { w with disk := d }) ∧ ¬Works w.disk ∧
          ∃ left, sectors d = Function.update (sectors w.disk) w.winsect left) ∨
        (syncWindow g w = (.ok, { w with wflag := false, disk := d }) ∧ w.WrittenTo g d))) := by
  cases hflag : w.wflag with
  | false => exact Or.inl ⟨rfl, by simp [syncWindow, hflag]⟩
  | true =>
    refine Or.inr ⟨rfl, ?_⟩
    obtain ⟨res, d, heq, ⟨rfl, hd, hworks⟩ | ⟨hne, hfail, left, hd, hworks⟩⟩ :=
      diskWrite_one w.disk w.winsect w.win
    · by_cases hcopy : w.HasCopy g
      · obtain ⟨res', d', heq', hres⟩ := diskWrite_one d (w.winsect + g.fsize) w.win
        have hsync : syncWindow g w = (.ok, { w with wflag := false, disk := d' }) := by
          simp only [syncWindow, hflag, if_true, heq, if_pos hcopy, heq']
        rcases hres with ⟨-, hd', hworks'⟩ | ⟨hne, -, left, hd', hworks'⟩
        · exact ⟨d', hworks' ∘ hworks, Or.inr ⟨hsync, Or.inr ⟨hcopy, w.win, fun _ => rfl,
            by rw [hd', hd]⟩⟩⟩
        · refine ⟨d', hworks' ∘ hworks, Or.inr ⟨hsync, Or.inr ⟨hcopy, left, fun htwice => ?_,
            by rw [hd', hd]⟩⟩⟩
          simp only [Window.Twice, heq, heq'] at htwice
          exact absurd (htwice trivial) hne
      · exact ⟨d, hworks, Or.inr ⟨by simp only [syncWindow, hflag, if_true, heq, if_neg hcopy],
          Or.inl ⟨hcopy, hd⟩⟩⟩
    · exact ⟨d, hworks, Or.inl ⟨by simp only [syncWindow, hflag, if_true, heq, if_neg hne], hfail,
        left, hd⟩⟩

omit [DiskIo δ] in
/-- The sector a table sector is copied to is one of the second copy. -/
theorem copy_of_hasCopy (h : w.HasCopy g) :
    g.Copy (w.winsect + g.fsize) := by
  refine ⟨h.2, (w.winsect - g.fatbase).toNat, BitVec.lt_def.mp h.1, ?_⟩
  rw [BitVec.ofNat_toNat, BitVec.setWidth_eq, BitVec.add_assoc, BitVec.add_comm g.fsize,
    ← BitVec.add_assoc, BitVec.add_comm g.fatbase, BitVec.sub_add_cancel]

/-- A sector that is kept track of is as in the view once the window has been written. -/
theorem Window.WrittenTo.sectors_eq {d : δ} (h : w.WrittenTo g d) {s : BitVec 32} (hs : g.Tracked s) :
    sectors d s = w.view s := by
  rcases h with ⟨-, hd⟩ | ⟨hcopy, b, -, hd⟩
  · rw [hd, Window.view]
  · have hother : s ≠ w.winsect + g.fsize := by
      rintro rfl
      exact hs.2.2 (copy_of_hasCopy hcopy)
    rw [hd, Function.update_of_ne hother, Window.view]

/-- **`sync_window` loses nothing**: whatever it answers the contents stay, and a window that it
reports as written is. -/
theorem syncWindow_spec (h : w.Coherent g) :
    Kept g w (syncWindow g w).2 ∧ SameView g w (syncWindow g w).2 ∧
      ((syncWindow g w).1 = .ok ∧ (syncWindow g w).2.wflag = false ∨
        (syncWindow g w).1 = .diskErr ∧ ¬Works w.disk) := by
  rcases syncWindow_inv g w with ⟨hflag, heq⟩ |
    ⟨hflag, d, hworks, ⟨heq, hfail, left, hd⟩ | ⟨heq, hwritten⟩⟩
  · rw [heq]
    exact ⟨h.kept, fun _ _ => rfl, Or.inl ⟨rfl, hflag⟩⟩
  · rw [heq]
    refine ⟨⟨⟨fun _ => h.tracked hflag, fun hfalse => ?_⟩, hworks⟩, fun s _ => ?_,
      Or.inr ⟨rfl, hfail⟩⟩
    · rw [hflag] at hfalse
      cases hfalse
    · -- the window covers what the failed write has left
      simp only [Window.view, hd, Function.update_idem]
  · rw [heq]
    refine ⟨⟨⟨fun htrue => (by cases htrue), fun _ htracked => ?_⟩, hworks⟩, fun s hs => ?_,
      Or.inl ⟨rfl, rfl⟩⟩
    · rw [hwritten.sectors_eq htracked, view_winsect]
    · by_cases hwin : s = w.winsect
      · subst hwin
        exact (view_winsect { w with wflag := false, disk := d }).trans (view_winsect w).symm
      · rw [← hwritten.sectors_eq hs]
        exact view_of_ne hwin

/-- **`move_window` brings a sector into the window** or reports an error, and loses nothing. -/
theorem moveWindow_spec (h : w.Coherent g) (s : BitVec 32) :
    Kept g w (moveWindow g w s).2 ∧ SameView g w (moveWindow g w s).2 ∧
      ((moveWindow g w s).1 = .ok ∧ (moveWindow g w s).2.winsect = s ∨
        (moveWindow g w s).1 = .diskErr ∧ ¬Works w.disk) := by
  unfold moveWindow
  by_cases hwin : s = w.winsect
  · rw [if_neg (not_not.mpr hwin)]
    exact ⟨h.kept, fun _ _ => rfl, Or.inl ⟨rfl, hwin.symm⟩⟩
  obtain ⟨hkept, hview, hres⟩ := syncWindow_spec h
  rw [if_pos hwin]
  generalize syncWindow g w = r at hkept hview hres
  obtain ⟨res, w'⟩ := r
  simp only at hkept hview hres
  rcases hres with ⟨rfl, hclean⟩ | ⟨rfl, hfail⟩
  · -- the window has been written, so it can be replaced
    have hdisk : ∀ t, g.Tracked t → sectors w'.disk t = w.view t := fun t ht => by
      rw [← hview t ht, hkept.coherent.view_eq hclean ht]
    obtain ⟨res, b, d, heq, ⟨hd, hworks⟩, hres⟩ := diskRead_one w'.disk s
    simp only [heq]
    rcases hres with ⟨rfl, hb⟩ | ⟨hne, hfail⟩
    · refine ⟨⟨⟨fun htrue => ?_, fun _ htracked => ?_⟩, hworks ∘ hkept.works⟩, fun t ht => ?_,
        Or.inl ⟨rfl, rfl⟩⟩
      · simp only [if_true, hclean] at htrue
        cases htrue
      · exact (hb htracked.1).trans (congrFun hd s).symm
      · rw [← hdisk t ht]
        simp only [if_true, Window.view, hd]
        by_cases hts : t = s
        · subst hts
          rw [Function.update_self, hb ht.1]
        · exact Function.update_of_ne hts ..
    · simp only [if_neg hne]
      refine ⟨⟨⟨fun htrue => ?_, fun _ htracked => absurd rfl htracked.1⟩, hworks ∘ hkept.works⟩,
        fun t ht => ?_, Or.inr ⟨trivial, fun hw => hfail (hkept.works hw)⟩⟩
      · rw [hclean] at htrue
        cases htrue
      · rw [← hdisk t ht, view_of_ne ht.1, hd]
  · exact ⟨hkept, hview, Or.inr ⟨rfl, hfail⟩⟩

theorem syncWindow_winsect (g : Geometry) (w : Window δ) :
    (syncWindow g w).2.winsect = w.winsect := by
  rcases syncWindow_inv g w with ⟨-, heq⟩ | ⟨-, d, -, ⟨heq, -⟩ | ⟨heq, -⟩⟩ <;> rw [heq]

/-- Where the window is after a move. -/
theorem moveWindow_winsect (g : Geometry) (w : Window δ) (s : BitVec 32) :
    (moveWindow g w s).2.winsect = w.winsect ∨ (moveWindow g w s).2.winsect = s ∨
      (moveWindow g w s).2.winsect = noSector := by
  have hsync := syncWindow_winsect g w
  unfold moveWindow
  split
  · split
    · rename_i w' _
      dsimp only
      split
      · exact Or.inr (Or.inl rfl)
      · exact Or.inr (Or.inr rfl)
    · rename_i heq
      rw [heq] at hsync
      exact Or.inl hsync
  · exact Or.inl rfl

/-- What is in the window after a move that succeeded. -/
theorem moveWindow_win (h : w.Coherent g) {s : BitVec 32} (hs : g.Tracked s)
    (hok : (moveWindow g w s).1 = .ok) : (moveWindow g w s).2.win = w.view s := by
  obtain ⟨-, hview, hres⟩ := moveWindow_spec h s
  generalize moveWindow g w s = r at hok hview hres
  obtain ⟨res, w'⟩ := r
  simp only at hok hview hres
  rcases hres with ⟨-, rfl⟩ | ⟨hres, -⟩
  · rw [← hview _ hs, view_winsect]
  · rw [hok] at hres
    cases hres

/-- **`BareMetal.FatFs.editWindow` changes one sector** or nothing. -/
theorem editWindow_spec (h : w.Coherent g) {s : BitVec 32} (hs : g.Tracked s)
    (f : Sector → Sector) :
    Kept g w (editWindow g w s f).2 ∧
      ((editWindow g w s f).1 = .ok ∧ (∀ t, g.Tracked t →
          (editWindow g w s f).2.view t = Function.update w.view s (f (w.view s)) t) ∨
        ((editWindow g w s f).1 = .diskErr ∧ ¬Works w.disk) ∧
          SameView g w (editWindow g w s f).2) := by
  obtain ⟨hkept, hview, hres⟩ := moveWindow_spec h s
  unfold editWindow
  generalize moveWindow g w s = r at hkept hview hres
  obtain ⟨res, w'⟩ := r
  simp only at hkept hview hres
  rcases hres with ⟨rfl, rfl⟩ | ⟨rfl, hfail⟩
  · refine ⟨⟨⟨fun _ => hs, fun hfalse => by cases hfalse⟩, hkept.works⟩,
      Or.inl ⟨rfl, fun t ht => ?_⟩⟩
    by_cases hwin : t = w'.winsect
    · subst hwin
      rw [Function.update_self, ← hview _ hs, view_winsect, view_winsect]
    · rw [Function.update_of_ne hwin, ← hview t ht, view_of_ne hwin]
      exact view_of_ne hwin
  · exact ⟨hkept, Or.inr ⟨⟨rfl, hfail⟩, hview⟩⟩

end Functions

/-! ### The sectors of the allocation table and of the clusters -/

section Sectors

variable (l : Layout)

/-- The table ends before the clusters begin. -/
theorem table_le : l.fatbase.toNat + l.fsize.toNat ≤ l.database.toNat := by
  have hfats := l.fats
  have hone : 1 * l.fsize.toNat ≤ l.nFats.toNat * l.fsize.toNat := by
    refine Nat.mul_le_mul_right _ ?_
    rcases l.nFats_eq with h | h <;> rw [h] <;> decide
  omega

/-- The numbers of the sectors of the allocation table. -/
theorem toNat_fatSector {j : ℕ} (hj : j < l.fsize.toNat) :
    (l.fatbase + BitVec.ofNat 32 j).toNat = l.fatbase.toNat + j := by
  have htable := table_le l
  have hinside := l.inside
  rw [BitVec.toNat_add, BitVec.toNat_ofNat]
  omega

/-- The numbers of the sectors of its copy. -/
theorem toNat_copySector (htwo : l.nFats = 2#8) {j : ℕ} (hj : j < l.fsize.toNat) :
    (l.fatbase + l.fsize + BitVec.ofNat 32 j).toNat = l.fatbase.toNat + l.fsize.toNat + j := by
  have hfats := l.fats
  have hinside := l.inside
  rw [htwo, show (2#8).toNat = 2 from rfl] at hfats
  rw [BitVec.toNat_add, BitVec.toNat_add, BitVec.toNat_ofNat]
  omega

theorem inFat_iff (s : BitVec 32) :
    s - l.fatbase < l.fsize ↔ ∃ j < l.fsize.toNat, s = l.fatbase + BitVec.ofNat 32 j := by
  constructor
  · intro hlt
    refine ⟨(s - l.fatbase).toNat, BitVec.lt_def.mp hlt, ?_⟩
    rw [BitVec.ofNat_toNat, BitVec.setWidth_eq, BitVec.add_comm, BitVec.sub_add_cancel]
  · rintro ⟨j, hj, rfl⟩
    have hlt := l.fsize.isLt
    rw [BitVec.add_comm, BitVec.add_sub_cancel, BitVec.lt_def, BitVec.toNat_ofNat,
      Nat.mod_eq_of_lt (hj.trans hlt)]
    exact hj

/-- The allocation table and its copy have no sector in common. -/
theorem fatSector_ne_copySector (htwo : l.nFats = 2#8) {i j : ℕ} (hi : i < l.fsize.toNat)
    (hj : j < l.fsize.toNat) :
    l.fatbase + BitVec.ofNat 32 i ≠ l.fatbase + l.fsize + BitVec.ofNat 32 j := by
  intro heq
  have hnat := congrArg BitVec.toNat heq
  rw [toNat_fatSector l hi, toNat_copySector l htwo hj] at hnat
  omega

/-- The allocation table is kept track of. -/
theorem tracked_fatSector {j : ℕ} (hj : j < l.fsize.toNat) :
    l.Tracked (l.fatbase + BitVec.ofNat 32 j) := by
  have hnat := toNat_fatSector l hj
  have htable := table_le l
  have hinside := l.inside
  refine ⟨fun heq => ?_, fun htype heq => ?_, ?_⟩
  · rw [heq, noSector, show (0xFFFFFFFF#32).toNat = 2 ^ 32 - 1 from rfl] at hnat
    omega
  · have hinfo := l.fsinfo htype
    rw [heq, BitVec.toNat_add, show (1#32).toNat = 1 from rfl] at hnat
    omega
  · rintro ⟨htwo, i, hi, heq⟩
    exact fatSector_ne_copySector l htwo hj hi heq

/-- The clusters are kept track of. -/
theorem tracked_of_inData {s : BitVec 32} (hs : l.InData s) : l.Tracked s := by
  have hdata := BitVec.le_def.mp hs.1
  have hfats := l.fats
  have hinside := l.inside
  refine ⟨hs.2, ?_, ?_⟩
  · rintro htype rfl
    have hinfo := l.fsinfo htype
    rw [BitVec.toNat_add, show (1#32).toNat = 1 from rfl] at hdata
    omega
  · rintro ⟨htwo, j, hj, rfl⟩
    rw [toNat_copySector l htwo hj] at hdata
    rw [htwo, show (2#8).toNat = 2 from rfl] at hfats
    omega

theorem not_inData_fatSector {j : ℕ} (hj : j < l.fsize.toNat) :
    ¬l.InData (l.fatbase + BitVec.ofNat 32 j) := by
  intro hs
  have hdata := BitVec.le_def.mp hs.1
  have htable := table_le l
  rw [toNat_fatSector l hj] at hdata
  omega

end Sectors

/-! ### A small volume -/

/-- A volume of ten clusters with two copies of a table of one sector. -/
def smallLayout : Layout where
  fsType := .fat12
  nFats := 2#8
  csize := 1#16
  nRootdir := 16#16
  nFatent := 12#32
  fsize := 1#32
  volbase := 0#32
  fatbase := 1#32
  dirbase := 3#32
  database := 4#32
  nFats_eq := by decide
  csize_eq := ⟨0, by decide, rfl⟩
  two_lt := by decide
  nFatent_le := by decide
  room := by decide
  reserved := by decide
  fsinfo := by decide
  fats := by decide
  inside := by decide

/-- Its window, with a change of the table to be written, and a disk that fails once. -/
def smallWindow : Window Disk where
  disk := ⟨fun _ _ => 0#8, fun k => if k = 0 then some fun _ _ => 0xFF#8 else none⟩
  winsect := 1#32
  win := fun _ => 7#8
  wflag := true

theorem tracked_smallLayout : smallLayout.Tracked 1#32 :=
  tracked_fatSector smallLayout (j := 0) (by decide)

theorem coherent_smallWindow : smallWindow.Coherent smallLayout :=
  ⟨fun _ => tracked_smallLayout, fun hfalse => by cases hfalse⟩

/-! ### Whole runs -/

/-- What can be done with the window. -/
inductive WinOp where
  | move (sector : BitVec 32)
  | edit (sector : BitVec 32) (f : Sector → Sector)
  | sync

def winStep (g : Geometry) (w : Window δ) : WinOp → FResult × Window δ
  | .move sector => moveWindow g w sector
  | .edit sector f => editWindow g w sector f
  | .sync => syncWindow g w

/-- Another sector is wanted, then the window is written back. -/
def smallRun : List WinOp := [.move 3#32, .sync]

/-- Only sectors that are kept track of are changed. -/
def EditsTracked (g : Geometry) : Window δ → WinOp → Prop
  | _, .edit sector _ => g.Tracked sector
  | _, _ => True

/-- What the changes that succeeded have made of the contents. -/
def contents (σ : BitVec 32 → Sector) : List (WinOp × FResult) → BitVec 32 → Sector
  | [] => σ
  | (.edit sector f, .ok) :: h => Function.update (contents σ h) sector (f (contents σ h sector))
  | _ :: h => contents σ h

theorem contents_edit_ok (σ : BitVec 32 → Sector) (s : BitVec 32) (f : Sector → Sector)
    (h : List (WinOp × FResult)) :
    contents σ ((.edit s f, .ok) :: h) = Function.update (contents σ h) s (f (contents σ h s)) := rfl

theorem contents_edit_err (σ : BitVec 32 → Sector) (s : BitVec 32) (f : Sector → Sector)
    (h : List (WinOp × FResult)) : contents σ ((.edit s f, .diskErr) :: h) = contents σ h := rfl

theorem contents_move (σ : BitVec 32 → Sector) (s : BitVec 32) (res : FResult)
    (h : List (WinOp × FResult)) : contents σ ((.move s, res) :: h) = contents σ h := by
  cases res <;> rfl

theorem contents_sync (σ : BitVec 32 → Sector) (res : FResult) (h : List (WinOp × FResult)) :
    contents σ ((.sync, res) :: h) = contents σ h := by
  cases res <;> rfl

section Runs

variable {g : Geometry} {w₀ w : Window δ} {h : List (WinOp × FResult)}

/-- What a step keeps: the window is coherent, the view is what the changes have made of it, and
a window that has just been written back is not to be written. -/
structure FaithfulAt (g : Geometry) (w₀ : Window δ) (h : List (WinOp × FResult)) (w : Window δ) : Prop where
  coherent : w.Coherent g
  view : ∀ s, g.Tracked s → w.view s = contents w₀.view h s
  synced : ∀ h', h = (.sync, .ok) :: h' → w.wflag = false

theorem faithfulAt_step (hinv : FaithfulAt g w₀ h w) {op : WinOp} (hok : EditsTracked g w op) :
    FaithfulAt g w₀ ((op, (winStep g w op).1) :: h) (winStep g w op).2 := by
  obtain ⟨hcoh, hview, -⟩ := hinv
  cases op with
  | move s =>
    obtain ⟨hkept, hsame, -⟩ := moveWindow_spec hcoh s
    refine ⟨hkept.coherent, fun t ht => ?_, by simp⟩
    rw [contents_move, ← hview t ht]
    exact hsame t ht
  | edit s f =>
    obtain ⟨hkept, hres⟩ := editWindow_spec hcoh hok f
    refine ⟨hkept.coherent, fun t ht => ?_, by simp⟩
    rcases hres with ⟨hres, hnew⟩ | ⟨⟨hres, -⟩, hsame⟩
    · simp only [winStep, hres, contents_edit_ok]
      rw [hnew t ht, hview s hok]
      by_cases hts : t = s
      · rw [hts, Function.update_self, Function.update_self]
      · rw [Function.update_of_ne hts, Function.update_of_ne hts, hview t ht]
    · simp only [winStep, hres, contents_edit_err]
      rw [hsame t ht, hview t ht]
  | sync =>
    obtain ⟨hkept, hsame, hres⟩ := syncWindow_spec hcoh
    refine ⟨hkept.coherent, fun t ht => ?_, ?_⟩
    · rw [contents_sync, ← hview t ht]
      exact hsame t ht
    · rintro h' heq
      have hresok : (syncWindow g w).1 = .ok := by
        injection heq with hhead
        exact congrArg Prod.snd hhead
      rcases hres with ⟨-, hclean⟩ | ⟨hres, -⟩
      · exact hclean
      · rw [hres] at hresok
        cases hresok

/-- **The window is faithful**: in every run of moves, changes and synchronizations, whichever
transfers fail, the volume holds what the changes that succeeded have made of it, and after a
synchronization that succeeded the disk alone does. -/
theorem windowFaithful (hw : w₀.Coherent g)
    (hr : Reach (fnStep (winStep g)) (EditsTracked g) w₀ h w) {s : BitVec 32} (hs : g.Tracked s) :
    w.view s = contents w₀.view h s ∧
      ∀ h', h = (.sync, .ok) :: h' → sectors w.disk s = contents w₀.view h s := by
  have hinv : FaithfulAt g w₀ h w :=
    hr.fnInvariant (FaithfulAt g w₀) ⟨hw, fun _ _ => rfl, by simp⟩
      fun _ _ _ hinv hok => faithfulAt_step hinv hok
  refine ⟨hinv.view s hs, fun h' heq => ?_⟩
  rw [← hinv.coherent.view_eq (hinv.synced h' heq) hs, hinv.view s hs]

/-- The write of the change fails when another sector is wanted, and is made up for by the
synchronization. -/
theorem windowFaithful_retried :
    sectors (runFn (winStep smallLayout) [] smallWindow smallRun).2.disk 1#32 =
      contents smallWindow.view (runFn (winStep smallLayout) [] smallWindow smallRun).1 1#32 := by
  have hok : OkAlong (winStep smallLayout) (EditsTracked smallLayout) smallWindow smallRun :=
    ⟨trivial, trivial, trivial⟩
  exact (windowFaithful coherent_smallWindow (reach_runFn hok) tracked_smallLayout).2 _ rfl

end Runs

/-! ### The second copy of the allocation table -/

section Copies

/-- The copy of the table is **in step**: it agrees with the table on the disk, except for a sector
that is still to be written. -/
def InStep (g : Geometry) (w : Window δ) : Prop :=
  ∀ j < g.fsize.toNat, (w.wflag = true → w.winsect ≠ g.fatbase + BitVec.ofNat 32 j) →
    sectors w.disk (g.fatbase + g.fsize + BitVec.ofNat 32 j) =
      sectors w.disk (g.fatbase + BitVec.ofNat 32 j)

/-- The write of a sector of the table is not followed by a failed write of its copy. -/
def CopyWritten (g : Geometry) (w : Window δ) (op : WinOp) : Prop :=
  EditsTracked g w op ∧ (w.wflag = true → w.HasCopy g → w.Twice g)

variable {l : Layout} {w : Window δ}

/-- A sector that is kept track of is stored, and not that one of the table. -/
theorem update_agrees {s : BitVec 32} (hs : l.Tracked s) (htwo : l.nFats = 2#8) {j : ℕ}
    (hj : j < l.fsize.toNat) (hne : s ≠ l.fatbase + BitVec.ofNat 32 j) {σ : BitVec 32 → Sector}
    (h : σ (l.fatbase + l.fsize + BitVec.ofNat 32 j) = σ (l.fatbase + BitVec.ofNat 32 j))
    (b : Sector) :
    Function.update σ s b (l.fatbase + l.fsize + BitVec.ofNat 32 j) =
      Function.update σ s b (l.fatbase + BitVec.ofNat 32 j) := by
  have hcopy : l.fatbase + l.fsize + BitVec.ofNat 32 j ≠ s := by
    rintro rfl
    exact hs.2.2 ⟨htwo, j, hj, rfl⟩
  rw [Function.update_of_ne hcopy, Function.update_of_ne hne.symm, h]

/-- `sync_window` keeps the copy in step. -/
theorem InStep.syncWindow (hin : InStep l w) (hcoh : w.Coherent l) (htwo : l.nFats = 2#8)
    (hcopy : w.wflag = true → w.HasCopy l → w.Twice l) : InStep l (syncWindow l w).2 := by
  rcases syncWindow_inv l.toGeometry w with ⟨-, heq⟩ |
    ⟨hflag, d, -, ⟨heq, -, left, hd⟩ | ⟨heq, ⟨hout, hd⟩ | ⟨hfat, b, hb, hd⟩⟩⟩
  · rwa [heq]
  · rw [heq]
    intro j hj hne
    have hwin : w.winsect ≠ l.fatbase + BitVec.ofNat 32 j := hne hflag
    simp only [hd]
    exact update_agrees (hcoh.tracked hflag) htwo hj hwin (hin j hj fun _ => hwin) left
  · rw [heq]
    intro j hj _
    have hwin : w.winsect ≠ l.fatbase + BitVec.ofNat 32 j := fun hcon =>
      hout ⟨(inFat_iff l _).mpr ⟨j, hj, hcon⟩, htwo⟩
    simp only [hd]
    exact update_agrees (hcoh.tracked hflag) htwo hj hwin (hin j hj fun _ => hwin) w.win
  · rw [heq]
    obtain ⟨i, hi, hwin⟩ := (inFat_iff l _).mp hfat.1
    have hplace : w.winsect + l.fsize = l.fatbase + l.fsize + BitVec.ofNat 32 i := by
      rw [hwin, BitVec.add_assoc, BitVec.add_comm (BitVec.ofNat 32 i), ← BitVec.add_assoc]
    intro j hj _
    simp only [hd, hb (hcopy hflag hfat), hplace]
    rw [Function.update_of_ne (fatSector_ne_copySector l htwo hj hi)]
    by_cases hij : j = i
    · rw [hij, Function.update_self, hwin, Function.update_self]
    · have hne : w.winsect ≠ l.fatbase + BitVec.ofNat 32 j := by
        rw [hwin]
        intro hcon
        have hnat := congrArg BitVec.toNat hcon
        rw [toNat_fatSector l hi, toNat_fatSector l hj] at hnat
        omega
      have hcopyne : l.fatbase + l.fsize + BitVec.ofNat 32 j ≠
          l.fatbase + l.fsize + BitVec.ofNat 32 i := by
        intro hcon
        have hnat := congrArg BitVec.toNat hcon
        rw [toNat_copySector l htwo hj, toNat_copySector l htwo hi] at hnat
        omega
      rw [Function.update_of_ne hcopyne]
      exact update_agrees (hcoh.tracked hflag) htwo hj hne (hin j hj fun _ => hne) w.win

/-- `move_window` keeps the copy in step. -/
theorem InStep.moveWindow (hin : InStep l w) (hcoh : w.Coherent l) (htwo : l.nFats = 2#8)
    (hcopy : w.wflag = true → w.HasCopy l → w.Twice l) (s : BitVec 32) :
    InStep l (moveWindow l w s).2 := by
  unfold FatFs.moveWindow
  by_cases hwin : s = w.winsect
  · rwa [if_neg (not_not.mpr hwin)]
  rw [if_pos hwin]
  have hin' := hin.syncWindow hcoh htwo hcopy
  obtain ⟨-, -, hres⟩ := syncWindow_spec hcoh
  generalize FatFs.syncWindow l.toGeometry w = r at hin' hres
  obtain ⟨res, w'⟩ := r
  simp only at hin' hres
  rcases hres with ⟨rfl, hclean⟩ | ⟨rfl, -⟩
  · -- another sector is only read
    have hall : ∀ j < l.fsize.toNat, sectors w'.disk (l.fatbase + l.fsize + BitVec.ofNat 32 j) =
        sectors w'.disk (l.fatbase + BitVec.ofNat 32 j) := fun j hj =>
      hin' j hj fun htrue => by
        rw [hclean] at htrue
        cases htrue
    have hread : sectors (diskRead w'.disk s 1).2 = sectors w'.disk := DiskIo.sectors_diskRead ..
    dsimp only
    split <;>
    · intro j hj _
      simp only [hread]
      exact hall j hj
  · exact hin'

theorem InStep.editWindow (hin : InStep l w) (hcoh : w.Coherent l) (htwo : l.nFats = 2#8)
    (hcopy : w.wflag = true → w.HasCopy l → w.Twice l) (s : BitVec 32)
    (f : Sector → Sector) : InStep l (editWindow l w s f).2 := by
  have hin' := hin.moveWindow hcoh htwo hcopy s
  obtain ⟨-, -, hres⟩ := moveWindow_spec hcoh s
  unfold FatFs.editWindow
  generalize FatFs.moveWindow l.toGeometry w s = r at hin' hres
  obtain ⟨res, w'⟩ := r
  simp only at hin' hres
  rcases hres with ⟨rfl, -⟩ | ⟨rfl, -⟩
  · exact fun j hj hne => hin' j hj fun _ => hne rfl
  · exact hin'

/-- **The two copies of the allocation table agree** after every synchronization that succeeded,
and are what the changes have made of the table, if no write of a sector of the table is followed by a
failed write of its copy; every other transfer may fail. -/
theorem copiesAgree {w₀ : Window δ} {h h' : List (WinOp × FResult)} (htwo : l.nFats = 2#8)
    (hw : w₀.Coherent l) (hin : InStep l w₀)
    (hr : Reach (fnStep (winStep l)) (CopyWritten l) w₀ h w) (hsync : h = (.sync, .ok) :: h')
    {j : ℕ} (hj : j < l.fsize.toNat) :
    sectors w.disk (l.fatbase + BitVec.ofNat 32 j) =
        contents w₀.view h (l.fatbase + BitVec.ofNat 32 j) ∧
      sectors w.disk (l.fatbase + l.fsize + BitVec.ofNat 32 j) =
        sectors w.disk (l.fatbase + BitVec.ofNat 32 j) := by
  have hinv : FaithfulAt l w₀ h w ∧ InStep l w := by
    refine hr.fnInvariant (fun h w => FaithfulAt l w₀ h w ∧ InStep l w)
      ⟨⟨hw, fun _ _ => rfl, by simp⟩, hin⟩ ?_
    rintro h w op ⟨hfaithful, hin⟩ ⟨htracked, hcopy⟩
    refine ⟨faithfulAt_step hfaithful htracked, ?_⟩
    cases op with
    | move s => exact hin.moveWindow hfaithful.coherent htwo hcopy s
    | edit s f => exact hin.editWindow hfaithful.coherent htwo hcopy s f
    | sync => exact hin.syncWindow hfaithful.coherent htwo hcopy
  obtain ⟨hfaithful, hin'⟩ := hinv
  have hclean := hfaithful.synced h' hsync
  have htracked := tracked_fatSector l hj
  refine ⟨?_, hin' j hj fun htrue => ?_⟩
  · rw [← hfaithful.coherent.view_eq hclean htracked, hfaithful.view _ htracked]
  · rw [hclean] at htrue
    cases htrue

theorem copiesAgree_small :
    sectors (runFn (winStep smallLayout) [] smallWindow smallRun).2.disk 1#32 =
        contents smallWindow.view (runFn (winStep smallLayout) [] smallWindow smallRun).1 1#32 ∧
      sectors (runFn (winStep smallLayout) [] smallWindow smallRun).2.disk 2#32 =
        sectors (runFn (winStep smallLayout) [] smallWindow smallRun).2.disk 1#32 := by
  have hok : OkAlong (winStep smallLayout) (CopyWritten smallLayout) smallWindow smallRun :=
    ⟨⟨trivial, by decide⟩, ⟨trivial, by decide⟩, trivial⟩
  exact copiesAgree rfl coherent_smallWindow (fun _ _ _ => rfl) (reach_runFn hok) rfl
    (show 0 < smallLayout.fsize.toNat by decide)

end Copies

end FatFs

end BareMetal
