import BareMetal.Runs
import BareMetal.FatFs.Calls

/-!
# The files of a volume

Several files are worked on in turn, each through an object of its own, over one window, one table and
one disk, whose transfers may fail and which keeps the contract `BareMetal.FatFs.DiskIo`. What the callers see of this is the specification of
`BareMetal.FatFs.Does` and `BareMetal.FatFs.Breaks`, file by file: a call changes the file it is
made on and **no other**, although the files share the window, the sectors of the directory and the
free clusters.

| theorem | what it is about |
|---|---|
| `BareMetal.FatFs.filesRefine` | any run, whichever transfers fail |
| `BareMetal.FatFs.filesExact` | a run on a sound volume: no failure, and no cluster is lost |
| `BareMetal.FatFs.syncSurvives` | what is left of the files when the power is cut after `f_sync` |

All three rest on one invariant (`BareMetal.FatFs.Holds`): each file stands for its state in the
specification, their chains share the table, and the directory entries are in no cluster of theirs. One
call keeps it (`BareMetal.FatFs.Holds.step`), since what a call spares (`BareMetal.FatFs.Around`) is
all that the other files consist of (`BareMetal.FatFs.Untouched`).
-/

namespace BareMetal

namespace FatFs

variable {δ : Type} [DiskIo δ]

/-! ### Several files -/

/-- A volume and the objects of its files. -/
structure Files (δ ι : Type) where
  vol : Vol δ
  fil : ι → OpenFil

/-- A call on one of the files, with what it reads besides: the volumes that are mounted and the
time. -/
structure FileOp (ι : Type) where
  vols : Volumes
  tm : BitVec 32
  file : ι
  call : FileCall

section Code

variable {ι : Type} [DecidableEq ι]

/-- One call. -/
def filesStep (g : Geometry) (slots : ι → Slot) (st : Files δ ι) (op : FileOp ι) :
    (FResult × List (BitVec 8)) × Files δ ι :=
  let r := op.call.run op.vols g op.tm (slots op.file) st.vol (st.fil op.file)
  (r.1, ⟨r.2.1, Function.update st.fil op.file r.2.2⟩)

end Code

section States

variable {ι : Type}

/-- The callers keep to what the calls ask of them. -/
def FitsAt (st : Files δ ι) (op : FileOp ι) : Prop := op.call.Fits (st.fil op.file)

/-- The directory entries do not overlap. -/
structure Directory (slots : ι → Slot) : Prop where
  ptr : ∀ i, (slots i).ptr + 32 ≤ 512
  apart : ∀ i j, i ≠ j → (slots i).sect = (slots j).sect →
    (slots i).ptr + 32 ≤ (slots j).ptr ∨ (slots j).ptr + 32 ≤ (slots i).ptr

/-- **What stands for the files**, whose entries have these attributes. -/
structure Holds (l : Layout) (slots : ι → Slot) (attr : ι → BitVec 8) (st : Files δ ι)
    (own : ι → List (BitVec 32)) (a : ι → FileSpec) : Prop where
  coherent : st.vol.window.Coherent l
  attrs : ∀ i, protection st.vol.window (slots i).sect (slots i).ptr = attr i
  shared : SharedIn l (st.vol.table l) own
  stands : ∀ i, Stands l (slots i) st.vol (own i) (st.fil i) (a i)
  dirs : ∀ i j, Foreign l (st.vol.table l) (own j) (slots i).sect

end States

/-! ### A small volume -/

/-- Two entries in the root directory of a small volume. -/
def smallSlots (file : Bool) : Slot := ⟨3#32, if file = true then 32 else 0⟩

/-- The small volume, empty, on a disk that works and with the count of its free clusters, and two
objects that are not in use. -/
def smallFiles : Files Disk Bool where
  vol := ⟨⟨⟨fun _ _ => 0#8, fun _ => none⟩, noSector, fun _ => 0#8, false⟩, 0#32, 10#32, 0#8⟩
  fil _ := ⟨.blank, 0#32, 0#32, fun _ => 0#8, 0#32, 0⟩

/-- It is mounted as the card. -/
def smallVolumes : Volumes where
  fatFs _ := some .sd
  fatfs _ := ⟨1, 0, 1#16⟩
  fsid := 1#16
  currVol := 0
  status _ := 0#8

def smallOp (file : Bool) (call : FileCall) : FileOp Bool := ⟨smallVolumes, 0x54A00000#32, file, call⟩

theorem directory_smallSlots : Directory smallSlots :=
  ⟨by decide, by decide⟩

theorem foreign_small (F : Entries) (chain : List (BitVec 32)) : Foreign smallLayout F chain 3#32 := by
  refine ⟨⟨by decide, fun hcon => (by cases hcon), ?_⟩, by decide, fun c k hc hk heq => ?_⟩
  · rintro ⟨-, j, hj, heq⟩
    obtain rfl : j = 0 := Nat.lt_one_iff.mp hj
    exact absurd heq (by decide)
  · have hdata := inData_sectorIn hc hk
    rw [← heq] at hdata
    exact absurd hdata.1 (by decide)

/-- Both files are there, and empty. -/
theorem holds_smallFiles : Holds smallLayout smallSlots (fun _ => 0#8) smallFiles (fun _ => [])
    fun _ => .closed (fun _ => none) 0 where
  coherent := ⟨fun hfalse => (by cases hfalse), fun _ _ => rfl⟩
  attrs i := by cases i <;> rfl
  shared := ⟨fun _ a ha => (by cases ha), fun _ _ _ a ha => (by cases ha)⟩
  stands i := ⟨rfl, fun _ _ => rfl, 0#32, rfl, .empty (by cases i <;> rfl) (by cases i <;> rfl)⟩
  dirs i j := foreign_small _ _

/-- Both files are opened, and one is written and read back. -/
def smallCalls : List (FileOp Bool) :=
  [smallOp false (.fOpen .sd 0x0B#8), smallOp true (.fOpen .sd 0x01#8),
    smallOp false (.fWrite [0x41#8, 0x42#8]), smallOp false (.fLseek 1#32), smallOp false (.fRead 4#32)]

def smallFilesRun : List (FileOp Bool × (FResult × List (BitVec 8))) × Files Disk Bool :=
  runFn (filesStep smallLayout smallSlots) [] smallFiles smallCalls

theorem fitsAlong_smallCalls : OkAlong (filesStep smallLayout smallSlots) FitsAt smallFiles smallCalls :=
  ⟨rfl, rfl, (by decide : 2 < 2 ^ 32), trivial, trivial, trivial⟩

/-! ### The other files -/

section Files

variable {ι : Type} {l : Layout} {slots : ι → Slot} {attr : ι → BitVec 8} {st : Files δ ι}
  {own : ι → List (BitVec 32)} {a : ι → FileSpec} {i j : ι}

/-- What a file consists of is as it was. -/
structure Untouched (l : Layout) (slot : Slot) (chain : List (BitVec 32)) (w w' : Window δ) : Prop where
  coherent : w'.Coherent l
  entries : ∀ c ∈ chain, fatEntry l w'.view c = fatEntry l w.view c
  views : ∀ k < sectorCount l chain, w'.view (sectorOf l chain k) = w.view (sectorOf l chain k)
  bytes : ∀ i < 32, peek (w'.view slot.sect) (slot.ptr + i) = peek (w.view slot.sect) (slot.ptr + i)
  apart : (∀ k < sectorCount l chain, w.winsect ≠ sectorOf l chain k) →
    ∀ k < sectorCount l chain, w'.winsect ≠ sectorOf l chain k

/-- A file that is not touched stands for what it stood for. -/
theorem Stands.of_untouched {slot : Slot} {v v' : Vol δ} {chain : List (BitVec 32)} {f : OpenFil}
    {x : FileSpec} (h : Stands l slot v chain f x) (hout : Untouched l slot chain v.window v'.window) :
    Stands l slot v' chain f x := by
  cases x with
  | closed c n =>
    obtain ⟨hfs, hwithin, size, hsize, hrests⟩ := h
    exact ⟨hfs, hwithin, size, hsize, hrests.of_window hout.entries hout.views hout.bytes⟩
  | opened o c n pos =>
    have hlive : Live l slot v chain f o c n pos := h
    refine { hlive with
      core := hlive.core.of_window hout.coherent hout.entries hout.views (hout.apart hlive.core.apart)
      entry := fun hmod => (hlive.entry hmod).congr rfl rfl rfl rfl ?_ }
    rw [hlive.dirSect, hlive.dirPtr]
    exact hout.bytes
  | failed o => exact h

/-- **A call on one file does not touch another.** -/
theorem Holds.untouched (h : Holds l slots attr st own a) (hslots : Directory slots) (hne : j ≠ i) {v' : Vol δ}
    (haround : Around l (own i) (slots i).sect (slots i).ptr st.vol v') :
    Untouched l (slots j) (own j) st.vol.window v'.window := by
  have hnodes : ∀ c ∈ own j, l.Cluster c := fun c hc => h.shared.nodes hc
  have hused : ∀ c ∈ own j, st.vol.table l c ≠ 0#32 := fun c hc => SharedIn.used h.shared hc
  have hapart : ∀ c ∈ own j, c ∉ own i := h.shared.apart j i hne
  refine ⟨haround.kept.coherent, fun c hc => haround.entries c (hnodes c hc) (hused c hc) (hapart c hc),
    fun k hk => ?_, fun b hb => ?_, fun hold k hk => ?_⟩
  · exact haround.sectors _ (foreign_sectorOf hnodes hused hapart hk)
      (ne_sectorOf_of_foreign (h.dirs i j) hnodes hk).symm
  · have hptr := hslots.ptr j
    by_cases hsect : (slots j).sect = (slots i).sect
    · rw [hsect]
      have hdisjoint := hslots.apart j i hne hsect
      exact haround.slot _ (by omega) (by omega)
    · rw [haround.sectors _ (h.dirs j i) hsect]
  · -- the window has stayed, or is outside the clusters, or is over the directory
    rcases haround.place with heq | hout | heq
    · rw [heq]
      exact hold k hk
    · exact fun heq => hout (heq ▸ inData_sectorOf hnodes hk)
    · rw [heq]
      exact ne_sectorOf_of_foreign (h.dirs i j) hnodes hk

theorem Stands.linked {slot : Slot} {v : Vol δ} {chain : List (BitVec 32)} {f : OpenFil} {x : FileSpec}
    (h : Stands l slot v chain f x) :
    ∀ a ∈ chain.head?, Linked (v.table l) l.Cluster l.End a chain := by
  cases x with
  | closed c n =>
    obtain ⟨-, -, size, -, hrests⟩ := h
    exact hrests.linked
  | opened o c n pos => exact Live.core h |>.linked
  | failed o =>
    obtain ⟨-, -, -, rfl⟩ := h
    exact fun a ha => (by cases ha)

/-- **One call.** The file it is made on does what its specification allows, and the others stand for
what they stood for. -/
theorem Holds.step [DecidableEq ι] (h : Holds l slots attr st own a) (hslots : Directory slots)
    {op : FileOp ι} (hfits : FitsAt st op) :
    ∃ chain' x', Served l (slots op.file) op.vols st.vol (own op.file) (a op.file) op.call
        (op.call.run op.vols l op.tm (slots op.file) st.vol (st.fil op.file)) chain' x' ∧
      Holds l slots attr (filesStep l slots st op).2 (Function.update own op.file chain')
        (Function.update a op.file x') := by
  obtain ⟨chain', x', hserved⟩ := (h.stands op.file).served op.vols h.coherent (h.dirs _ _)
    (hslots.ptr _) hfits op.tm
  refine ⟨chain', x', hserved, ?_⟩
  unfold filesStep
  generalize op.call.run op.vols l.toGeometry op.tm (slots op.file) st.vol (st.fil op.file) = r at hserved
  obtain ⟨out, v', f'⟩ := r
  have haround := hserved.around
  have hgrows := hserved.grows
  have hnew := hserved.stands
  simp only at haround hnew ⊢
  refine ⟨haround.kept.coherent, fun j => ?_,
    SharedIn.change h.shared haround.entries hnew.linked hgrows, fun j => ?_, fun i j => ?_⟩
  · rw [← h.attrs j]
    by_cases hj : j = op.file
    · rw [hj]
      exact haround.protection
    · have hbyte := (h.untouched hslots hj haround).bytes 11 (by decide)
      rw [protection, protection, hbyte]
  · by_cases hj : j = op.file
    · subst hj
      simp only [Function.update_self]
      exact hnew
    · simp only [Function.update_of_ne hj]
      exact (h.stands j).of_untouched (h.untouched hslots hj haround)
  · -- a sector of the directory that is in a cluster is in one that is in use, but not by a file
    have hforeign := (h.dirs i op.file).of_entries haround.entries hgrows
    by_cases hj : j = op.file
    · subst hj
      simp only [Function.update_self]
      exact hforeign
    · simp only [Function.update_of_ne hj]
      exact ⟨hforeign.1, hforeign.2.1, fun c k hc hk heq =>
        ⟨(hforeign.2.2 c k hc hk heq).1, ((h.dirs i j).2.2 c k hc hk heq).2⟩⟩

/-! ### Any run -/

/-- A step of the specification: a call changes the file it is made on and no other. -/
def specStep [DecidableEq ι] (attr : ι → BitVec 8) (a : ι → FileSpec) (op : FileOp ι)
    (out : FResult × List (BitVec 8)) (a' : ι → FileSpec) : Prop :=
  ∃ x', (Does op.vols (attr op.file) True (a op.file) op.call out x' ∨ Breaks (a op.file) op.call out x') ∧
    a' = Function.update a op.file x'

/-- The volume may be full at any time, as far as this is not said. -/
theorem Does.mono {vols : Volumes} {attr : BitVec 8} {full full' : Prop} {x x' : FileSpec} {call : FileCall}
    {out : FResult × List (BitVec 8)} (h : Does vols attr full x call out x') (hfull : full → full') :
    Does vols attr full' x call out x' := by
  cases h with
  | unopen hcall => exact .unopen hcall
  | barred hres => exact .barred hres
  | opens hres ho => exact .opens hres ho
  | refused hres => exact .refused hres
  | dead hres => exact .dead hres
  | reads hres hlen hbytes => exact .reads hres hlen hbytes
  | writes hres hle hshort => exact .writes hres hle fun hlt => (hshort hlt).imp_left hfull
  | seeks hres hle hshort => exact .seeks hres hle fun hlt => (hshort hlt).imp_left hfull
  | truncates hres => exact .truncates hres
  | syncs hres => exact .syncs hres
  | closes hres => exact .closes hres

variable [DecidableEq ι] {st₀ : Files δ ι} {own₀ : ι → List (BitVec 32)} {a₀ : ι → FileSpec}
  {h : List (FileOp ι × (FResult × List (BitVec 8)))}

theorem Holds.run (hslots : Directory slots) (hstart : Holds l slots attr st₀ own₀ a₀)
    (hr : Reach (fnStep (filesStep l slots)) FitsAt st₀ h st) :
    ∃ own a, Holds l slots attr st own a ∧ Reach (specStep attr) Always a₀ h a := by
  refine hr.fnInvariant
    (fun h st => ∃ own a, Holds l slots attr st own a ∧ Reach (specStep attr) Always a₀ h a)
    ⟨own₀, a₀, hstart, .start⟩ ?_
  rintro h st op ⟨own, a, hholds, hreach⟩ hfits
  obtain ⟨chain', x', hserved, hholds'⟩ := hholds.step hslots hfits
  refine ⟨_, _, hholds', hreach.next trivial ⟨x', ?_, rfl⟩⟩
  refine hserved.outcome.imp (fun hdoes => ?_) fun hbreaks => hbreaks.1
  rw [← hholds.attrs op.file]
  exact hdoes.1.mono fun _ => trivial

/-- **The calls refine their specification**, on any number of files in any order, whichever transfers
fail: each returns what the specification of its file allows, and leaves every other file with the
content, the size and the position it had. -/
theorem filesRefine (hslots : Directory slots) (hstart : Holds l slots attr st₀ own₀ a₀)
    (hr : Reach (fnStep (filesStep l slots)) FitsAt st₀ h st) :
    ∃ own a, Reach (specStep attr) Always a₀ h a ∧ Holds l slots attr st own a := by
  obtain ⟨own, a, hholds, hreach⟩ := Holds.run hslots hstart hr
  exact ⟨own, a, hreach, hholds⟩

theorem filesRefine_small : ∃ own a, Reach (specStep fun _ => 0#8) Always
    (fun _ => .closed (fun _ => none) 0) smallFilesRun.1 a ∧
      Holds smallLayout smallSlots (fun _ => 0#8) smallFilesRun.2 own a :=
  filesRefine directory_smallSlots holds_smallFiles (reach_runFn fitsAlong_smallCalls)

/-! ### Runs on a sound volume -/

/-- The clusters so many bytes need. -/
def clustersOf (g : Geometry) (n : ℕ) : ℕ := (n + g.csize.toNat * 512 - 1) / (g.csize.toNat * 512)

omit [DecidableEq ι] in
/-- A file has the clusters it needs. -/
theorem Stands.length_eq {slot : Slot} {v : Vol δ} {chain : List (BitVec 32)} {f : OpenFil} {x : FileSpec}
    (h : Stands l slot v chain f x) (htight : Tight l chain x.size) :
    chain.length = clustersOf l x.size := by
  have hroom : x.size ≤ chain.length * (l.csize.toNat * 512) := by
    rw [← Stream.mul_sectorCount]
    cases x with
    | closed c n =>
      obtain ⟨-, -, size, rfl, hrests⟩ := h
      exact hrests.room
    | opened o c n pos =>
      have hlive : Live l slot v chain f o c n pos := h
      have hsize := hlive.core.size
      rw [hlive.size] at hsize
      exact hsize
    | failed o => exact Nat.zero_le _
  have hpos := csize_pos l
  unfold Tight at htight
  rw [clustersOf]
  refine (Nat.div_eq_of_lt_le ?_ ?_).symm
  · omega
  · rw [Nat.succ_mul]
    omega

end Files

/-- The clusters that are free or in a chain. -/
theorem freeCount_add_length {l : Layout} {F : Entries} {chain : List (BitVec 32)}
    (hnodes : ∀ c ∈ chain, l.Cluster c) (hnodup : chain.Nodup) (hused : ∀ c ∈ chain, F c ≠ 0#32) :
    freeCount l F + chain.length = ((Finset.Ico 2 l.nFatent.toNat).filter fun n =>
      F (BitVec.ofNat 32 n) = 0#32 ∨ BitVec.ofNat 32 n ∈ chain).card := by
  have himage : ((Finset.Ico 2 l.nFatent.toNat).filter fun n => BitVec.ofNat 32 n ∈ chain) =
      chain.toFinset.image BitVec.toNat := by
    ext n
    rw [Finset.mem_filter, Finset.mem_image]
    constructor
    · rintro ⟨hn, hmem⟩
      exact ⟨_, List.mem_toFinset.mpr hmem, (cluster_of_mem_Ico hn).2⟩
    · rintro ⟨c, hmem, rfl⟩
      have hc := List.mem_toFinset.mp hmem
      refine ⟨Finset.mem_Ico.mpr ⟨two_le_of_cluster (hnodes c hc), BitVec.lt_def.mp (hnodes c hc).2⟩, ?_⟩
      rwa [BitVec.ofNat_toNat, BitVec.setWidth_eq]
  have hcard : ((Finset.Ico 2 l.nFatent.toNat).filter fun n => BitVec.ofNat 32 n ∈ chain).card =
      chain.length := by
    rw [himage, Finset.card_image_of_injective _ fun _ _ => BitVec.eq_of_toNat_eq,
      List.toFinset_card_of_nodup hnodup]
  rw [Finset.filter_or, Finset.card_union_of_disjoint, hcard, freeCount]
  exact Finset.disjoint_filter.mpr fun n _ hfree hmem => hused _ hmem hfree

/-- **No cluster is lost**: what a file gains is no longer free, and what it loses is. -/
theorem Accounts.freeCount_add {l : Layout} {F F' : Entries} {chain chain' : List (BitVec 32)}
    (h : Accounts l F F' chain chain') (hgrows : Grows F chain chain')
    (hchain : ∀ a ∈ chain.head?, Linked F l.Cluster l.End a chain)
    (hchain' : ∀ a ∈ chain'.head?, Linked F' l.Cluster l.End a chain') :
    freeCount l F' + chain'.length = freeCount l F + chain.length := by
  rw [freeCount_add_length (linked_nodes hchain) (linked_nodup hchain) (linked_used hchain),
    freeCount_add_length (linked_nodes hchain') (linked_nodup hchain') (linked_used hchain')]
  refine congrArg Finset.card (Finset.filter_congr fun n hn => ?_)
  have hc := (cluster_of_mem_Ico hn).1
  generalize BitVec.ofNat 32 n = c at hc
  by_cases hmem : c ∈ chain'
  · have hold := (hgrows c hmem).symm
    exact ⟨fun _ => hold, fun _ => Or.inr hmem⟩
  · have hiff := h c hc hmem
    constructor
    · rintro (hfree | hin)
      · by_contra hcon
        obtain ⟨hne, hnot⟩ := not_or.mp hcon
        exact hiff.mpr ⟨hne, hnot⟩ hfree
      · exact absurd hin hmem
    · rintro (hfree | hin)
      · exact Or.inl (not_not.mp fun hcon => (hiff.mp hcon).1 hfree)
      · exact Or.inl (not_not.mp fun hcon => (hiff.mp hcon).2 hin)

/-- A full volume has no free cluster, if the count is right. -/
theorem Full.freeCount_eq {l : Layout} {v : Vol δ} (h : Full l v) (hexact : FreeExact l v) :
    freeCount l (v.table l) = 0 := by
  rcases h with hnone | hall
  · have hcount := hexact (by rw [hnone, BitVec.le_def]; exact Nat.zero_le _)
    rw [← hcount, hnone]
    rfl
  · rw [freeCount, Finset.card_eq_zero, Finset.filter_eq_empty_iff]
    exact fun n hn => hall _ (cluster_of_mem_Ico hn).1

section Sound

variable {ι : Type} [DecidableEq ι] {l : Layout} {slots : ι → Slot} {attr : ι → BitVec 8} {st st₀ : Files δ ι}
  {own own₀ : ι → List (BitVec 32)} {a a₀ : ι → FileSpec}
  {h : List (FileOp ι × (FResult × List (BitVec 8)))}

/-- Files and the space that is left. -/
structure Store (ι : Type) where
  file : ι → FileSpec
  free : ℕ

/-- A step of the specification on a sound volume: a call does what it should, it stops short only if
no cluster is free any more, and it takes and gives back the clusters by which the size of the file
changes. -/
def storeStep (g : Geometry) (attr : ι → BitVec 8) (s : Store ι) (op : FileOp ι)
    (out : FResult × List (BitVec 8)) (s' : Store ι) : Prop :=
  ∃ x', Does op.vols (attr op.file) (s'.free = 0) (s.file op.file) op.call out x' ∧
    s'.file = Function.update s.file op.file x' ∧
    s'.free + clustersOf g x'.size = s.free + clustersOf g (s.file op.file).size

/-- A sound volume. -/
structure SoundVol (l : Layout) (v : Vol δ) : Prop where
  good : Good l v
  exact : FreeExact l v

/-- Every file has the clusters it needs and no more. -/
def Trim (l : Layout) (own : ι → List (BitVec 32)) (a : ι → FileSpec) : Prop :=
  ∀ i, Tight l (own i) (a i).size

/-- One call on a sound volume. -/
theorem Holds.soundStep (hholds : Holds l slots attr st own a) (hslots : Directory slots)
    (hsound : SoundVol l st.vol) (htrim : Trim l own a) {op : FileOp ι} (hfits : FitsAt st op) :
    ∃ own' a', Holds l slots attr (filesStep l slots st op).2 own' a' ∧
      SoundVol l (filesStep l slots st op).2.vol ∧ Trim l own' a' ∧
      storeStep l attr ⟨a, freeCount l (st.vol.table l)⟩ op (filesStep l slots st op).1
        ⟨a', freeCount l ((filesStep l slots st op).2.vol.table l)⟩ := by
  obtain ⟨chain', x', hserved, hholds'⟩ := hholds.step hslots hfits
  have hnew : Stands l (slots op.file) (filesStep l slots st op).2.vol chain' _ x' := hserved.stands
  have hgood' : SoundVol l (filesStep l slots st op).2.vol :=
    ⟨hserved.around.good hsound.good, hserved.around.count hsound.good hsound.exact⟩
  rcases hserved.outcome with ⟨hdoes, haccounts, htight⟩ | ⟨-, hbad⟩
  · have htight' := htight (htrim op.file)
    rw [hholds.attrs] at hdoes
    refine ⟨_, _, hholds', hgood', fun j => ?_, x', hdoes.mono fun hfull => hfull.freeCount_eq hgood'.exact,
      rfl, ?_⟩
    · by_cases hj : j = op.file
      · subst hj
        simpa only [Function.update_self] using htight'
      · simpa only [Function.update_of_ne hj] using htrim j
    · rw [← hnew.length_eq htight', ← (hholds.stands op.file).length_eq (htrim op.file)]
      exact haccounts.freeCount_add hserved.grows (hholds.stands op.file).linked hnew.linked
  · exact absurd hsound.good hbad

/-- **On a sound volume the calls do exactly what they should**, in every run: none fails, a write or
a seek stops short only when no cluster is free, and in between the free clusters and those the sizes
of the files account for add up to the same number. -/
theorem filesExact (hslots : Directory slots) (hstart : Holds l slots attr st₀ own₀ a₀)
    (hsound : SoundVol l st₀.vol) (htrim : Trim l own₀ a₀)
    (hr : Reach (fnStep (filesStep l slots)) FitsAt st₀ h st) :
    ∃ own a, Reach (storeStep l attr) Always ⟨a₀, freeCount l (st₀.vol.table l)⟩ h
        ⟨a, freeCount l (st.vol.table l)⟩ ∧
      Holds l slots attr st own a ∧ ∀ i, (own i).length = clustersOf l (a i).size := by
  obtain ⟨own, a, hholds, -, htrim, hreach⟩ :=
    hr.fnInvariant (fun h st => ∃ own a, Holds l slots attr st own a ∧ SoundVol l st.vol ∧ Trim l own a ∧
      Reach (storeStep l attr) Always ⟨a₀, freeCount l (st₀.vol.table l)⟩ h ⟨a, freeCount l (st.vol.table l)⟩)
      ⟨own₀, a₀, hstart, hsound, htrim, .start⟩ (by
        rintro h st op ⟨own, a, hholds, hsound, htrim, hreach⟩ hfits
        obtain ⟨own', a', hholds', hsound', htrim', hstep⟩ := hholds.soundStep hslots hsound htrim hfits
        exact ⟨own', a', hholds', hsound', htrim', hreach.next trivial hstep⟩)
  exact ⟨own, a, hreach, hholds, fun i => (hholds.stands i).length_eq (htrim i)⟩

/-- The small volume is sound. -/
theorem soundVol_smallFiles : SoundVol smallLayout smallFiles.vol := by
  refine ⟨⟨Disk.works fun _ => rfl, fun c hc => ?_⟩, fun _ => by decide +kernel⟩
  have hlow := two_le_of_cluster hc
  have hhigh : c.toNat < 12 := BitVec.lt_def.mp hc.2
  have hall : ∀ n < 12, smallFiles.vol.table smallLayout (BitVec.ofNat 32 n) ≠ 1#32 := by decide
  have hne := hall c.toNat hhigh
  rwa [BitVec.ofNat_toNat, BitVec.setWidth_eq] at hne

theorem filesExact_small : ∃ own a, Reach (storeStep smallLayout fun _ => 0#8) Always
    ⟨fun _ => .closed (fun _ => none) 0, freeCount smallLayout (smallFiles.vol.table smallLayout)⟩
      smallFilesRun.1 ⟨a, freeCount smallLayout (smallFilesRun.2.vol.table smallLayout)⟩ ∧
      Holds smallLayout smallSlots (fun _ => 0#8) smallFilesRun.2 own a ∧
      ∀ i, (own i).length = clustersOf smallLayout (a i).size :=
  filesExact directory_smallSlots holds_smallFiles soundVol_smallFiles (fun _ => tight_nil _ _)
    (reach_runFn fitsAlong_smallCalls)

end Sound

/-! ### The power is cut -/

/-- A file whose content is not in its object only. -/
def Settled (f : OpenFil) : FileSpec → Prop
  | .closed _ _ => True
  | .opened _ _ _ _ => f.modified = false
  | .failed _ => False

/-- What is left of a file without its object. -/
def FileSpec.stored : FileSpec → FileSpec
  | .opened _ c n _ => .closed c n
  | x => x

/-- A volume that has been mounted anew, from a disk with these sectors. -/
structure Mounted (l : Layout) (σ : BitVec 32 → Sector) (v : Vol δ) : Prop where
  clean : v.window.wflag = false
  coherent : v.window.Coherent l
  stored : sectors v.window.disk = σ

section Power

variable {ι : Type} {l : Layout} {slots : ι → Slot} {attr : ι → BitVec 8} {st st₀ : Files δ ι}
  {own own₀ : ι → List (BitVec 32)} {a a₀ : ι → FileSpec} {v v' : Vol δ}

/-- A volume whose window has been written is seen again. -/
theorem Mounted.sameView (h : Mounted l (sectors v.window.disk) v') (hcoh : v.window.Coherent l)
    (hclean : v.window.wflag = false) : SameView l v.window v'.window := by
  intro s hs
  rw [h.coherent.view_eq h.clean hs, h.stored, hcoh.view_eq hclean hs]

theorem Stands.stored {slot : Slot} {chain : List (BitVec 32)} {f f' : OpenFil} {x : FileSpec}
    (h : Stands l slot v chain f x) (hset : Settled f x) (hsame : SameView l v.window v'.window)
    (hsect : l.Tracked slot.sect) (hfs : f'.obj.fs = none) : Stands l slot v' chain f' x.stored := by
  cases x with
  | closed c n =>
    obtain ⟨-, hwithin, size, hsize, hrests⟩ := h
    exact ⟨hfs, hwithin, size, hsize, hrests.of_sameView hsect hsame⟩
  | opened o c n pos =>
    have hlive : Live l slot v chain f o c n pos := h
    have hmod : f.modified = false := hset
    have hrests := hlive.rests hmod
    exact ⟨hfs, hlive.within, _, hlive.size, hrests.of_sameView hsect hsame⟩
  | failed o => exact absurd hset id

/-- **The files that are settled are on the disk**, if the window has been written. -/
theorem Holds.remount (h : Holds l slots attr st own a) (hclean : st.vol.window.wflag = false)
    {P : ι → Prop} (hset : ∀ i, P i → Settled (st.fil i) (a i)) {st₁ : Files δ {i // P i}}
    (hmount : Mounted l (sectors st.vol.window.disk) st₁.vol) (hfs : ∀ i, (st₁.fil i).obj.fs = none) :
    Holds l (fun i : {i // P i} => slots i) (fun i => attr i) st₁ (fun i => own i)
      fun i => (a i).stored := by
  have hsame := hmount.sameView h.coherent hclean
  have htable : st₁.vol.table l = st.vol.table l := funext (hsame.fatEntry l)
  refine ⟨hmount.coherent, fun i => ?_, ?_, fun i => ?_, fun i j => ?_⟩
  · rw [protection_congr (hsame _ (h.dirs i i).1)]
    exact h.attrs i
  · rw [htable]
    exact ⟨fun i => h.shared.linked i, fun i j hne => h.shared.apart i j fun heq => hne (Subtype.ext heq)⟩
  · exact (h.stands i).stored (hset i i.2) hsame (h.dirs i i).1 (hfs i)
  · rw [htable]
    exact h.dirs i j

theorem Directory.restrict (h : Directory slots) (P : ι → Prop) :
    Directory fun i : {i // P i} => slots i :=
  ⟨fun i => h.ptr i, fun i j hne => h.apart i j fun heq => hne (Subtype.ext heq)⟩

/-- After a successful `f_sync` or `f_close` of a file that had been modified, the window has been
written. -/
theorem Stands.run_sync {slot : Slot} {chain : List (BitVec 32)} {f : OpenFil} {x : FileSpec}
    {vols : Volumes} {call : FileCall} {tm : BitVec 32} (h : Stands l slot v chain f x)
    (hdir : Foreign l (v.table l) chain slot.sect) (hptr : slot.ptr + 32 ≤ 512) (hfits : call.Fits f)
    (hcall : call = .fSync ∨ call = .fClose) (hmod : f.modified = true)
    (hok : (call.run vols l tm slot v f).1.1 = .ok) :
    (call.run vols l tm slot v f).2.1.window.wflag = false ∧
      (call.run vols l tm slot v f).2.2.modified = false ∧ (call.run vols l tm slot v f).2.2.err = .ok := by
  cases x with
  | closed c n =>
    rw [run_of_unopen h.fs (by rintro p mode rfl; rcases hcall with hcon | hcon <;> cases hcon)] at hok
    cases hok
  | failed o =>
    obtain ⟨rfl, hfs, herr, -⟩ := h
    have hcon : f.err = .ok ∨ f.obj.fs = none := by
      rcases hcall with rfl | rfl
      · exact hfits
      · exact hfits
    exact absurd hcon (not_or.mpr ⟨herr, hfs⟩)
  | opened o c n pos =>
    have hlive : Live l slot v chain f o c n pos := h
    rcases hlive.fSync_ends vols hdir hptr tm with
      ⟨res, -, hne, heq⟩ | ⟨hvalid, s', -, -, hlive', ⟨heq, hmod', hwritten⟩ | ⟨heq, -⟩⟩
    · rcases hcall with rfl | rfl
      · simp only [FileCall.run, heq] at hok
        exact absurd hok hne
      · simp only [FileCall.run, fClose_of_ne heq hne] at hok
        exact absurd hok hne
    · have herr : s'.fil.err = .ok := by
        have hhandle := congrArg Handle.err hlive'.handle
        exact hhandle.trans hlive'.err
      have hstill : validate vols s'.fil.obj = .ok := (hlive'.validity_eq vols).trans hvalid
      rcases hcall with rfl | rfl
      · simp only [FileCall.run, heq]
        exact ⟨hwritten hmod, hmod', herr⟩
      · simp only [FileCall.run, fClose_of_ok heq hstill]
        exact ⟨hwritten hmod, hmod', herr⟩
    · rcases hcall with rfl | rfl
      · simp only [FileCall.run, heq] at hok
        cases hok
      · simp only [FileCall.run, fClose_of_ne heq (by decide)] at hok
        cases hok

theorem Stands.settled {slot : Slot} {chain : List (BitVec 32)} {f : OpenFil} {x : FileSpec}
    (h : Stands l slot v chain f x) (hmod : f.modified = false) (herr : f.err = .ok) : Settled f x := by
  cases x with
  | closed c n => trivial
  | opened o c n pos => exact hmod
  | failed o =>
    obtain ⟨rfl, -, hne, -⟩ := h
    exact hne herr

variable [DecidableEq ι] {h : List (FileOp ι × (FResult × List (BitVec 8)))}

/-- **What has been synchronized survives.** When `f_sync` or `f_close` of a file that is still marked with
`FA_MODIFIED` reports success, and the power is cut right then, that file is on the disk, and with it every
file that is closed or not marked: whoever mounts the disk again finds each with the content and the size
it had, and can go on from there. A call whose `sync_fs` fails takes the mark away as well, so the success
of the call after it is no such report. -/
theorem syncSurvives (hslots : Directory slots) (hstart : Holds l slots attr st₀ own₀ a₀)
    (hr : Reach (fnStep (filesStep l slots)) FitsAt st₀ h st) {op : FileOp ι} (hfits : FitsAt st op)
    (hcall : op.call = .fSync ∨ op.call = .fClose) (hmod : (st.fil op.file).modified = true)
    {out : FResult × List (BitVec 8)} {st' : Files δ ι} (hstep : filesStep l slots st op = (out, st'))
    (hok : out.1 = .ok) :
    ∃ a, Reach (specStep attr) Always a₀ ((op, out) :: h) a ∧
      Settled (st'.fil op.file) (a op.file) ∧
      ∀ (st₁ st₂ : Files δ {i // Settled (st'.fil i) (a i)}) (h₁ : List (FileOp _ × _)),
        Mounted l (sectors st'.vol.window.disk) st₁.vol → (∀ i, (st₁.fil i).obj.fs = none) →
        Reach (fnStep (filesStep l fun i => slots i.1)) FitsAt st₁ h₁ st₂ →
        ∃ b, Reach (specStep fun i => attr i.1) Always (fun i => (a i.1).stored) h₁ b := by
  obtain ⟨own, a, hholds, -⟩ := Holds.run hslots hstart hr
  obtain ⟨own', a', hholds', hreach'⟩ := Holds.run hslots hstart (hr.next hfits hstep)
  obtain ⟨rfl, rfl⟩ := Prod.mk.inj hstep
  obtain ⟨hclean, hunmod, herr⟩ := (hholds.stands op.file).run_sync (hholds.dirs _ _) (hslots.ptr _) hfits
    hcall hmod hok
  refine ⟨a', hreach', (hholds'.stands op.file).settled ?_ ?_, fun st₁ st₂ h₁ hmount hfs hr₁ => ?_⟩
  · simp only [Function.update_self]
    exact hunmod
  · simp only [Function.update_self]
    exact herr
  · obtain ⟨-, b, -, hreach⟩ := Holds.run (hslots.restrict _)
      (hholds'.remount hclean (fun _ => id) hmount hfs) hr₁
    exact ⟨b, hreach⟩

/-- The small volume after one of its files has been closed. -/
def smallClosed : (FResult × List (BitVec 8)) × Files Disk Bool :=
  filesStep smallLayout smallSlots smallFilesRun.2 (smallOp false .fClose)

/-- Its disk, mounted again with nothing in the window, and objects for some of its files. -/
def smallRemounted (P : Bool → Prop) : Files Disk {i // P i} where
  vol := ⟨⟨smallClosed.2.vol.window.disk, noSector, fun _ => 0#8, false⟩, 0#32, 0xFFFFFFFF#32, 0#8⟩
  fil i := smallFiles.fil i

/-- The file that has been closed is opened and read. -/
theorem syncSurvives_small : ∃ a, ∃ hs : Settled (smallClosed.2.fil false) (a false),
    Reach (specStep fun _ => 0#8) Always (fun _ => .closed (fun _ => none) 0)
      ((smallOp false .fClose, smallClosed.1) :: smallFilesRun.1) a ∧
    ∃ b, Reach (specStep fun _ => 0#8) Always (fun i => (a i.1).stored)
      (runFn (filesStep smallLayout fun i => smallSlots i.1) []
        (smallRemounted fun i => Settled (smallClosed.2.fil i) (a i))
        [⟨smallVolumes, 0#32, ⟨false, hs⟩, .fOpen .sd 0x01#8⟩,
          ⟨smallVolumes, 0#32, ⟨false, hs⟩, .fRead 2#32⟩]).1 b := by
  have hfits : FitsAt smallFilesRun.2 (smallOp false .fClose) := Or.inl rfl
  obtain ⟨a, hreach, hsettled, hafter⟩ := syncSurvives directory_smallSlots holds_smallFiles
    (reach_runFn fitsAlong_smallCalls) hfits (Or.inr rfl) rfl (Prod.mk.eta (p := smallClosed)).symm rfl
  refine ⟨a, hsettled, hreach, hafter (smallRemounted _) _ _ ?_ (fun _ => rfl) (reach_runFn ?_)⟩
  · exact ⟨rfl, ⟨fun hfalse => (by cases hfalse), fun _ htracked => absurd rfl htracked.1⟩, rfl⟩
  · exact ⟨rfl, trivial, trivial⟩

end Power

end FatFs

end BareMetal
