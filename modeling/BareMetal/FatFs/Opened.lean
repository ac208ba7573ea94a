import BareMetal.FatFs.Frame

/-!
# What an open file holds

The bytes of a file that have been set are on the disk, or in the buffer of its object, which may be newer
than the disk and is then marked by `FA_DIRTY`. `BareMetal.FatFs.Core` says so of a content, byte by byte;
nothing is said of a byte that has not been set, such as those a seek behind the end adds. Where the object
is in the file (`BareMetal.FatFs.Positioned`) is kept apart from this: in the middle of a call the one holds
without the other.
-/

namespace BareMetal

namespace FatFs

variable {δ : Type} [DiskIo δ]

/-- The bytes of a file, as far as they have been set. -/
abbrev Content := ℕ → Option (BitVec 8)

/-- The sectors a chain has. -/
def sectorCount (l : Layout) (chain : List (BitVec 32)) : ℕ := chain.length * l.csize.toNat

/-- A chain has no cluster more than so many bytes need. -/
def Tight (l : Layout) (chain : List (BitVec 32)) (n : ℕ) : Prop :=
  chain.length * (l.csize.toNat * 512) < n + l.csize.toNat * 512

theorem tight_nil (l : Layout) (n : ℕ) : Tight l [] n := by
  have hcsize := csize_pos l
  simp only [Tight, List.length_nil]
  omega

theorem Tight.mono {l : Layout} {chain : List (BitVec 32)} {n m : ℕ} (h : Tight l chain n)
    (hle : n ≤ m) : Tight l chain m := by
  unfold Tight at h ⊢
  omega

/-- The last cluster is in use. -/
theorem Tight.of_length {l : Layout} {chain chain' : List (BitVec 32)} {i n m : ℕ} (h : Tight l chain n)
    (hlen : chain'.length ≤ max chain.length (i + 1)) (hin : i * (l.csize.toNat * 512) < m) :
    Tight l chain' (max n m) := by
  unfold Tight at h ⊢
  rcases Nat.le_total chain.length (i + 1) with hle | hle
  · have hmul := Nat.mul_le_mul_right (l.csize.toNat * 512) (hlen.trans (Nat.max_le.mpr ⟨hle, Nat.le_refl _⟩))
    rw [Nat.add_mul, Nat.one_mul] at hmul
    omega
  · have hmul := Nat.mul_le_mul_right (l.csize.toNat * 512) (hlen.trans (Nat.max_le.mpr ⟨Nat.le_refl _, hle⟩))
    omega

/-- The cluster of the last of some bytes that a chain has room for. -/
theorem lastIndex_lt {l : Layout} {chain : List (BitVec 32)} {n : ℕ} (hn : 0 < n)
    (hsize : n ≤ 512 * sectorCount l chain) : (n - 1) / 512 / l.csize.toNat < chain.length := by
  refine Nat.div_lt_of_lt_mul ?_
  rw [Nat.mul_comm]
  unfold sectorCount at hsize
  omega

/-- **What an open file holds.** Its chain begins at its first cluster and has room for its size;
a buffer that is to be written back is of one of its sectors, and the window is over none. A byte
that has been set is in the buffer, if that is of its sector, and on the disk, unless the buffer is
and has not been written back. -/
structure Core (l : Layout) (w : Window δ) (chain : List (BitVec 32)) (content : Content)
    (f : OpenFil) : Prop where
  coherent : w.Coherent l
  start : f.obj.sclust = chain.head?.getD 0#32
  linked : ∀ a ∈ chain.head?, Linked (fatEntry l w.view) l.Cluster l.End a chain
  size : f.obj.objsize.toNat ≤ 512 * sectorCount l chain
  dirty : has f.flag faDirty = true → ∃ k < sectorCount l chain, f.sect = sectorOf l chain k
  apart : ∀ k < sectorCount l chain, w.winsect ≠ sectorOf l chain k
  data : ∀ p < 512 * sectorCount l chain, ∀ b, content p = some b →
    (f.sect = sectorOf l chain (p / 512) → peek f.buf p = b) ∧
    (¬(has f.flag faDirty = true ∧ f.sect = sectorOf l chain (p / 512)) →
      peek (w.view (sectorOf l chain (p / 512))) p = b)

/-- The part of this that is about the bytes: it holds of chains that are no longer in the table. -/
structure Held (l : Layout) (w : Window δ) (chain : List (BitVec 32)) (content : Content)
    (f : OpenFil) : Prop where
  coherent : w.Coherent l
  nodes : ∀ c ∈ chain, l.Cluster c
  nodup : chain.Nodup
  dirty : has f.flag faDirty = true → ∃ k < sectorCount l chain, f.sect = sectorOf l chain k
  apart : ∀ k < sectorCount l chain, w.winsect ≠ sectorOf l chain k
  data : ∀ p < 512 * sectorCount l chain, ∀ b, content p = some b →
    (f.sect = sectorOf l chain (p / 512) → peek f.buf p = b) ∧
    (¬(has f.flag faDirty = true ∧ f.sect = sectorOf l chain (p / 512)) →
      peek (w.view (sectorOf l chain (p / 512))) p = b)

/-- **Where an open file is**: the cluster is that of the byte before the position, and inside a
sector the buffer is of that sector. -/
structure Positioned (l : Layout) (chain : List (BitVec 32)) (f : OpenFil) : Prop where
  fptr_le : f.fptr.toNat ≤ f.obj.objsize.toNat
  clust : 0 < f.fptr.toNat →
    f.clust = chain.getD ((f.fptr.toNat - 1) / 512 / l.csize.toNat) 0#32
  sect : f.fptr.toNat % 512 ≠ 0 → f.sect = sectorOf l chain (f.fptr.toNat / 512)

/-- What the calls check of a file, and where its directory entry is. -/
structure Handle where
  fs : Option FsPtr
  id : BitVec 16
  err : FResult
  readable : Bool
  writable : Bool
  dirSect : BitVec 32
  dirPtr : ℕ

def OpenFil.handle (f : OpenFil) : Handle :=
  ⟨f.obj.fs, f.obj.id, f.err, has f.flag faRead, has f.flag faWrite, f.dirSect, f.dirPtr⟩

/-- The directory entry is to be written: `FA_MODIFIED`. -/
def OpenFil.modified (f : OpenFil) : Bool := has f.flag faModified

section Core

variable {l : Layout} {w w' : Window δ} {chain : List (BitVec 32)} {content : Content} {f f' : OpenFil}

theorem linked_nodes {F : Entries}
    (h : ∀ a ∈ chain.head?, Linked F l.Cluster l.End a chain) : ∀ c ∈ chain, l.Cluster c := by
  intro c hc
  cases hchain : chain with
  | nil =>
    rw [hchain] at hc
    cases hc
  | cons a rest => exact (h a (by rw [hchain]; rfl)).nodes c hc

theorem linked_nodup {F : Entries}
    (h : ∀ a ∈ chain.head?, Linked F l.Cluster l.End a chain) : chain.Nodup := by
  cases hchain : chain with
  | nil => exact List.nodup_nil
  | cons a rest =>
    rw [← hchain]
    exact (h a (by rw [hchain]; rfl)).nodup (not_cluster_of_end l)

theorem linked_used {F : Entries}
    (h : ∀ a ∈ chain.head?, Linked F l.Cluster l.End a chain) : ∀ c ∈ chain, F c ≠ 0#32 := by
  intro c hc
  cases hhead : chain.head? with
  | none => simp [List.head?_eq_none_iff.mp hhead] at hc
  | some a => exact ne_of_next ((h a hhead).next_or hc) (by decide)

theorem Core.nodes (h : Core l w chain content f) : ∀ c ∈ chain, l.Cluster c := linked_nodes h.linked

/-- The clusters of a file by their numbers. -/
theorem Core.cluster_getD (h : Core l w chain content f) {i : ℕ} (hi : i < chain.length) :
    l.Cluster (chain.getD i 0#32) := by
  rw [List.getD_eq_getElem _ _ hi]
  exact h.nodes _ (List.getElem_mem hi)

theorem Core.nodup (h : Core l w chain content f) : chain.Nodup := linked_nodup h.linked

theorem Core.held (h : Core l w chain content f) : Held l w chain content f :=
  ⟨h.coherent, h.nodes, h.nodup, h.dirty, h.apart, h.data⟩

/-- A file without clusters. -/
theorem Core.sclust_eq_zero_iff (h : Core l w chain content f) : f.obj.sclust = 0#32 ↔ chain = [] := by
  rw [h.start]
  cases hchain : chain with
  | nil => simp
  | cons a rest =>
    have ha : l.Cluster a := h.nodes a (by simp [hchain])
    simp [ne_of_next (Or.inl ha) (show (0#32).toNat < 2 by decide)]

/-- The size of a file changes, as far as its chain has room. -/
theorem Core.resized (h : Core l w chain content f) (hstart : f'.obj.sclust = f.obj.sclust)
    (hsize : f'.obj.objsize.toNat ≤ 512 * sectorCount l chain)
    (hflag : has f'.flag faDirty = has f.flag faDirty) (hsect : f'.sect = f.sect)
    (hbuf : f'.buf = f.buf) : Core l w chain content f' where
  coherent := h.coherent
  start := hstart.trans h.start
  linked := h.linked
  size := hsize
  dirty hd := by
    rw [hsect]
    exact h.dirty (hflag ▸ hd)
  apart := h.apart
  data := by
    rw [hflag, hsect, hbuf]
    exact h.data

/-- The fields that matter stay. -/
theorem Core.of_fil (h : Core l w chain content f) (hstart : f'.obj.sclust = f.obj.sclust)
    (hsize : f'.obj.objsize = f.obj.objsize) (hflag : has f'.flag faDirty = has f.flag faDirty)
    (hsect : f'.sect = f.sect) (hbuf : f'.buf = f.buf) : Core l w chain content f' :=
  h.resized hstart (hsize ▸ h.size) hflag hsect hbuf

/-- The chain and the sectors of the file stay. -/
theorem Core.of_window (h : Core l w chain content f) (hcoh : w'.Coherent l)
    (hentries : ∀ c ∈ chain, fatEntry l w'.view c = fatEntry l w.view c)
    (hviews : ∀ k < sectorCount l chain, w'.view (sectorOf l chain k) = w.view (sectorOf l chain k))
    (hapart : ∀ k < sectorCount l chain, w'.winsect ≠ sectorOf l chain k) :
    Core l w' chain content f where
  coherent := hcoh
  start := h.start
  linked a ha := (h.linked a ha).congr hentries
  size := h.size
  dirty := h.dirty
  apart := hapart
  data p hp b hb := by
    rw [hviews _ (by omega)]
    exact h.data p hp b hb

omit [DiskIo δ] in
/-- A window that is over no cluster is over no sector of the file. -/
theorem apart_of_place (hnodes : ∀ c ∈ chain, l.Cluster c)
    (h : ∀ k < sectorCount l chain, w.winsect ≠ sectorOf l chain k)
    (hplace : w'.winsect = w.winsect ∨ ¬l.InData w'.winsect) :
    ∀ k < sectorCount l chain, w'.winsect ≠ sectorOf l chain k := by
  intro k hk
  rcases hplace with heq | hout
  · rw [heq]
    exact h k hk
  · exact fun heq => hout (heq ▸ inData_sectorOf hnodes hk)

/-- The table functions that change nothing. -/
theorem Core.of_sameView (h : Core l w chain content f) (hkept : TableKept l w w')
    (hsame : SameView l w w') : Core l w' chain content f :=
  h.of_window hkept.coherent (fun c _ => hsame.fatEntry l c)
    (fun _ hk => hsame _ (tracked_of_inData l (inData_sectorOf h.nodes hk)))
    (apart_of_place h.nodes h.apart hkept.place)

end Core

/-! ### Another file -/

section Others

variable {l : Layout} {v v' : Vol δ} {chain chain' : List (BitVec 32)} {content : Content} {f : OpenFil}

/-- A sector of a file is foreign to another. -/
theorem foreign_sectorOf {F : Entries} (hnodes : ∀ c ∈ chain, l.Cluster c)
    (hused : ∀ c ∈ chain, F c ≠ 0#32) (hapart : ∀ c ∈ chain, c ∉ chain') {k : ℕ}
    (hk : k < sectorCount l chain) : Foreign l F chain' (sectorOf l chain k) := by
  have hmem := getD_mem hk
  refine ⟨tracked_of_inData l (inData_sectorOf hnodes hk),
    fun j hj => (ne_sectorOf_of_fat hnodes hj hk).symm, fun c i hc hi heq => ?_⟩
  obtain ⟨rfl, -⟩ := sectorIn_inj (hnodes _ hmem) hc (Nat.mod_lt _ (csize_pos l)) hi heq
  exact ⟨hused _ hmem, hapart _ hmem⟩

end Others

end FatFs

end BareMetal
