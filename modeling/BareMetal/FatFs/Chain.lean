import Mathlib.Data.Finset.Card
import Mathlib.Order.Interval.Finset.Nat
import BareMetal.Links
import BareMetal.FatFs.Table

/-!
# Chains of clusters

A file is a chain of clusters: the entry of each is the number of the next, and that of the last is an end
mark. `create_chain` stretches a chain, or begins one, by a free cluster that it searches for from a hint
on, around the end of the table; `remove_chain` frees the clusters from one on and marks the one in front as
the last. Both keep count of the free clusters, as far as their number is known.

What they do is said once for each, with all its outcomes (`BareMetal.FatFs.CreateEnd`,
`BareMetal.FatFs.removeChain_cut`). From that the chains of several owners are followed through a run: they
never meet (`BareMetal.FatFs.chainsApart`), since a new cluster was free and what is freed was the owner's.
The error that matters is in between: a chain whose owner saw a failure is given up, and its clusters are in
no chain, but not free either.
-/

namespace BareMetal

namespace FatFs

variable {δ : Type} [DiskIo δ]

/-- The fields of a `FATFS` object that change while it is mounted. -/
structure Vol (δ : Type) where
  window : Window δ
  lastClst : BitVec 32
  freeClst : BitVec 32
  fsiFlag : BitVec 8

/-! ### The code -/

/-- The first part of `create_chain`: the cluster to start the search at, or what to return at
once. -/
def startCluster (g : Geometry) (v : Vol δ) (clst : BitVec 32) :
    Except (BitVec 32) (BitVec 32) × Window δ :=
  if clst = 0#32 then
    (.ok (if v.lastClst = 0#32 ∨ v.lastClst ≥ g.nFatent then 1#32 else v.lastClst), v.window)
  else
    let cs := getFat g v.window clst
    if cs.1 < 2#32 then (.error 1#32, cs.2)
    else if cs.1 = 0xFFFFFFFF#32 then (.error cs.1, cs.2)
    else if cs.1 < g.nFatent then (.error cs.1, cs.2)
    else (.ok clst, cs.2)

/-- The search loop of `create_chain`: it looks at the clusters behind `ncl`, goes on at the first
one, and ends where it has begun. -/
def findFree (g : Geometry) (scl : BitVec 32) :
    ℕ → Window δ → BitVec 32 → Except (BitVec 32) (BitVec 32) × Window δ
  | 0, w, _ => (.error 0#32, w)
  | fuel + 1, w, ncl =>
      if ncl + 1#32 ≥ g.nFatent ∧ 2#32 > scl then (.error 0#32, w)
      else
        let ncl := if ncl + 1#32 ≥ g.nFatent then 2#32 else ncl + 1#32
        let cs := getFat g w ncl
        if cs.1 = 0#32 then (.ok ncl, cs.2)
        else if cs.1 = 1#32 ∨ cs.1 = 0xFFFFFFFF#32 then (.error cs.1, cs.2)
        else if ncl = scl then (.error 0#32, cs.2)
        else findFree g scl fuel cs.2 ncl

/-- The second part of `create_chain`: a free cluster, the one behind the chain if that is free, or
what to return. -/
def chooseCluster (g : Geometry) (w : Window δ) (lastClst clst scl : BitVec 32) :
    Except (BitVec 32) (BitVec 32) × Window δ :=
  if scl = clst then
    let ncl := if scl + 1#32 ≥ g.nFatent then 2#32 else scl + 1#32
    let cs := getFat g w ncl
    if cs.1 = 1#32 ∨ cs.1 = 0xFFFFFFFF#32 then (.error cs.1, cs.2)
    else if cs.1 ≠ 0#32 then
      let scl := if lastClst ≥ 2#32 ∧ lastClst < g.nFatent then lastClst else scl
      findFree g scl g.nFatent.toNat cs.2 scl
    else (.ok ncl, cs.2)
  else findFree g scl g.nFatent.toNat w scl

/-- The third part of `create_chain`: the cluster is marked as the end of a chain, and linked. -/
def linkCluster (g : Geometry) (w : Window δ) (clst ncl : BitVec 32) : FResult × Window δ :=
  match putFat g w ncl 0xFFFFFFFF#32 with
  | (.ok, w) => if clst ≠ 0#32 then putFat g w clst ncl else (.ok, w)
  | (res, w) => (res, w)

/-- `create_chain`. -/
def createChain (g : Geometry) (v : Vol δ) (clst : BitVec 32) : BitVec 32 × Vol δ :=
  match startCluster g v clst with
  | (.error ret, w) => (ret, { v with window := w })
  | (.ok scl, w) =>
      if v.freeClst = 0#32 then (0#32, { v with window := w })
      else
        match chooseCluster g w v.lastClst clst scl with
        | (.error ret, w) => (ret, { v with window := w })
        | (.ok ncl, w) =>
            match linkCluster g w clst ncl with
            | (.ok, w) =>
                (ncl, {
                  window := w
                  lastClst := ncl
                  freeClst :=
                    if v.freeClst ≤ g.nFatent - 2#32 then v.freeClst - 1#32 else v.freeClst
                  fsiFlag := v.fsiFlag ||| 1#8 })
            | (res, w) =>
                (if res = .diskErr then 0xFFFFFFFF#32 else 1#32, { v with window := w })

/-- The count of free clusters after one has been freed. -/
def Vol.freed (g : Geometry) (v : Vol δ) (w : Window δ) : Vol δ :=
  if v.freeClst < g.nFatent - 2#32 then
    { v with window := w, freeClst := v.freeClst + 1#32, fsiFlag := v.fsiFlag ||| 1#8 }
  else { v with window := w }

/-- The loop of `remove_chain`, for at most so many clusters. -/
def removeLoop (g : Geometry) : ℕ → Vol δ → BitVec 32 → FResult × Vol δ
  | 0, v, _ => (.ok, v)
  | fuel + 1, v, clst =>
      let nxt := getFat g v.window clst
      if nxt.1 = 0#32 then (.ok, { v with window := nxt.2 })
      else if nxt.1 = 1#32 then (.intErr, { v with window := nxt.2 })
      else if nxt.1 = 0xFFFFFFFF#32 then (.diskErr, { v with window := nxt.2 })
      else
        match putFat g nxt.2 clst 0#32 with
        | (.ok, w) =>
            if nxt.1 < g.nFatent then removeLoop g fuel (v.freed g w) nxt.1 else (.ok, v.freed g w)
        | (res, w) => (res, { v with window := w })

/-- `remove_chain`. -/
def removeChain (g : Geometry) (v : Vol δ) (clst pclst : BitVec 32) : FResult × Vol δ :=
  if clst < 2#32 ∨ clst ≥ g.nFatent then (.intErr, v)
  else if pclst ≠ 0#32 then
    match putFat g v.window pclst 0xFFFFFFFF#32 with
    | (.ok, w) => removeLoop g g.nFatent.toNat { v with window := w } clst
    | (res, w) => (res, { v with window := w })
  else removeLoop g g.nFatent.toNat v clst

/-! ### Searching -/

/-- The values of the table. -/
abbrev Entries := BitVec 32 → BitVec 32

/-- What a search that changes nothing comes to: a free cluster; or 0 if there is none, 1 if an
entry has the value of no chain, or the disk error. -/
def SearchEnd (l : Layout) (F : Entries) (w : Window δ)
    (r : Except (BitVec 32) (BitVec 32) × Window δ) : Prop :=
  TableKept l w r.2 ∧ SameView l w r.2 ∧
    match r.1 with
    | .ok c => l.Cluster c ∧ F c = 0#32
    | .error ret =>
        (ret = 0#32 ∧ ∀ c, l.Cluster c → F c ≠ 0#32) ∨
        (ret = 1#32 ∧ ∃ c, l.Cluster c ∧ F c = 1#32) ∨
        (ret = 0xFFFFFFFF#32 ∧ ¬Works w.disk)

/-- The clusters the search from `scl` has looked at when it has come to `ncl`. -/
def Visited (scl ncl c : ℕ) : Prop :=
  if scl ≤ ncl then scl < c ∧ c ≤ ncl else scl < c ∨ c ≤ ncl

/-- The rounds that are left. -/
def roundsLeft (n scl ncl : ℕ) : ℕ := if scl ≤ ncl then n - 1 - ncl + scl else scl - ncl

section Search

variable {l : Layout} {w : Window δ}

theorem cluster_of_toNat {c : BitVec 32} (htwo : 2 ≤ c.toNat) (hlt : c.toNat < l.nFatent.toNat) :
    l.Cluster c := ⟨BitVec.le_def.mpr htwo, BitVec.lt_def.mpr hlt⟩

theorem two_le_of_cluster {c : BitVec 32} (hc : l.Cluster c) : 2 ≤ c.toNat := BitVec.le_def.mp hc.1

theorem nFatent_lt (l : Layout) : l.nFatent.toNat < 2 ^ 28 := by
  have hle := l.nFatent_le
  have hmax : l.fsType.maxClusters + 2 < 2 ^ 28 := by cases l.fsType <;> decide
  omega

/-- The cluster behind another one. -/
theorem toNat_succ {c : BitVec 32} (hc : c.toNat < l.nFatent.toNat) :
    (c + 1#32).toNat = c.toNat + 1 := by
  have hlt := nFatent_lt l
  rw [BitVec.toNat_add, show (1#32).toNat = 1 from rfl]
  omega

/-- A search goes on from a window with the same contents. -/
theorem SearchEnd.after {F : Entries} {w' : Window δ} {r : Except (BitVec 32) (BitVec 32) × Window δ}
    (hkept : TableKept l w w') (hview : SameView l w w') (h : SearchEnd l F w' r) : SearchEnd l F w r := by
  obtain ⟨hkept', hview', hres⟩ := h
  refine ⟨hkept.trans hkept', hview.trans hview', ?_⟩
  split <;> rename_i heq <;> rw [heq] at hres
  · exact hres
  · exact hres.imp_right (Or.imp_right (And.imp_right fun hfail hworks => hfail (hkept.works hworks)))

/-- One round of the search: the clusters looked at are one more, a round less is left, and at the
place where the search has begun all are looked at. -/
theorem visited_next {m s n n' : ℕ} (hsm : s < m) (hn : n < m)
    (hn' : n' = if n + 1 ≥ m then 2 else n + 1) (hgo : ¬(n + 1 ≥ m ∧ 2 > s)) :
    (∀ c, 2 ≤ c → c < m → Visited s n' c → c = n' ∨ Visited s n c) ∧
      (n' ≠ s → roundsLeft m s n' < roundsLeft m s n) ∧
      (n' = s → ∀ c, 2 ≤ c → c < m → c = n' ∨ Visited s n c) := by
  unfold Visited roundsLeft
  split at hn' <;> split <;> split <;> refine ⟨?_, ?_, ?_⟩ <;> intros <;> omega

/-- The search loop with rounds enough. -/
theorem findFree_spec {F : Entries} {scl : BitVec 32} (hscl : 1 ≤ scl.toNat)
    (hscl' : scl.toNat < l.nFatent.toNat) {fuel : ℕ} {ncl : BitVec 32} (h : w.Coherent l)
    (hF : ∀ c, fatEntry l w.view c = F c) (hone : 1 ≤ ncl.toNat)
    (hncl : ncl.toNat < l.nFatent.toNat)
    (hfuel : roundsLeft l.nFatent.toNat scl.toNat ncl.toNat ≤ fuel)
    (hvisited : ∀ c, l.Cluster c → Visited scl.toNat ncl.toNat c.toNat → F c ≠ 0#32) :
    SearchEnd l F w (findFree l scl fuel w ncl) := by
  induction fuel generalizing w ncl with
  | zero =>
    unfold roundsLeft at hfuel
    split at hfuel <;> omega
  | succ fuel ih =>
    have htwo := l.two_lt
    have hsucc := toNat_succ (l := l) hncl
    have hwrap : ncl + 1#32 ≥ l.nFatent ↔ ncl.toNat + 1 ≥ l.nFatent.toNat := by
      rw [ge_iff_le, BitVec.le_def, hsucc]
    have hstart : 2#32 > scl ↔ 2 > scl.toNat := BitVec.lt_def
    rw [findFree]
    split
    · -- the last cluster has been looked at, and the search has begun in front of the first
      rename_i hend
      rw [hwrap, hstart] at hend
      refine ⟨h.tableKept, fun _ _ => rfl, Or.inl ⟨rfl, fun c hc => hvisited c hc ?_⟩⟩
      have hlow := two_le_of_cluster hc
      have hhigh := BitVec.lt_def.mp hc.2
      rw [Visited, if_pos (by omega)]
      omega
    · rename_i hgo
      rw [hwrap, hstart] at hgo
      have hnext : (if ncl + 1#32 ≥ l.nFatent then 2#32 else ncl + 1#32).toNat =
          if ncl.toNat + 1 ≥ l.nFatent.toNat then 2 else ncl.toNat + 1 := by
        simp only [hwrap]
        split
        · rfl
        · exact hsucc
      generalize (if ncl + 1#32 ≥ l.nFatent then 2#32 else ncl + 1#32) = n at hnext
      obtain ⟨hseen, hless, hall⟩ := visited_next hscl' hncl hnext hgo
      have hn : l.Cluster n := by
        refine cluster_of_toNat ?_ ?_ <;> rw [hnext] <;> split <;> omega
      simp only
      obtain ⟨hkept, hview, hres⟩ := getFat_spec h hn
      generalize getFat l.toGeometry w n = r at hkept hview hres
      obtain ⟨cs, w'⟩ := r
      simp only at hkept hview hres
      simp only [hF] at hres
      -- what is behind is in use
      have hused : cs = F n → cs ≠ 0#32 → ∀ c, c = n ∨ Visited scl.toNat ncl.toNat c.toNat →
          l.Cluster c → F c ≠ 0#32 := by
        rintro hcs hne c (rfl | hbefore) hc
        · rwa [← hcs]
        · exact hvisited c hc hbefore
      rcases hres with hcs | ⟨rfl, hfail⟩
      · split
        · rename_i hzero
          exact ⟨hkept, hview, hn, hcs ▸ hzero⟩
        · rename_i hne
          split
          · rename_i hbad
            rcases hbad with rfl | rfl
            · exact ⟨hkept, hview, Or.inr (Or.inl ⟨rfl, n, hn, hcs.symm⟩)⟩
            · exact absurd (hcs.trans (hF n).symm).symm (fatEntry_ne_diskErr l _ _)
          · split
            · rename_i heq
              refine ⟨hkept, hview, Or.inl ⟨rfl, fun c hc => hused hcs hne c ?_ hc⟩⟩
              refine (hall (by rw [heq]) c.toNat (two_le_of_cluster hc)
                (BitVec.lt_def.mp hc.2)).imp_left BitVec.eq_of_toNat_eq
            · rename_i hneq
              have hneq' : n.toNat ≠ scl.toNat := fun heq => hneq (BitVec.eq_of_toNat_eq heq)
              refine SearchEnd.after hkept hview (ih hkept.coherent
                (fun c => (hview.fatEntry l c).trans (hF c))
                ((two_le_of_cluster hn).trans' (by decide)) (BitVec.lt_def.mp hn.2)
                (Nat.le_of_lt_succ ((hless hneq').trans_le hfuel)) fun c hc hvis => ?_)
              exact hused hcs hne c ((hseen c.toNat (two_le_of_cluster hc)
                (BitVec.lt_def.mp hc.2) hvis).imp_left BitVec.eq_of_toNat_eq) hc
      · exact ⟨hkept, hview, Or.inr (Or.inr ⟨rfl, hfail⟩)⟩

/-- The whole search: a free cluster is found if there is one. -/
theorem findFree_all {scl : BitVec 32} (hscl : 1 ≤ scl.toNat) (hscl' : scl.toNat < l.nFatent.toNat)
    (h : w.Coherent l) :
    SearchEnd l (fatEntry l w.view) w (findFree l scl l.nFatent.toNat w scl) := by
  refine findFree_spec hscl hscl' h (fun _ => rfl) hscl hscl' ?_ fun c hc hvis => ?_
  · rw [roundsLeft, if_pos (Nat.le_refl _)]
    omega
  · rw [Visited, if_pos (Nat.le_refl _)] at hvis
    omega

/-- The cluster behind another one, or the first. -/
theorem cluster_behind {c : BitVec 32} (hone : 1 ≤ c.toNat) (hc : c.toNat < l.nFatent.toNat) :
    l.Cluster (if c + 1#32 ≥ l.nFatent then 2#32 else c + 1#32) := by
  have htwo := l.two_lt
  have hsucc := toNat_succ (l := l) hc
  split
  · exact cluster_of_toNat (Nat.le_refl 2) htwo
  · rename_i hlt
    rw [ge_iff_le, BitVec.le_def] at hlt
    exact cluster_of_toNat (by omega) (by omega)

theorem chooseCluster_spec (h : w.Coherent l) (last clst : BitVec 32) {scl : BitVec 32}
    (hscl : 1 ≤ scl.toNat) (hscl' : scl.toNat < l.nFatent.toNat) :
    SearchEnd l (fatEntry l w.view) w (chooseCluster l w last clst scl) := by
  unfold chooseCluster
  split
  · have hn := cluster_behind hscl hscl'
    generalize (if scl + 1#32 ≥ l.nFatent then 2#32 else scl + 1#32) = n at hn
    obtain ⟨hkept, hview, hres⟩ := getFat_spec h hn
    simp only
    generalize getFat l.toGeometry w n = r at hkept hview hres
    obtain ⟨cs, w'⟩ := r
    simp only at hkept hview hres
    split
    · rename_i hbad
      refine ⟨hkept, hview, Or.inr ?_⟩
      rcases hres with rfl | ⟨rfl, hfail⟩
      · rcases hbad with hone | herr
        · exact Or.inl ⟨hone, n, hn, hone⟩
        · exact absurd herr (fatEntry_ne_diskErr l _ _)
      · exact Or.inr ⟨rfl, hfail⟩
    · rename_i hgood
      obtain rfl | ⟨rfl, -⟩ := hres
      · split
        · -- not behind the chain
          have hstart : 1 ≤ (if last ≥ 2#32 ∧ last < l.nFatent then last else scl).toNat ∧
              (if last ≥ 2#32 ∧ last < l.nFatent then last else scl).toNat < l.nFatent.toNat := by
            split
            · rename_i hlast
              exact ⟨(BitVec.le_def.mp hlast.1).trans' (by decide), BitVec.lt_def.mp hlast.2⟩
            · exact ⟨hscl, hscl'⟩
          have hall := findFree_all hstart.1 hstart.2 hkept.coherent
          rw [show fatEntry l w'.view = fatEntry l w.view from funext (hview.fatEntry l)] at hall
          exact hall.after hkept hview
        · rename_i hfree
          exact ⟨hkept, hview, hn, not_not.mp hfree⟩
      · exact absurd (Or.inr rfl) hgood
  · exact findFree_all hscl hscl' h

end Search

/-! ### Stretching a chain -/

/-- The table of a volume. -/
abbrev Vol.table (l : Layout) (v : Vol δ) : Entries := fatEntry l v.window.view

/-- The last cluster of a chain, or none. -/
def LastOrNone (l : Layout) (F : Entries) (clst : BitVec 32) : Prop :=
  clst ≠ 0#32 → l.Cluster clst ∧ l.nFatent ≤ F clst

theorem LastOrNone.ne {l : Layout} {F : Entries} {clst n : BitVec 32} (h : LastOrNone l F clst)
    (hn : l.Cluster n) (hfree : F n = 0#32) : clst ≠ n := by
  rintro rfl
  have hzero : clst ≠ 0#32 := by
    rintro rfl
    exact absurd (two_le_of_cluster hn) (by decide)
  have hend := BitVec.le_def.mp (h hzero).2
  have htwo := l.two_lt
  rw [hfree, show (0#32).toNat = 0 from rfl] at hend
  omega

/-- **How `create_chain` can end.** -/
inductive CreateEnd (l : Layout) (v : Vol δ) (clst r : BitVec 32) (v' : Vol δ) : Prop
  /-- The chain goes on already. -/
  | follows (hclst : l.Cluster clst) (hr : r = v.table l clst) (hnext : l.Cluster r)
      (hsame : SameView l v.window v'.window) (hvol : v' = { v with window := v'.window })
  /-- No cluster is free, or none is thought to be. -/
  | full (hlast : LastOrNone l (v.table l) clst) (hr : r = 0#32)
      (hfull : v.freeClst = 0#32 ∨ ∀ c, l.Cluster c → v.table l c ≠ 0#32)
      (hsame : SameView l v.window v'.window) (hvol : v' = { v with window := v'.window })
  /-- The table is not sound. -/
  | insane (hr : r = 1#32)
      (hbad : (clst ≠ 0#32 ∧ (l.Cluster clst → v.table l clst < 2#32)) ∨
        ∃ c, l.Cluster c ∧ v.table l c = 1#32)
      (hsame : SameView l v.window v'.window) (hvol : v' = { v with window := v'.window })
  /-- A transfer has failed: entries of the chain and of a free cluster may have been changed. -/
  | failed (hr : r = 0xFFFFFFFF#32) (hfail : ¬Works v.window.disk)
      (hothers : ∀ c, v.table l c ≠ 0#32 → c ≠ clst → v'.table l c = v.table l c)
      (hwhole : l.fsType ≠ .fat12 → v.table l clst ≠ 0#32 → v'.table l clst = v.table l clst)
      (hout : SameOutside l v.window v'.window) (hvol : v' = { v with window := v'.window })
  /-- A free cluster has become the last of the chain. -/
  | created (hlast : LastOrNone l (v.table l) clst) (hr : l.Cluster r)
      (hfree : v.table l r = 0#32) (hnew : v'.table l r = l.fsType.clip 0xFFFFFFFF#32)
      (hlink : clst ≠ 0#32 → v'.table l clst = r)
      (hothers : ∀ c, c ≠ r → c ≠ clst → v'.table l c = v.table l c)
      (hplace : ¬l.InData v'.window.winsect) (hout : SameOutside l v.window v'.window)
      (hvol : v' = {
        window := v'.window
        lastClst := r
        freeClst := if v.freeClst ≤ l.nFatent - 2#32 then v.freeClst - 1#32 else v.freeClst
        fsiFlag := v.fsiFlag ||| 1#8 })

section Create

variable {l : Layout} {v : Vol δ} {w : Window δ} {clst : BitVec 32}

/-- What the check at the start comes to. -/
theorem startCluster_spec (h : v.window.Coherent l) (clst : BitVec 32) :
    TableKept l v.window (startCluster l v clst).2 ∧
      SameView l v.window (startCluster l v clst).2 ∧
      match (startCluster l v clst).1 with
      | .ok scl => LastOrNone l (v.table l) clst ∧ 1 ≤ scl.toNat ∧ scl.toNat < l.nFatent.toNat
      | .error ret =>
          (l.Cluster clst ∧ ret = v.table l clst ∧ l.Cluster ret) ∨
          (ret = 1#32 ∧ clst ≠ 0#32 ∧ (l.Cluster clst → v.table l clst < 2#32)) ∨
          (ret = 0xFFFFFFFF#32 ∧ ¬Works v.window.disk) := by
  have htwo := l.two_lt
  unfold startCluster
  split
  · rename_i hzero
    refine ⟨h.tableKept, fun _ _ => rfl, fun hne => absurd hzero hne, ?_⟩
    split
    · exact ⟨Nat.le_refl 1, by rw [show (1#32).toNat = 1 from rfl]; omega⟩
    · rename_i hlast
      rw [not_or, BitVec.not_le] at hlast
      refine ⟨Nat.one_le_iff_ne_zero.mpr fun hcon => hlast.1 (BitVec.eq_of_toNat_eq hcon),
        BitVec.lt_def.mp hlast.2⟩
  · rename_i hne
    by_cases hc : l.Cluster clst
    · obtain ⟨hkept, hview, hres⟩ := getFat_spec h hc
      simp only
      generalize getFat l.toGeometry v.window clst = r at hkept hview hres
      obtain ⟨cs, w'⟩ := r
      simp only at hkept hview hres
      rcases hres with rfl | ⟨rfl, hfail⟩
      · split
        · rename_i hlow
          exact ⟨hkept, hview, Or.inr (Or.inl ⟨rfl, hne, fun _ => hlow⟩)⟩
        · rename_i hlow
          split
          · rename_i herr
            exact absurd herr (fatEntry_ne_diskErr l _ _)
          · split
            · rename_i hhigh
              exact ⟨hkept, hview, Or.inl ⟨hc, rfl, BitVec.not_lt.mp hlow, hhigh⟩⟩
            · rename_i hhigh
              exact ⟨hkept, hview, fun _ => ⟨hc, BitVec.not_lt.mp hhigh⟩,
                (two_le_of_cluster hc).trans' (by decide), BitVec.lt_def.mp hc.2⟩
      · exact ⟨hkept, hview, Or.inr (Or.inr ⟨rfl, hfail⟩)⟩
    · simp only [getFat_of_not_cluster hc]
      exact ⟨h.tableKept, fun _ _ => rfl, Or.inr (Or.inl ⟨rfl, hne, fun hcon => absurd hcon hc⟩)⟩

/-- What the two writes of the table come to. -/
theorem linkCluster_spec (h : w.Coherent l) {ncl : BitVec 32} (hncl : l.Cluster ncl)
    (hclst : clst ≠ 0#32 → l.Cluster clst) (hne : clst ≠ ncl) :
    let r := linkCluster l w clst ncl
    TableKept l w r.2 ∧ SameOutside l w r.2 ∧
      (∀ c, c ≠ ncl → c ≠ clst → fatEntry l r.2.view c = fatEntry l w.view c) ∧
      ((r.1 = .ok ∧ ¬l.InData r.2.winsect) ∧
          fatEntry l r.2.view ncl = l.fsType.clip 0xFFFFFFFF#32 ∧
          (clst ≠ 0#32 → fatEntry l r.2.view clst = ncl) ∨
        (r.1 = .diskErr ∧ ¬Works w.disk) ∧
          (l.fsType ≠ .fat12 → fatEntry l r.2.view clst = fatEntry l w.view clst)) := by
  obtain ⟨hkept, hout, hothers, hres⟩ := putFat_spec h hncl 0xFFFFFFFF#32
  intro r
  simp only [r, linkCluster]
  generalize putFat l.toGeometry w ncl 0xFFFFFFFF#32 = p at hkept hout hothers hres
  obtain ⟨res, w'⟩ := p
  simp only at hkept hout hothers hres
  rcases hres with ⟨⟨rfl, hplace⟩, hnew⟩ | ⟨⟨rfl, hfail⟩, -⟩
  · simp only
    split
    · rename_i hzero
      obtain ⟨hkept', hout', hothers', hres'⟩ := putFat_spec hkept.coherent (hclst hzero) ncl
      generalize putFat l.toGeometry w' clst ncl = p at hkept' hout' hothers' hres'
      obtain ⟨res, w''⟩ := p
      simp only at hkept' hout' hothers' hres'
      refine ⟨hkept.trans hkept', hout.trans hout', fun c hc hc' =>
        (hothers' c hc').trans (hothers c hc), ?_⟩
      rcases hres' with ⟨hok, hlink⟩ | ⟨⟨rfl, hfail⟩, hsame⟩
      · refine Or.inl ⟨hok, ?_, fun _ => ?_⟩
        · rw [hothers' ncl hne.symm, hnew]
        · rw [hlink, clip_cluster l hncl]
      · refine Or.inr ⟨⟨rfl, fun hworks => hfail (hkept.works hworks)⟩, fun htype => ?_⟩
        rw [(hsame htype).fatEntry, hothers clst hne]
    · rename_i hzero
      exact ⟨hkept, hout, fun c hc _ => hothers c hc,
        Or.inl ⟨⟨rfl, hplace⟩, hnew, fun hcon => absurd hcon hzero⟩⟩
  · exact ⟨hkept, hout, fun c hc _ => hothers c hc, Or.inr ⟨⟨rfl, hfail⟩, fun _ => hothers clst hne⟩⟩

/-- **What `create_chain` does.** -/
theorem createChain_spec (h : v.window.Coherent l) (clst : BitVec 32) :
    TableKept l v.window (createChain l v clst).2.window ∧
      CreateEnd l v clst (createChain l v clst).1 (createChain l v clst).2 := by
  obtain ⟨hkept, hview, hstart⟩ := startCluster_spec h clst
  unfold createChain
  generalize startCluster l.toGeometry v clst = p at hkept hview hstart
  obtain ⟨start, w⟩ := p
  simp only at hkept hview hstart
  cases start with
  | error ret =>
    refine ⟨hkept, ?_⟩
    rcases hstart with ⟨hc, hret, hnext⟩ | ⟨hret, hbad⟩ | ⟨hret, hfail⟩
    · exact .follows hc hret hnext hview rfl
    · exact .insane hret (Or.inl hbad) hview rfl
    · exact .failed hret hfail (fun c _ _ => hview.fatEntry l c) (fun _ _ => hview.fatEntry l clst)
        hview.outside rfl
  | ok scl =>
    obtain ⟨hlast, hscl, hscl'⟩ := hstart
    simp only
    split
    · rename_i hnone
      exact ⟨hkept, .full hlast rfl (Or.inl hnone) hview rfl⟩
    · obtain ⟨hkept', hview', hchoice⟩ :=
        chooseCluster_spec hkept.coherent v.lastClst clst hscl hscl'
      generalize chooseCluster l.toGeometry w v.lastClst clst scl = p at hkept' hview' hchoice
      obtain ⟨choice, w'⟩ := p
      simp only [hview.fatEntry] at hkept' hview' hchoice
      have hkeep := hkept.trans hkept'
      have hsame := hview.trans hview'
      cases choice with
      | error ret =>
        refine ⟨hkeep, ?_⟩
        rcases hchoice with ⟨hret, hfull⟩ | ⟨hret, hbad⟩ | ⟨hret, hfail⟩
        · exact .full hlast hret (Or.inr hfull) hsame rfl
        · exact .insane hret (Or.inr hbad) hsame rfl
        · exact .failed hret (fun hworks => hfail (hkept.works hworks))
            (fun c _ _ => hsame.fatEntry l c) (fun _ _ => hsame.fatEntry l clst) hsame.outside rfl
      | ok ncl =>
        obtain ⟨hncl, hfree⟩ := hchoice
        have hne := hlast.ne hncl hfree
        obtain ⟨hkept'', hout, hothers, hres⟩ :=
          linkCluster_spec hkeep.coherent hncl (fun hzero => (hlast hzero).1) hne
        simp only
        generalize linkCluster l.toGeometry w' clst ncl = p at hkept'' hout hothers hres
        obtain ⟨res, w''⟩ := p
        simp only [hsame.fatEntry] at hkept'' hout hothers hres
        have hout' := hsame.outside.trans hout
        rcases hres with ⟨⟨rfl, hplace⟩, hnew, hlink⟩ | ⟨⟨rfl, hfail⟩, hwhole⟩
        · exact ⟨hkeep.trans hkept'', .created hlast hncl hfree hnew hlink hothers hplace hout' rfl⟩
        · refine ⟨hkeep.trans hkept'', .failed rfl (fun hworks => hfail (hkeep.works hworks))
            (fun c hc hne' => ?_) (fun htype _ => hwhole htype) hout' rfl⟩
          refine hothers c ?_ hne'
          rintro rfl
          exact hc hfree

end Create

/-! ### Removing a chain -/

/-- The mark at the end of a chain. -/
def Layout.End (l : Layout) (u : BitVec 32) : Prop := l.nFatent ≤ u

theorem not_cluster_of_end (l : Layout) (u : BitVec 32) (hu : l.End u) : ¬l.Cluster u :=
  fun hc => BitVec.not_lt.mpr hu hc.2

/-- The free clusters of a table. -/
def freeCount (g : Geometry) (F : Entries) : ℕ :=
  ((Finset.Ico 2 g.nFatent.toNat).filter fun c => F (BitVec.ofNat 32 c) = 0#32).card

/-- The number of free clusters, as far as it is known, is right. -/
def FreeExact (l : Layout) (v : Vol δ) : Prop :=
  v.freeClst ≤ l.nFatent - 2#32 → v.freeClst.toNat = freeCount l (v.table l)

theorem not_cluster_diskErr (l : Layout) : ¬l.Cluster 0xFFFFFFFF#32 := by
  intro hc
  have hlt := nFatent_lt l
  have hcon := BitVec.lt_def.mp hc.2
  rw [show (0xFFFFFFFF#32).toNat = 2 ^ 32 - 1 from rfl] at hcon
  omega

/-- The values that stand for no cluster are not in a chain. -/
theorem ne_of_next {l : Layout} {u x : BitVec 32} (h : l.Cluster u ∨ l.End u) (hx : x.toNat < 2) :
    u ≠ x := by
  rintro rfl
  rcases h with hc | hend
  · exact absurd (two_le_of_cluster hc) (by omega)
  · have hle := BitVec.le_def.mp hend
    have htwo := l.two_lt
    omega

section Free

variable {l : Layout} {F F' : Entries} {c : BitVec 32}

theorem toNat_nFatent_sub_two (l : Layout) : (l.nFatent - 2#32).toNat = l.nFatent.toNat - 2 := by
  have htwo : 2#32 ≤ l.nFatent := BitVec.le_def.mpr l.two_lt.le
  rw [BitVec.toNat_sub_of_le htwo]
  rfl

theorem cluster_of_mem_Ico {n : ℕ} (hn : n ∈ Finset.Ico 2 l.nFatent.toNat) :
    l.Cluster (BitVec.ofNat 32 n) ∧ (BitVec.ofNat 32 n).toNat = n := by
  have hlt := nFatent_lt l
  rw [Finset.mem_Ico] at hn
  have hnat : (BitVec.ofNat 32 n).toNat = n := by
    rw [BitVec.toNat_ofNat]
    omega
  exact ⟨cluster_of_toNat (by omega) (by omega), hnat⟩

theorem freeCount_congr (h : ∀ x, l.Cluster x → (F' x = 0#32 ↔ F x = 0#32)) :
    freeCount l F' = freeCount l F := by
  rw [freeCount, freeCount]
  exact congrArg Finset.card (Finset.filter_congr fun n hn => h _ (cluster_of_mem_Ico hn).1)

/-- One cluster more is free. -/
theorem freeCount_succ (hc : l.Cluster c) (hused : F c ≠ 0#32)
    (h : ∀ x, l.Cluster x → (F' x = 0#32 ↔ x = c ∨ F x = 0#32)) :
    freeCount l F' = freeCount l F + 1 := by
  have hinsert : (Finset.Ico 2 l.nFatent.toNat).filter (fun n => F' (BitVec.ofNat 32 n) = 0#32) =
      insert c.toNat
        ((Finset.Ico 2 l.nFatent.toNat).filter fun n => F (BitVec.ofNat 32 n) = 0#32) := by
    ext n
    rw [Finset.mem_insert, Finset.mem_filter, Finset.mem_filter]
    constructor
    · rintro ⟨hn, hfree⟩
      obtain ⟨hcluster, hnat⟩ := cluster_of_mem_Ico hn
      rcases (h _ hcluster).mp hfree with heq | hfree
      · exact Or.inl (by rw [← heq, hnat])
      · exact Or.inr ⟨hn, hfree⟩
    · rintro (rfl | ⟨hn, hfree⟩)
      · refine ⟨Finset.mem_Ico.mpr ⟨two_le_of_cluster hc, BitVec.lt_def.mp hc.2⟩, ?_⟩
        rw [BitVec.ofNat_toNat, BitVec.setWidth_eq]
        exact (h c hc).mpr (Or.inl rfl)
      · exact ⟨hn, (h _ (cluster_of_mem_Ico hn).1).mpr (Or.inr hfree)⟩
  rw [freeCount, freeCount, hinsert, Finset.card_insert_of_notMem]
  intro hcon
  rw [Finset.mem_filter, BitVec.ofNat_toNat, BitVec.setWidth_eq] at hcon
  exact hused hcon.2

theorem table_freed (l : Layout) (v : Vol δ) (w : Window δ) :
    (v.freed l w).table l = fatEntry l w.view ∧ (v.freed l w).window = w := by
  unfold Vol.freed
  split <;> exact ⟨rfl, rfl⟩

/-- There are no more free clusters than clusters. -/
theorem freeCount_le (l : Layout) (F : Entries) : freeCount l F ≤ l.nFatent.toNat - 2 := by
  refine (Finset.card_filter_le _ _).trans ?_
  rw [Nat.card_Ico]

theorem freeCount_pos (hc : l.Cluster c) (hfree : F c = 0#32) : 0 < freeCount l F := by
  refine Finset.card_pos.mpr ⟨c.toNat, Finset.mem_filter.mpr ⟨?_, ?_⟩⟩
  · exact Finset.mem_Ico.mpr ⟨two_le_of_cluster hc, BitVec.lt_def.mp hc.2⟩
  · rwa [BitVec.ofNat_toNat, BitVec.setWidth_eq]

/-- Freeing a cluster keeps the count right. -/
theorem FreeExact.freed {v : Vol δ} {w : Window δ} (h : FreeExact l v) (hc : l.Cluster c)
    (hused : v.table l c ≠ 0#32) (hfree : fatEntry l w.view c = 0#32)
    (hothers : ∀ x, x ≠ c → fatEntry l w.view x = v.table l x) : FreeExact l (v.freed l w) := by
  have hcount : freeCount l (fatEntry l w.view) = freeCount l (v.table l) + 1 := by
    refine freeCount_succ hc hused fun x _ => ?_
    by_cases hx : x = c
    · rw [hx]
      exact ⟨fun _ => Or.inl rfl, fun _ => hfree⟩
    · rw [hothers x hx]
      exact ⟨Or.inr, fun hor => hor.resolve_left hx⟩
  have hle := freeCount_le l (fatEntry l w.view)
  have htwo := toNat_nFatent_sub_two l
  have hlt := nFatent_lt l
  intro hknown
  rw [(table_freed l v w).1, hcount]
  unfold Vol.freed at hknown ⊢
  split
  · rename_i hless
    have hold := h (BitVec.le_of_lt hless)
    rw [BitVec.lt_def, htwo] at hless
    simp only [BitVec.toNat_add, show (1#32).toNat = 1 from rfl]
    omega
  · -- all clusters would have been free before
    rename_i hmore
    rw [if_neg hmore] at hknown
    have hold := h hknown
    rw [BitVec.lt_def, htwo] at hmore
    omega

end Free

section Remove

variable {l : Layout} {v : Vol δ} {clst : BitVec 32}

/-- What the removal of a chain comes to. Nothing else is touched, even if it fails. -/
def RemoveEnd (l : Layout) (v : Vol δ) (chain : List (BitVec 32)) (r : FResult × Vol δ) : Prop :=
  TableKept l v.window r.2.window ∧ SameOutside l v.window r.2.window ∧
    (∀ c, c ∉ chain → r.2.table l c = v.table l c) ∧
    (r.1 = .ok ∧ (∀ c ∈ chain, r.2.table l c = 0#32) ∧ (FreeExact l v → FreeExact l r.2) ∨
      r.1 = .diskErr ∧ ¬Works v.window.disk)

/-- The loop with rounds enough. -/
theorem removeLoop_spec {fuel : ℕ} {rest : List (BitVec 32)} (h : v.window.Coherent l)
    (hchain : Linked (v.table l) l.Cluster l.End clst (clst :: rest)) (hfuel : rest.length < fuel) :
    RemoveEnd l v (clst :: rest) (removeLoop l fuel v clst) := by
  induction fuel generalizing v clst rest with
  | zero => omega
  | succ fuel ih =>
    have hc : l.Cluster clst := hchain.nodes clst List.mem_cons_self
    obtain ⟨hnext, hend⟩ :=
      (show Linked (v.table l) l.Cluster l.End clst ([] ++ clst :: rest) from hchain).next_eq
    obtain ⟨hkept, hview, hres⟩ := getFat_spec h hc
    rw [removeLoop]
    generalize getFat l.toGeometry v.window clst = p at hkept hview hres
    obtain ⟨nxt, w⟩ := p
    simp only at hkept hview hres
    rcases hres with rfl | ⟨rfl, hfail⟩
    · have hnext' := hchain.next_or List.mem_cons_self
      have hzero : fatEntry l v.window.view clst ≠ 0#32 := ne_of_next hnext' (by decide)
      have hone : fatEntry l v.window.view clst ≠ 1#32 := ne_of_next hnext' (by decide)
      rw [if_neg hzero, if_neg hone, if_neg (fatEntry_ne_diskErr l _ _)]
      obtain ⟨hkept', hout, hothers, hres⟩ := putFat_spec hkept.coherent hc 0#32
      generalize putFat l.toGeometry w clst 0#32 = p at hkept' hout hothers hres
      obtain ⟨res, w'⟩ := p
      simp only [hview.fatEntry, clip_zero] at hkept' hout hothers hres
      have hkeep := hkept.trans hkept'
      have houts := hview.outside.trans hout
      rcases hres with ⟨⟨rfl, -⟩, hfree⟩ | ⟨⟨rfl, hfail⟩, -⟩
      · simp only
        obtain ⟨htable, hwindow⟩ := table_freed l v w'
        have hexact : FreeExact l v → FreeExact l (v.freed l w') := fun hexact =>
          hexact.freed hc hzero hfree hothers
        cases rest with
        | nil =>
          rw [if_neg (BitVec.not_lt.mpr (hend rfl))]
          refine ⟨by rwa [hwindow], by rwa [hwindow], fun c hc' => ?_, Or.inl ⟨rfl, fun c hc' => ?_,
            hexact⟩⟩
          · rw [htable]
            exact hothers c (by simpa using hc')
          · rw [htable, List.mem_singleton.mp hc']
            exact hfree
        | cons b rest =>
          have hb : fatEntry l v.window.view clst = b := hnext b (by simp)
          have hcb : l.Cluster b := hchain.nodes b (by simp)
          rw [hb, if_pos hcb.2]
          have hnot : clst ∉ b :: rest :=
            (List.nodup_cons.mp (hchain.nodup (not_cluster_of_end l))).1
          have hrest : Linked ((v.freed l w').table l) l.Cluster l.End b (b :: rest) := by
            have htail := hchain.tail
            rw [Vol.table, hb] at htail
            refine htail.congr fun a ha => ?_
            rw [htable]
            exact hothers a fun heq => hnot (heq ▸ ha)
          have hcoh : (v.freed l w').window.Coherent l := by
            rw [hwindow]
            exact hkeep.coherent
          obtain ⟨hkept'', hout'', hothers'', hres''⟩ := ih hcoh hrest (by
            simp only [List.length_cons] at hfuel
            omega)
          rw [hwindow] at hkept'' hout''
          rw [htable] at hothers''
          refine ⟨hkeep.trans hkept'', houts.trans hout'', fun c hc' => ?_, ?_⟩
          · rw [hothers'' c fun hmem => hc' (List.mem_cons_of_mem _ hmem)]
            exact hothers c fun heq => hc' (heq ▸ List.mem_cons_self)
          · rcases hres'' with ⟨hok, hfreed, hexact'⟩ | ⟨herr, hfail⟩
            · refine Or.inl ⟨hok, fun c hc' => ?_, fun hex => hexact' (hexact hex)⟩
              rcases List.mem_cons.mp hc' with rfl | hmem
              · rw [hothers'' c hnot]
                exact hfree
              · exact hfreed c hmem
            · refine Or.inr ⟨herr, fun hworks => hfail ?_⟩
              rw [hwindow]
              exact hkeep.works hworks
      · exact ⟨hkeep, houts, fun c hc' => hothers c fun heq => hc' (heq ▸ List.mem_cons_self),
          Or.inr ⟨rfl, fun hworks => hfail (hkept.works hworks)⟩⟩
    · exact ⟨hkept, hview.outside, fun c _ => hview.fatEntry l c, Or.inr ⟨rfl, hfail⟩⟩

/-- A chain is not longer than the volume. -/
theorem length_lt_of_linked {F : Entries} {first : BitVec 32} {chain : List (BitVec 32)}
    (h : Linked F l.Cluster l.End first chain) : chain.length < l.nFatent.toNat := by
  have htwo := l.two_lt
  have hnodup : (chain.map BitVec.toNat).Nodup :=
    (h.nodup (not_cluster_of_end l)).map fun _ _ => BitVec.eq_of_toNat_eq
  have hsub : chain.map BitVec.toNat ⊆ (List.range (l.nFatent.toNat - 2)).map (· + 2) := by
    intro n hn
    obtain ⟨c, hc, rfl⟩ := List.mem_map.mp hn
    have hlow := two_le_of_cluster (h.nodes c hc)
    have hhigh := BitVec.lt_def.mp (h.nodes c hc).2
    exact List.mem_map.mpr ⟨c.toNat - 2, List.mem_range.mpr (by omega), by omega⟩
  have hlen := (hnodup.subperm hsub).length_le
  rw [List.length_map, List.length_map, List.length_range] at hlen
  omega

/-- **What `remove_chain` does** to a chain and the cluster in front of it. -/
theorem removeChain_spec {rest : List (BitVec 32)} (pclst : BitVec 32) (h : v.window.Coherent l)
    (hchain : Linked (v.table l) l.Cluster l.End clst (clst :: rest))
    (hp : pclst ≠ 0#32 → l.Cluster pclst ∧ v.table l pclst ≠ 0#32 ∧ pclst ∉ clst :: rest) :
    let r := removeChain l v clst pclst
    TableKept l v.window r.2.window ∧ SameOutside l v.window r.2.window ∧
      (∀ c, c ∉ clst :: rest → c ≠ pclst → r.2.table l c = v.table l c) ∧
      (r.1 = .ok ∧ (∀ c ∈ clst :: rest, r.2.table l c = 0#32) ∧
          (pclst ≠ 0#32 → l.End (r.2.table l pclst)) ∧ (FreeExact l v → FreeExact l r.2) ∨
        r.1 = .diskErr ∧ ¬Works v.window.disk) := by
  have hfuel : rest.length < l.nFatent.toNat :=
    (Nat.lt_succ_self _).trans (length_lt_of_linked hchain)
  have hc : l.Cluster clst := hchain.nodes clst List.mem_cons_self
  intro r
  simp only [r, removeChain, if_neg (not_out_of_cluster hc)]
  split
  · rename_i hzero
    obtain ⟨hcp, hused, hnot⟩ := hp hzero
    obtain ⟨hkept, hout, hothers, hres⟩ := putFat_spec h hcp 0xFFFFFFFF#32
    generalize putFat l.toGeometry v.window pclst 0xFFFFFFFF#32 = p at hkept hout hothers hres
    obtain ⟨res, w⟩ := p
    simp only at hkept hout hothers hres
    rcases hres with ⟨⟨rfl, -⟩, hend⟩ | ⟨⟨rfl, hfail⟩, -⟩
    · have hrest : Linked (Vol.table l { v with window := w }) l.Cluster l.End clst (clst :: rest) :=
        hchain.congr fun a ha => hothers a fun heq => hnot (heq ▸ ha)
      have hsame : FreeExact l v → FreeExact l { v with window := w } := by
        intro hexact hknown
        rw [show (Vol.freeClst { v with window := w }).toNat = v.freeClst.toNat from rfl,
          hexact hknown]
        refine (freeCount_congr fun x _ => ?_).symm
        by_cases hx : x = pclst
        · rw [hx]
          exact ⟨fun hcon => absurd (hend.symm.trans hcon) (ne_of_next (Or.inr (nFatent_le_clip_eoc l))
            (by decide)), fun hcon => absurd hcon hused⟩
        · exact iff_of_eq (congrArg (· = 0#32) (hothers x hx))
      obtain ⟨hkept', hout', hothers', hres'⟩ :=
        removeLoop_spec (v := { v with window := w }) hkept.coherent hrest hfuel
      refine ⟨hkept.trans hkept', hout.trans hout', fun c hc' hne =>
        (hothers' c hc').trans (hothers c hne), ?_⟩
      rcases hres' with ⟨hok, hfreed, hexact⟩ | ⟨herr, hfail⟩
      · refine Or.inl ⟨hok, hfreed, fun _ => ?_, fun hex => hexact (hsame hex)⟩
        rw [hothers' pclst hnot]
        show l.nFatent ≤ fatEntry l w.view pclst
        rw [hend]
        exact nFatent_le_clip_eoc l
      · exact Or.inr ⟨herr, fun hworks => hfail (hkept.works hworks)⟩
    · exact ⟨hkept, hout, fun c _ hne => hothers c hne, Or.inr ⟨rfl, hfail⟩⟩
  · rename_i hzero
    obtain ⟨hkept, hout, hothers, hres⟩ := removeLoop_spec h hchain hfuel
    refine ⟨hkept, hout, fun c hc' _ => hothers c hc', ?_⟩
    rcases hres with ⟨hok, hfreed, hexact⟩ | herr
    · exact Or.inl ⟨hok, hfreed, fun hne => absurd hne hzero, hexact⟩
    · exact Or.inr herr

/-- **A chain is cut off** behind some of its clusters, or removed. -/
theorem removeChain_cut {first : BitVec 32} {front rest : List (BitVec 32)}
    (h : v.window.Coherent l)
    (hchain : Linked (v.table l) l.Cluster l.End first (front ++ clst :: rest)) :
    let r := removeChain l v clst (front.getLast?.getD 0#32)
    TableKept l v.window r.2.window ∧ SameOutside l v.window r.2.window ∧
      (∀ c, l.Cluster c → c ∉ front ++ clst :: rest → r.2.table l c = v.table l c) ∧
      (r.1 = .ok ∧ (∀ a ∈ front.head?, Linked (r.2.table l) l.Cluster l.End a front) ∧
          (∀ c ∈ clst :: rest, r.2.table l c = 0#32) ∧ (FreeExact l v → FreeExact l r.2) ∨
        r.1 = .diskErr ∧ ¬Works v.window.disk) := by
  have hnodup := List.nodup_append.mp (hchain.nodup (not_cluster_of_end l))
  obtain ⟨m, -, hrest⟩ := hchain.drop
  obtain rfl := hrest.head
  rcases List.eq_nil_or_concat front with rfl | ⟨xs, p, rfl⟩
  · obtain ⟨hkept, hout, hothers, hres⟩ :=
      removeChain_spec 0#32 h hrest fun hne => absurd rfl hne
    refine ⟨hkept, hout, fun c hc hnot => hothers c hnot (ne_of_next (Or.inl hc) (by decide)), ?_⟩
    rcases hres with ⟨hok, hfreed, -, hexact⟩ | herr
    · exact Or.inl ⟨hok, fun a ha => by simp at ha, hfreed, hexact⟩
    · exact Or.inr herr
  · simp only [List.concat_eq_append] at hchain hnodup ⊢
    have hlast : (xs ++ [p]).getLast?.getD 0#32 = p := by simp
    rw [hlast]
    have hp : p ∈ xs ++ [p] := by simp
    have hnot : p ∉ m :: rest := fun hmem => hnodup.2.2 p hp p hmem rfl
    have hused : v.table l p ≠ 0#32 :=
      ne_of_next (hchain.next_or (List.mem_append_left _ hp)) (by decide)
    obtain ⟨hkept, hout, hothers, hres⟩ := removeChain_spec p h hrest fun _ =>
      ⟨hchain.nodes p (List.mem_append_left _ hp), hused, hnot⟩
    refine ⟨hkept, hout, fun c _ hmem => ?_, ?_⟩
    · rw [List.mem_append, not_or] at hmem
      exact hothers c hmem.2 fun heq => hmem.1 (heq ▸ hp)
    · rcases hres with ⟨hok, hfreed, hmark, hexact⟩ | herr
      · refine Or.inl ⟨hok, fun a ha => ?_, hfreed, hexact⟩
        have hfirst : first = a := hchain.eq_of_mem_head? (by
          rw [List.head?_append, Option.mem_def.mp ha]
          rfl)
        have hzero : p ≠ 0#32 :=
          ne_of_next (Or.inl (hchain.nodes p (List.mem_append_left _ hp))) (by decide)
        rw [List.append_assoc] at hchain
        rw [← hfirst]
        refine hchain.cut (fun b hb => ?_) (hmark hzero)
        have hbp : b ∈ xs ++ [p] := List.mem_append_left _ hb
        refine hothers b (fun hmem => hnodup.2.2 b hbp b hmem rfl) ?_
        rintro rfl
        exact (List.nodup_append.mp hnodup.1).2.2 b hb b (List.mem_singleton_self b) rfl
      · exact Or.inr herr

end Remove

/-! ### Several chains -/

section Several

variable {l : Layout} {v v' : Vol δ} {clst r : BitVec 32}

/-- Whatever `create_chain` comes to, it leaves the clusters in use but the one it stretches from. -/
theorem CreateEnd.others (h : CreateEnd l v clst r v') {c : BitVec 32} (hc : v.table l c ≠ 0#32)
    (hne : c ≠ clst) : v'.table l c = v.table l c := by
  cases h with
  | follows _ _ _ hsame _ => exact hsame.fatEntry l c
  | full _ _ _ hsame _ => exact hsame.fatEntry l c
  | insane _ _ hsame _ => exact hsame.fatEntry l c
  | failed _ _ hothers _ _ _ => exact hothers c hc hne
  | created _ _ hfree _ _ hothers _ _ _ =>
    refine hothers c ?_ hne
    rintro rfl
    exact hc hfree

theorem CreateEnd.outside (h : CreateEnd l v clst r v') : SameOutside l v.window v'.window := by
  cases h with
  | follows _ _ _ hsame _ => exact hsame.outside
  | full _ _ _ hsame _ => exact hsame.outside
  | insane _ _ hsame _ => exact hsame.outside
  | failed _ _ _ _ hout _ => exact hout
  | created _ _ _ _ _ _ _ hout _ => exact hout

/-- A volume that is reported full is left as it is. -/
theorem CreateEnd.of_zero (h : CreateEnd l v clst 0#32 v') :
    SameView l v.window v'.window ∧
      (v.freeClst = 0#32 ∨ ∀ c, l.Cluster c → v.table l c ≠ 0#32) := by
  cases h with
  | follows _ _ hnext _ _ => exact absurd (two_le_of_cluster hnext) (by decide)
  | full _ _ hfull hsame _ => exact ⟨hsame, hfull⟩
  | insane hr _ _ _ => exact absurd hr (by decide)
  | failed hr _ _ _ _ _ => exact absurd hr (by decide)
  | created _ hr _ _ _ _ _ _ _ => exact absurd (two_le_of_cluster hr) (by decide)

theorem freeExact_of_sameView (hexact : FreeExact l v) (hsame : SameView l v.window v'.window)
    (hvol : v' = { v with window := v'.window }) : FreeExact l v' := by
  have htable : v'.table l = v.table l := funext (hsame.fatEntry l)
  have hfree : v'.freeClst = v.freeClst := by rw [hvol]
  intro hknown
  rw [hfree] at hknown ⊢
  rw [htable]
  exact hexact hknown

/-- Without a disk error, the count of free clusters stays right. -/
theorem CreateEnd.freeExact (h : CreateEnd l v clst r v') (hworks : Works v.window.disk)
    (hexact : FreeExact l v) : FreeExact l v' := by
  cases h with
  | follows _ _ _ hsame hvol => exact freeExact_of_sameView hexact hsame hvol
  | full _ _ _ hsame hvol => exact freeExact_of_sameView hexact hsame hvol
  | insane _ _ hsame hvol => exact freeExact_of_sameView hexact hsame hvol
  | failed _ hfail _ _ _ _ => exact absurd hworks hfail
  | created hlast hr hfree hnew hlink hothers _ _ hvol =>
    have hend : l.End (v'.table l r) := by
      rw [hnew]
      exact nFatent_le_clip_eoc l
    have hused : v'.table l r ≠ 0#32 := ne_of_next (Or.inr hend) (by decide)
    have hcount : freeCount l (v.table l) = freeCount l (v'.table l) + 1 := by
      refine freeCount_succ hr hused fun x hx => ?_
      by_cases hxr : x = r
      · rw [hxr]
        exact ⟨fun _ => Or.inl rfl, fun _ => hfree⟩
      by_cases hxc : x = clst
      · -- the cluster that is stretched from is in use, before and afterwards
        have hzero : clst ≠ 0#32 := by
          rintro rfl
          exact absurd (two_le_of_cluster (hxc ▸ hx)) (by decide)
        rw [hxc, hlink hzero]
        exact ⟨fun hcon => absurd hcon (ne_of_next (Or.inr (hlast hzero).2) (by decide)),
          fun hor => absurd (hor.resolve_left (hxc ▸ hxr)) (ne_of_next (Or.inl hr) (by decide))⟩
      · rw [hothers x hxr hxc]
        exact ⟨Or.inr, fun hor => hor.resolve_left hxr⟩
    have htwo := toNat_nFatent_sub_two l
    have hlt := nFatent_lt l
    intro hknown
    rw [show v'.freeClst = _ from congrArg Vol.freeClst hvol] at hknown ⊢
    simp only at hknown ⊢
    split
    · rename_i hle
      have hold := hexact hle
      rw [BitVec.toNat_sub_of_le (BitVec.le_def.mpr (by
        rw [show (1#32).toNat = 1 from rfl]
        omega)), show (1#32).toNat = 1 from rfl]
      omega
    · rename_i hmore
      rw [if_neg hmore] at hknown
      exact absurd hknown hmore

section Shared

variable {ι : Type} {own : ι → List (BitVec 32)} {i : ι} {F F' : Entries} {chain : List (BitVec 32)}

/-- The table in which each owner has a chain. -/
abbrev SharedIn (l : Layout) (F : Entries) (own : ι → List (BitVec 32)) : Prop :=
  Shared F l.Cluster l.End own

theorem SharedIn.used (h : SharedIn l F own) {c : BitVec 32} (hc : c ∈ own i) : F c ≠ 0#32 :=
  ne_of_next (h.next_or hc) (by decide)

/-- **One owner changes the table** in entries of its own and of free clusters only. -/
theorem SharedIn.change [DecidableEq ι] (h : SharedIn l F own)
    (hothers : ∀ c, l.Cluster c → F c ≠ 0#32 → c ∉ own i → F' c = F c)
    (hnew : ∀ a ∈ chain.head?, Linked F' l.Cluster l.End a chain)
    (hfrom : ∀ c ∈ chain, c ∈ own i ∨ F c = 0#32) :
    SharedIn l F' (Function.update own i chain) := by
  refine h.replace (fun j hj a ha => ?_) hnew fun j hj a ha hmem => ?_
  · exact hothers a (h.nodes ha) (SharedIn.used h ha) (h.apart j i hj a ha)
  · rcases hfrom a ha with hi | hfree
    · exact h.apart i j hj.symm a hi hmem
    · exact SharedIn.used h hmem hfree

/-- An owner gives up its chain. -/
theorem SharedIn.drop [DecidableEq ι] (h : SharedIn l F own)
    (hothers : ∀ c, l.Cluster c → F c ≠ 0#32 → c ∉ own i → F' c = F c) :
    SharedIn l F' (Function.update own i []) :=
  SharedIn.change h hothers (fun a ha => by simp at ha) fun c hc => by simp at hc

/-- A new chain. -/
theorem CreateEnd.first (h : CreateEnd l v 0#32 r v') (hr : l.Cluster r) :
    v.table l r = 0#32 ∧ ¬l.InData v'.window.winsect ∧
      Linked (v'.table l) l.Cluster l.End r [r] := by
  cases h with
  | follows hclst _ _ _ _ => exact absurd (two_le_of_cluster hclst) (by decide)
  | full _ hzero _ _ _ => exact absurd hzero (ne_of_next (Or.inl hr) (by decide))
  | insane hone _ _ _ => exact absurd hone (ne_of_next (Or.inl hr) (by decide))
  | failed herr _ _ _ _ _ => exact absurd (herr ▸ hr) (not_cluster_diskErr l)
  | created _ _ hfree hnew _ _ hplace _ _ =>
    refine ⟨hfree, hplace, Linked.single hr ?_⟩
    rw [hnew]
    exact nFatent_le_clip_eoc l

/-- A chain is followed, or stretched from its last cluster. -/
theorem CreateEnd.next {xs ys : List (BitVec 32)} {first : BitVec 32}
    (h : CreateEnd l v clst r v') (hr : l.Cluster r)
    (hchain : Linked (v.table l) l.Cluster l.End first (xs ++ clst :: ys)) :
    (∃ ys', ys = r :: ys' ∧ SameView l v.window v'.window) ∨
      ys = [] ∧ v.table l r = 0#32 ∧ (∀ c, c ≠ r → c ≠ clst → v'.table l c = v.table l c) ∧
        ¬l.InData v'.window.winsect ∧
        Linked (v'.table l) l.Cluster l.End first (xs ++ clst :: [r]) := by
  have hclst : l.Cluster clst := hchain.nodes clst (by simp)
  obtain ⟨hnext, hend⟩ := hchain.next_eq
  cases h with
  | follows _ heq _ hsame _ =>
    cases ys with
    | nil => exact absurd (heq ▸ hr) (not_cluster_of_end l _ (hend rfl))
    | cons b ys =>
      have hb : v.table l clst = b := hnext b (by simp)
      exact Or.inl ⟨ys, by rw [heq, hb], hsame⟩
  | full _ hzero _ _ _ => exact absurd hzero (ne_of_next (Or.inl hr) (by decide))
  | insane hone _ _ _ => exact absurd hone (ne_of_next (Or.inl hr) (by decide))
  | failed herr _ _ _ _ _ => exact absurd (herr ▸ hr) (not_cluster_diskErr l)
  | created hlast _ hfree hnew hlink hothers hplace _ _ =>
    have hzero : clst ≠ 0#32 := ne_of_next (Or.inl hclst) (by decide)
    cases ys with
    | nil =>
      have hnot : clst ∉ xs := by
        have hnodup := hchain.nodup (not_cluster_of_end l)
        rw [List.nodup_append] at hnodup
        exact fun hmem => hnodup.2.2 clst hmem clst (by simp) rfl
      refine Or.inr ⟨rfl, hfree, hothers, hplace, ?_⟩
      have hold : ∀ b ∈ xs, v'.table l b = v.table l b := by
        intro b hb
        refine hothers b ?_ fun heq => hnot (heq ▸ hb)
        rintro rfl
        exact ne_of_next (hchain.next_or (List.mem_append_left _ hb)) (by decide) hfree
      have hmark : l.End (v'.table l r) := by
        rw [hnew]
        exact nFatent_le_clip_eoc l
      simpa using hchain.stretch hold (hlink hzero) hr hmark
    | cons b ys =>
      -- the last cluster of a chain is not followed
      have hb : v.table l clst = b := hnext b (by simp)
      have hcb : l.Cluster b := hchain.nodes b (by simp)
      exact absurd (hb ▸ hcb) (not_cluster_of_end l _ (hlast hzero).2)

/-- A chain is stretched, or begun. -/
theorem CreateEnd.stretch (h : CreateEnd l v (chain.getLast?.getD 0#32) r v') (hr : l.Cluster r)
    (hchain : ∀ a ∈ chain.head?, Linked (v.table l) l.Cluster l.End a chain) :
    v.table l r = 0#32 ∧
      ∀ a ∈ (chain ++ [r]).head?, Linked (v'.table l) l.Cluster l.End a (chain ++ [r]) := by
  rcases List.eq_nil_or_concat chain with rfl | ⟨xs, last, rfl⟩
  · obtain ⟨hfree, -, hsingle⟩ := h.first hr
    exact ⟨hfree, by simpa using hsingle⟩
  · simp only [List.concat_eq_append, List.getLast?_append, List.getLast?_singleton,
      Option.some_or, Option.getD_some] at h hchain ⊢
    cases hhead : (xs ++ [last]).head? with
    | none => simp at hhead
    | some a =>
      rcases h.next hr (hchain a hhead) with ⟨ys, hys, -⟩ | ⟨-, hfree, -, -, hlinked⟩
      · cases hys
      · refine ⟨hfree, fun b hb => ?_⟩
        have hba : b = a := by
          rw [List.head?_append, hhead] at hb
          simpa using hb.symm
        rw [hba, List.append_assoc]
        exact hlinked

end Shared

end Several

/-! ### Whole runs -/

/-- A volume and the chains in it, each with an owner. An owner whose call has failed is given up, like
a file that is closed to further calls: what is left of its chain stays in the table, and nobody
knows any more what that is. -/
structure Chains (δ : Type) where
  vol : Vol δ
  own : ℕ → Option (List (BitVec 32))

/-- The chain of an owner that has not been given up. -/
def Chains.chain (s : Chains δ) (i : ℕ) : List (BitVec 32) := (s.own i).getD []

inductive ChainOp where
  | create (i : ℕ)
  | cut (i k : ℕ)

inductive ChainOut where
  | cluster (r : BitVec 32)
  | result (res : FResult)
  /-- The owner has been given up. -/
  | refused
  deriving DecidableEq

/-- An owner stretches its chain, as writing and seeking do, and is given up after an error. -/
def createFor (g : Geometry) (s : Chains δ) (i : ℕ) : ChainOut × Chains δ :=
  match s.own i with
  | none => (.refused, s)
  | some chain =>
      let r := createChain g s.vol (chain.getLast?.getD 0#32)
      (.cluster r.1, ⟨r.2,
        if g.Cluster r.1 then Function.update s.own i (some (chain ++ [r.1]))
        else if r.1 = 0#32 then s.own
        else Function.update s.own i none⟩)

/-- An owner cuts its chain off behind some clusters, as truncating and deleting do, and is given up
after an error. -/
def cutFor (g : Geometry) (s : Chains δ) (i k : ℕ) : ChainOut × Chains δ :=
  match s.own i with
  | none => (.refused, s)
  | some chain =>
      match chain.drop k with
      | [] => (.result .ok, s)
      | c :: _ =>
          let r := removeChain g s.vol c ((chain.take k).getLast?.getD 0#32)
          (.result r.1, ⟨r.2, Function.update s.own i (if r.1 = .ok then some (chain.take k) else none)⟩)

def chainStep (g : Geometry) (s : Chains δ) : ChainOp → ChainOut × Chains δ
  | .create i => createFor g s i
  | .cut i k => cutFor g s i k

/-- The chains share the table, and as long as the disk works the count of free clusters is
right. -/
structure Chains.Sound (l : Layout) (works : Prop) (s : Chains δ) : Prop where
  coherent : s.vol.window.Coherent l
  shared : SharedIn l (s.vol.table l) s.chain
  count : works → Works s.vol.window.disk ∧ FreeExact l s.vol

section ChainRuns

variable {l : Layout} {works : Prop} {s : Chains δ}

omit [DiskIo δ] in
theorem chain_update (v : Vol δ) (i : ℕ) (x : Option (List (BitVec 32))) :
    (⟨v, Function.update s.own i x⟩ : Chains δ).chain = Function.update s.chain i (x.getD []) :=
  Function.comp_update (fun o : Option (List (BitVec 32)) => o.getD []) s.own i x

theorem Chains.Sound.create (h : s.Sound l works) (i : ℕ) : (createFor l s i).2.Sound l works := by
  unfold createFor
  split
  · exact h
  rename_i chain hown
  have hchain : s.chain i = chain := by rw [Chains.chain, hown, Option.getD_some]
  obtain ⟨hkept, hend⟩ := createChain_spec h.coherent (chain.getLast?.getD 0#32)
  generalize createChain l.toGeometry s.vol _ = p at hkept hend
  obtain ⟨r, v'⟩ := p
  simp only at hkept hend
  refine ⟨hkept.coherent, ?_, fun hworks => ⟨hkept.works (h.count hworks).1,
    hend.freeExact (h.count hworks).1 (h.count hworks).2⟩⟩
  have hlinked := h.shared.linked i
  have hothers : ∀ c, l.Cluster c → s.vol.table l c ≠ 0#32 → c ∉ s.chain i →
      v'.table l c = s.vol.table l c := by
    intro c hc hused hnot
    refine hend.others hused ?_
    rintro rfl
    rw [hchain] at hnot
    rcases List.eq_nil_or_concat chain with hnil | ⟨xs, last, hcat⟩
    · rw [hnil] at hc
      exact absurd (two_le_of_cluster hc) (by decide)
    · rw [hcat] at hnot
      simp at hnot
  simp only
  split
  · rename_i hr
    rw [hchain] at hlinked
    obtain ⟨hfree, hnew⟩ := hend.stretch hr hlinked
    rw [chain_update]
    refine SharedIn.change h.shared hothers hnew fun c hc => ?_
    rcases List.mem_append.mp hc with hold | hc
    · exact Or.inl (hchain ▸ hold)
    · rw [List.mem_singleton.mp hc]
      exact Or.inr hfree
  · split
    · rename_i hr
      rw [hr] at hend
      rw [show v'.table l = s.vol.table l from funext (hend.of_zero.1.fatEntry l)]
      exact h.shared
    · rw [chain_update]
      exact SharedIn.drop h.shared hothers

theorem Chains.Sound.cut (h : s.Sound l works) (i k : ℕ) : (cutFor l s i k).2.Sound l works := by
  unfold cutFor
  split
  · exact h
  rename_i chain hown
  have hchain : s.chain i = chain := by rw [Chains.chain, hown, Option.getD_some]
  split
  · exact h
  · rename_i c rest hdrop
    have hsplit : chain = chain.take k ++ c :: rest := by
      rw [← hdrop, List.take_append_drop]
    obtain ⟨first, hfirst⟩ : ∃ a, a ∈ chain.head? := by
      cases chain with
      | nil => simp at hdrop
      | cons a own => exact ⟨a, rfl⟩
    have hlinked := h.shared.linked i first (by rwa [hchain])
    rw [hchain, hsplit] at hlinked
    obtain ⟨hkept, hout, hothers, hres⟩ := removeChain_cut h.coherent hlinked
    rw [← hsplit] at hothers
    have hothers' : ∀ x, l.Cluster x → s.vol.table l x ≠ 0#32 → x ∉ s.chain i → _ :=
      fun x hx _ hnot => hothers x hx (hchain ▸ hnot)
    generalize removeChain l.toGeometry s.vol c _ = r at hkept hres hothers'
    obtain ⟨res, v'⟩ := r
    simp only at hkept hres hothers' ⊢
    rcases hres with ⟨rfl, hfront, -, hexact⟩ | ⟨rfl, hfail⟩
    · refine ⟨hkept.coherent, ?_, fun hworks =>
        ⟨hkept.works (h.count hworks).1, hexact (h.count hworks).2⟩⟩
      rw [chain_update]
      exact SharedIn.change h.shared hothers' hfront
        fun x hx => Or.inl (hchain ▸ List.mem_of_mem_take hx)
    · refine ⟨hkept.coherent, ?_, fun hworks => absurd (h.count hworks).1 hfail⟩
      rw [chain_update]
      exact SharedIn.drop h.shared hothers'

/-- **Chains do not meet**: in every run of `create_chain` and `remove_chain`, whichever transfers
fail, the chain of each owner that has not been given up leads from its first cluster to an end, and no
two of them have a cluster in common. As long as the disk works, the count of free clusters stays right,
and a volume is reported full only if no cluster is free. -/
theorem chainsApart {s₀ : Chains δ} {h : List (ChainOp × ChainOut)}
    (hcoh : s₀.vol.window.Coherent l) (hshared : SharedIn l (s₀.vol.table l) s₀.chain)
    (hr : Reach (fnStep (chainStep l)) Always s₀ h s) :
    SharedIn l (s.vol.table l) s.chain ∧
      (Works s₀.vol.window.disk → FreeExact l s₀.vol → FreeExact l s.vol ∧
        ∀ i, (createFor l s i).1 = .cluster 0#32 → ∀ c, l.Cluster c → s.vol.table l c ≠ 0#32) := by
  have hsound : s.Sound l (Works s₀.vol.window.disk ∧ FreeExact l s₀.vol) := by
    refine hr.fnInvariant (fun _ s => s.Sound l (Works s₀.vol.window.disk ∧ FreeExact l s₀.vol))
      ⟨hcoh, hshared, id⟩ fun _ s op hinv _ => ?_
    cases op with
    | create i => exact hinv.create i
    | cut i k => exact hinv.cut i k
  refine ⟨hsound.shared, fun hworks hexact => ?_⟩
  obtain ⟨-, hcount⟩ := hsound.count ⟨hworks, hexact⟩
  refine ⟨hcount, fun i hzero c hc hfree => ?_⟩
  obtain ⟨chain, hown⟩ : ∃ chain, s.own i = some chain := by
    refine Option.ne_none_iff_exists'.mp fun hnone => ?_
    simp [createFor, hnone] at hzero
  obtain ⟨-, hend⟩ := createChain_spec hsound.coherent (chain.getLast?.getD 0#32)
  simp only [createFor, hown, ChainOut.cluster.injEq] at hzero
  rw [hzero] at hend
  rcases hend.of_zero.2 with hnone | hfull
  · -- none is thought to be free, and the count is right
    have hcount' := hcount (by rw [hnone, BitVec.le_def]; exact Nat.zero_le _)
    have hpos := freeCount_pos hc hfree
    rw [hnone, show (0#32).toNat = 0 from rfl] at hcount'
    omega
  · exact hfull c hc hfree

/-- An empty volume on a disk that works, with the count of its free clusters. -/
def smallChains : Chains Disk where
  vol := ⟨⟨⟨fun _ _ => 0#8, fun _ => none⟩, 1#32, fun _ => 0#8, false⟩, 0#32, 10#32, 0#8⟩
  own := fun _ => some []

/-- Two owners stretch their chains, and one cuts its own off again. -/
def smallChainOps : List ChainOp := [.create 0, .create 1, .create 0, .cut 0 1]

/-- The volume after that. -/
def smallChainsRun : List (ChainOp × ChainOut) × Chains Disk :=
  runFn (chainStep smallLayout) [] smallChains smallChainOps

theorem chainsApart_small :
    smallChainsRun.2.own 0 = some [2#32] ∧ smallChainsRun.2.own 1 = some [3#32] ∧
      smallChainsRun.2.vol.freeClst = 8#32 ∧
      SharedIn smallLayout (smallChainsRun.2.vol.table smallLayout) smallChainsRun.2.chain ∧
      FreeExact smallLayout smallChainsRun.2.vol := by
  have hcoh : smallChains.vol.window.Coherent smallLayout :=
    ⟨fun htrue => (by cases htrue), fun _ _ => rfl⟩
  have hshared : SharedIn smallLayout (smallChains.vol.table smallLayout) smallChains.chain :=
    ⟨fun _ a ha => (by cases ha), fun _ _ _ a ha => (by cases ha)⟩
  have hexact : FreeExact smallLayout smallChains.vol := fun _ => by decide +kernel
  have hreach : Reach (fnStep (chainStep smallLayout)) Always smallChains smallChainsRun.1
      smallChainsRun.2 := reach_runFn okAlong_always
  obtain ⟨happart, hcount⟩ := chainsApart hcoh hshared hreach
  exact ⟨by decide +kernel, by decide +kernel, by decide +kernel, happart,
    (hcount (Disk.works fun _ => rfl) hexact).1⟩

end ChainRuns

end FatFs

end BareMetal
