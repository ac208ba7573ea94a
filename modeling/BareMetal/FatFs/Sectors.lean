import Mathlib.Data.List.GetD
import BareMetal.FatFs.Chain

/-!
# The sectors of a chain

The clusters of a volume lie one behind the other from the data area on, each of as many sectors. So the
sectors of a file are those of its clusters (`BareMetal.FatFs.sectorOf`), none of them twice
(`BareMetal.FatFs.sectorOf_inj`), and inside a cluster they are consecutive, which is what transfers of
several sectors rely on (`BareMetal.FatFs.sectorOf_add`).
-/

namespace BareMetal

namespace FatFs

/-- `clst2sect`: the first sector of a cluster, 0 if there is no such cluster. -/
def clst2sect (g : Geometry) (clst : BitVec 32) : BitVec 32 :=
  if clst - 2#32 ≥ g.nFatent - 2#32 then 0#32
  else g.database + g.csize.setWidth 32 * (clst - 2#32)

/-- The sectors of a cluster. -/
def sectorIn (g : Geometry) (c : BitVec 32) (k : ℕ) : BitVec 32 := clst2sect g c + BitVec.ofNat 32 k

/-- **The sectors of a file**, in order, if these are its clusters. -/
def sectorOf (g : Geometry) (chain : List (BitVec 32)) (k : ℕ) : BitVec 32 :=
  sectorIn g (chain.getD (k / g.csize.toNat) 0#32) (k % g.csize.toNat)

section Numbers

variable {l : Layout} {c c' : BitVec 32} {k k' : ℕ}

theorem csize_pos (l : Layout) : 0 < l.csize.toNat := by
  obtain ⟨k, hk, hsize⟩ := l.csize_eq
  have hpow : 2 ^ k < 2 ^ 16 := Nat.pow_lt_pow_right (by decide) (by omega)
  rw [hsize, BitVec.toNat_ofNat, Nat.mod_eq_of_lt hpow]
  exact Nat.two_pow_pos k

/-- The sectors of the clusters are numbered one after the other. -/
theorem toNat_sectorIn (hc : l.Cluster c) (hk : k < l.csize.toNat) :
    (sectorIn l c k).toNat = l.database.toNat + (l.csize.toNat * (c.toNat - 2) + k) ∧
      l.csize.toNat * (c.toNat - 2) + k < l.csize.toNat * (l.nFatent.toNat - 2) := by
  have hlow := two_le_of_cluster hc
  have hhigh := BitVec.lt_def.mp hc.2
  have hinside := l.inside
  have hroom : l.csize.toNat * (c.toNat - 2) + k < l.csize.toNat * (l.nFatent.toNat - 2) := by
    calc l.csize.toNat * (c.toNat - 2) + k < l.csize.toNat * (c.toNat - 2) + l.csize.toNat := by omega
      _ = l.csize.toNat * (c.toNat - 2 + 1) := (Nat.mul_succ _ _).symm
      _ ≤ l.csize.toNat * (l.nFatent.toNat - 2) := Nat.mul_le_mul_left _ (by omega)
  refine ⟨?_, hroom⟩
  have hsub : (c - 2#32).toNat = c.toNat - 2 := by
    rw [BitVec.toNat_sub_of_le hc.1]
    rfl
  have hin : ¬(c - 2#32 ≥ l.nFatent - 2#32) := by
    rw [ge_iff_le, BitVec.le_def, hsub, toNat_nFatent_sub_two l]
    omega
  have hsize : (l.csize.setWidth 32).toNat = l.csize.toNat := by
    rw [BitVec.toNat_setWidth]
    exact Nat.mod_eq_of_lt (l.csize.isLt.trans (by decide))
  rw [sectorIn, clst2sect, if_neg hin, BitVec.toNat_add, BitVec.toNat_add, BitVec.toNat_mul, hsub,
    hsize, BitVec.toNat_ofNat]
  generalize l.csize.toNat * (c.toNat - 2) = m at hroom ⊢
  generalize l.csize.toNat * (l.nFatent.toNat - 2) = n at hroom hinside
  omega

theorem clst2sect_ne_zero (hc : l.Cluster c) : clst2sect l c ≠ 0#32 := by
  intro hcon
  have hnat := (toNat_sectorIn hc (csize_pos l)).1
  have htable := table_le l
  have hreserved := l.reserved
  rw [sectorIn, hcon, show (0#32 + BitVec.ofNat 32 0).toNat = 0 from rfl] at hnat
  omega

theorem inData_sectorIn (hc : l.Cluster c) (hk : k < l.csize.toNat) : l.InData (sectorIn l c k) := by
  obtain ⟨hnat, hroom⟩ := toNat_sectorIn hc hk
  have hinside := l.inside
  refine ⟨?_, fun heq => ?_⟩
  · rw [BitVec.le_def, hnat]
    exact Nat.le_add_right _ _
  · rw [heq, noSector, show (0xFFFFFFFF#32).toNat = 2 ^ 32 - 1 from rfl] at hnat
    omega

/-- Different clusters have different sectors. -/
theorem sectorIn_inj (hc : l.Cluster c) (hc' : l.Cluster c') (hk : k < l.csize.toNat)
    (hk' : k' < l.csize.toNat) (heq : sectorIn l c k = sectorIn l c' k') : c = c' ∧ k = k' := by
  have hpos := csize_pos l
  have hlow := two_le_of_cluster hc
  have hlow' := two_le_of_cluster hc'
  have hnat := congrArg BitVec.toNat heq
  rw [(toNat_sectorIn hc hk).1, (toNat_sectorIn hc' hk').1] at hnat
  have hsame := Nat.add_left_cancel hnat
  have hdiv := congrArg (· / l.csize.toNat) hsame
  have hmod := congrArg (· % l.csize.toNat) hsame
  simp only [Nat.mul_add_div hpos, Nat.mul_add_mod, Nat.div_eq_of_lt hk, Nat.div_eq_of_lt hk',
    Nat.mod_eq_of_lt hk, Nat.mod_eq_of_lt hk'] at hdiv hmod
  exact ⟨BitVec.eq_of_toNat_eq (by omega), hmod⟩

end Numbers

section Chains

variable {l : Layout} {chain chain' : List (BitVec 32)} {k k' : ℕ}

/-- The cluster a sector of a file is in. -/
theorem getD_mem (hk : k < chain.length * l.csize.toNat) :
    chain.getD (k / l.csize.toNat) 0#32 ∈ chain := by
  have hlt : k / l.csize.toNat < chain.length := Nat.div_lt_of_lt_mul (by rwa [Nat.mul_comm])
  rw [List.getD_eq_getElem _ _ hlt]
  exact List.getElem_mem hlt

theorem inData_sectorOf (hnodes : ∀ c ∈ chain, l.Cluster c) (hk : k < chain.length * l.csize.toNat) :
    l.InData (sectorOf l chain k) :=
  inData_sectorIn (hnodes _ (getD_mem hk)) (Nat.mod_lt _ (csize_pos l))

/-- A file has no sector twice. -/
theorem sectorOf_inj (hnodes : ∀ c ∈ chain, l.Cluster c) (hnodup : chain.Nodup)
    (hk : k < chain.length * l.csize.toNat) (hk' : k' < chain.length * l.csize.toNat)
    (heq : sectorOf l chain k = sectorOf l chain k') : k = k' := by
  have hpos := csize_pos l
  obtain ⟨hcluster, hmod⟩ := sectorIn_inj (hnodes _ (getD_mem hk)) (hnodes _ (getD_mem hk'))
    (Nat.mod_lt _ hpos) (Nat.mod_lt _ hpos) heq
  have hlt : k / l.csize.toNat < chain.length := Nat.div_lt_of_lt_mul (by rwa [Nat.mul_comm])
  have hlt' : k' / l.csize.toNat < chain.length := Nat.div_lt_of_lt_mul (by rwa [Nat.mul_comm])
  rw [List.getD_eq_getElem _ _ hlt, List.getD_eq_getElem _ _ hlt'] at hcluster
  have hdiv := (List.Nodup.getElem_inj_iff hnodup).mp hcluster
  rw [← Nat.div_add_mod k l.csize.toNat, ← Nat.div_add_mod k' l.csize.toNat, hdiv, hmod]

/-- The sectors of a file do not move when its chain is stretched. -/
theorem sectorOf_append (hk : k < chain.length * l.csize.toNat) (rest : List (BitVec 32)) :
    sectorOf l (chain ++ rest) k = sectorOf l chain k := by
  have hlt : k / l.csize.toNat < chain.length := Nat.div_lt_of_lt_mul (by rwa [Nat.mul_comm])
  rw [sectorOf, sectorOf, List.getD_append _ _ _ _ hlt]

/-- Consecutive sectors of one cluster. -/
theorem sectorOf_add {j : ℕ} (hj : k % l.csize.toNat + j < l.csize.toNat) :
    sectorOf l chain (k + j) = sectorOf l chain k + BitVec.ofNat 32 j := by
  have hpos := csize_pos l
  have hdiv : (k + j) / l.csize.toNat = k / l.csize.toNat := by
    rw [← Nat.div_add_mod k l.csize.toNat, Nat.add_assoc, Nat.mul_add_div hpos,
      Nat.div_eq_of_lt hj, Nat.mul_add_div hpos, Nat.div_eq_of_lt (Nat.mod_lt _ hpos)]
  have hmod : (k + j) % l.csize.toNat = k % l.csize.toNat + j := by
    rw [← Nat.mod_add_mod, Nat.mod_eq_of_lt hj]
  rw [sectorOf, sectorOf, hdiv, hmod, sectorIn, sectorIn, BitVec.ofNat_add, BitVec.add_assoc]

end Chains

end FatFs

end BareMetal
