import BareMetal.FatFs.Parts

/-!
# Reading

Each round of `f_read` takes up to the end of a sector from the buffer, or as many whole sectors as the
cluster has left from the disk. In the second case the buffer may be newer than what has been read, and its
bytes replace those. The rounds add up to the bytes from the position on
(`BareMetal.FatFs.Stream.readBody_spec`).
-/

namespace BareMetal

namespace FatFs

variable {δ : Type} [DiskIo δ]

namespace Stream

section Reading

variable {l : Layout} {chain : List (BitVec 32)} {content : Content} {s : FileState δ}

/-- A call of `get_fat`. -/
theorem readFat_looked (h : s.vol.window.Coherent l) {clst : BitVec 32} (hc : l.Cluster clst)
    {E : InnerResult → FileState δ → Prop} :
    Ends (readFat l clst) s (fun r s' => Looked l s.vol s'.vol ∧ s'.fil = s.fil ∧ s'.moved = s.moved ∧
      (r = s.vol.table l clst ∨ r = 0xFFFFFFFF#32 ∧ ¬Good l s.vol)) E := by
  obtain ⟨hkept, hview, hres⟩ := getFat_spec h hc
  simp only [readFat, ends_bind, ends_get, ends_set, ends_pure]
  exact ⟨⟨hkept, hview, rfl⟩, trivial, trivial,
    hres.imp_right fun hfail => ⟨hfail.1, fun hgood => hfail.2 hgood.works⟩⟩

/-- A call of `get_fat` on behalf of a file. -/
theorem readFat_spec (h : Core l s.vol.window chain content s.fil) {clst : BitVec 32}
    (hc : l.Cluster clst) {E : InnerResult → FileState δ → Prop} :
    Ends (readFat l clst) s (fun r s' => Done l chain content s s' ∧ s'.fil = s.fil ∧
      (r = s.vol.table l clst ∨ r = 0xFFFFFFFF#32 ∧ ¬Good l s.vol)) E := by
  refine (readFat_looked h.coherent hc).mono (fun r s' hs' => ?_) fun e s' (hfail : E e s') => hfail
  obtain ⟨hlooked, hfil, hmoved, hres⟩ := hs'
  refine ⟨⟨hlooked.spares, ?_, hmoved, ?_, ?_, funext (hlooked.view.fatEntry l), ?_, ?_⟩, hfil, hres⟩
  · rw [hfil]
    exact h.of_sameView hlooked.kept hlooked.view
  all_goals rw [hfil]

/-- The cluster of the byte before a position on a cluster boundary, and the one behind it. -/
theorem div_cluster {n c : ℕ} (hn : n % 512 = 0) (hpos : 0 < n) (hc : 0 < c)
    (hm : n / 512 % c = 0) : (n - 1) / 512 / c + 1 = n / 512 / c := by
  have hsector : (n - 1) / 512 = n / 512 - 1 := by omega
  have hdvd := Nat.div_add_mod (n / 512) c
  rw [hm, Nat.add_zero] at hdvd
  have hq : 0 < n / 512 / c := by
    rcases Nat.eq_zero_or_pos (n / 512 / c) with hzero | hq
    · rw [hzero, Nat.mul_zero] at hdvd
      omega
    · exact hq
  rw [hsector]
  generalize n / 512 / c = q at hdvd hq ⊢
  rw [← hdvd]
  have hback : c * q - 1 = c * (q - 1) + (c - 1) := by
    obtain ⟨q, rfl⟩ := Nat.exists_eq_add_of_lt hq
    rw [Nat.zero_add, Nat.add_sub_cancel, Nat.mul_add, Nat.mul_one]
    omega
  rw [hback, Nat.mul_add_div hc, Nat.div_eq_of_lt (by omega)]
  omega

theorem takeCluster_spec {clst : BitVec 32} (h : Core l s.vol.window chain content s.fil)
    (hc : l.Cluster clst) {E : InnerResult → FileState δ → Prop} :
    Ends (takeCluster clst) s (fun _ s' => Done l chain content s s' ∧ s'.fil.clust = clst) E := by
  simp only [takeCluster, modifyFil, ends_bind, ends_failIf, ends_modify]
  refine ⟨fun hlow => absurd hc.1 (BitVec.not_le.mpr hlow), fun _ =>
    ⟨fun herr => absurd (herr ▸ hc) (not_cluster_diskErr l), fun _ => ⟨?_, trivial⟩⟩⟩
  exact ⟨Spares.refl h.coherent, h.of_fil rfl rfl rfl rfl rfl, rfl, rfl, rfl, rfl, rfl, rfl⟩

/-- **The next cluster is followed** on a cluster boundary. -/
theorem readCluster_spec (h : Core l s.vol.window chain content s.fil)
    (hpos : Positioned l chain s.fil) (hsector : s.fil.fptr.toNat % 512 = 0)
    (hboundary : s.fil.fptr.toNat / 512 % l.csize.toNat = 0)
    (hlt : s.fil.fptr.toNat / 512 < sectorCount l chain) :
    Ends (readCluster l) s (fun _ s' => Done l chain content s s' ∧
      s'.fil.clust = chain.getD (s.fil.fptr.toNat / 512 / l.csize.toNat) 0#32)
      (Fails l chain s.vol) := by
  have hcl := h.nodes _ (getD_mem hlt)
  simp only [readCluster, ends_bind, ends_get]
  split
  · -- at the top of the file
    rename_i hzero
    have hfirst : s.fil.obj.sclust = chain.getD (s.fil.fptr.toNat / 512 / l.csize.toNat) 0#32 := by
      rw [h.start, hzero, show (0#32).toNat / 512 / l.csize.toNat = 0 from Nat.zero_div _]
      cases chain <;> rfl
    rw [← hfirst] at hcl ⊢
    rw [ends_bind, ends_pure]
    exact takeCluster_spec h hcl
  · rename_i hne
    have hn : 0 < s.fil.fptr.toNat := Nat.pos_of_ne_zero fun hcon => hne (BitVec.eq_of_toNat_eq hcon)
    have hnext := div_cluster hsector hn (csize_pos l) hboundary
    have hindex : s.fil.fptr.toNat / 512 / l.csize.toNat < chain.length :=
      Nat.div_lt_of_lt_mul (by rw [Nat.mul_comm]; exact hlt)
    have hclust := hpos.clust hn
    generalize (s.fil.fptr.toNat - 1) / 512 / l.csize.toNat = i at hnext hclust
    rw [← hnext] at hindex hcl ⊢
    rw [List.getD_eq_getElem _ _ hindex] at hcl ⊢
    rw [List.getD_eq_getElem _ _ (by omega)] at hclust
    have hmem : s.fil.clust ∈ chain := hclust ▸ List.getElem_mem _
    obtain ⟨a, ha⟩ : ∃ a, a ∈ chain.head? := by
      cases hchain : chain with
      | nil => simp [hchain] at hmem
      | cons a rest => exact ⟨a, rfl⟩
    have hfollow : s.vol.table l s.fil.clust = chain[i + 1] := by
      rw [hclust]
      exact (h.linked a ha).next_getElem hindex
    refine (readFat_spec h (h.nodes _ hmem)).bind (fun r s₁ hs₁ => ?_) fun e s' hfail => hfail
    obtain ⟨hdone, -, hres⟩ := hs₁
    rcases hres with rfl | ⟨rfl, hbad⟩
    · rw [hfollow]
      exact (takeCluster_spec hdone.core hcl).mono
        (fun _ s₂ hs₂ => ⟨hdone.trans hs₂.1, hs₂.2⟩) fun e s' hfail => hfail
    · simp only [takeCluster, ends_bind, ends_failIf]
      exact ⟨fun hlow => absurd hlow (by decide), fun _ =>
        ⟨fun _ => ⟨hdone.spares, hbad, by decide⟩, fun hcon => absurd trivial hcon⟩⟩

/-- Inside a cluster the byte before the position is in the same one. -/
theorem div_inside {n c : ℕ} (hn : n % 512 = 0) (hc : 0 < c) (hm : n / 512 % c ≠ 0) :
    0 < n ∧ (n - 1) / 512 / c = n / 512 / c := by
  have hpos : 0 < n := Nat.pos_of_ne_zero fun hzero => hm (by simp [hzero])
  refine ⟨hpos, ?_⟩
  rw [show (n - 1) / 512 = n / 512 - 1 by omega]
  generalize n / 512 = m at hm
  have hback : m - 1 = c * (m / c) + (m % c - 1) := by
    have hdvd := Nat.div_add_mod m c
    omega
  have hlt : m % c - 1 < c := (Nat.sub_le _ _).trans_lt (Nat.mod_lt _ hc)
  rw [hback, Nat.mul_add_div hc, Nat.div_eq_of_lt hlt, Nat.add_zero]

theorem csect_eq_zero_iff (l : Layout) (fptr : BitVec 32) :
    csect l fptr = 0#32 ↔ fptr.toNat / 512 % l.csize.toNat = 0 := by
  rw [← toNat_csect]
  exact ⟨fun h => by rw [h]; rfl, fun h => BitVec.eq_of_toNat_eq h⟩

/-- On a sector boundary, the cluster of the position is reached. -/
theorem clusterHere_spec (h : Core l s.vol.window chain content s.fil)
    (hpos : Positioned l chain s.fil) (hsector : s.fil.fptr.toNat % 512 = 0)
    (hlt : s.fil.fptr.toNat / 512 < sectorCount l chain) :
    Ends (onlyIf (csect l s.fil.fptr = 0#32) (readCluster l)) s
      (fun _ s' => Done l chain content s s' ∧
        s'.fil.clust = chain.getD (s.fil.fptr.toNat / 512 / l.csize.toNat) 0#32)
      (Fails l chain s.vol) := by
  rw [ends_onlyIf, csect_eq_zero_iff]
  refine ⟨fun hboundary => readCluster_spec h hpos hsector hboundary hlt, fun hinside =>
    ⟨Done.refl h, ?_⟩⟩
  obtain ⟨hn, hsame⟩ := div_inside hsector (csize_pos l) hinside
  rw [hpos.clust hn, hsame]

/-- The bytes are those of the file from a position on, as far as they have been set. -/
def Carries (content : Content) (pos : ℕ) (bytes : List (BitVec 8)) : Prop :=
  ∀ i < bytes.length, ∀ b, content (pos + i) = some b → bytes[i]? = some b

theorem Carries.append {pos : ℕ} {xs ys : List (BitVec 8)} (hx : Carries content pos xs)
    (hy : Carries content (pos + xs.length) ys) : Carries content pos (xs ++ ys) := by
  intro i hi b hb
  by_cases hlt : i < xs.length
  · rw [List.getElem?_append_left hlt]
    exact hx i hlt b hb
  · rw [List.getElem?_append_right (by omega)]
    rw [List.length_append] at hi
    exact hy (i - xs.length) (by omega) b (by rwa [show pos + xs.length + (i - xs.length) = pos + i by omega])

/-- The sector a direct read delivers in the end. -/
theorem select_direct {w : Window δ} {f : OpenFil} (h : Core l w chain content f) {k cc j : ℕ}
    (hcc : k % l.csize.toNat + cc ≤ l.csize.toNat) (hk : k + cc ≤ sectorCount l chain)
    (hj : j < cc) {b : ℕ → Sector}
    (hb : sectorOf l chain k + BitVec.ofNat 32 j ≠ noSector →
      b j = sectors w.disk (sectorOf l chain k + BitVec.ofNat 32 j)) :
    (if has f.flag faDirty = true ∧ (f.sect - sectorOf l chain k).toNat < cc then
        Function.update b (f.sect - sectorOf l chain k).toNat f.buf else b) j =
      if has f.flag faDirty = true ∧ f.sect = sectorOf l chain (k + j) then f.buf
      else w.view (sectorOf l chain (k + j)) := by
  have hsize := l.csize.isLt
  have hadd : sectorOf l chain (k + j) = sectorOf l chain k + BitVec.ofNat 32 j :=
    sectorOf_add (by omega)
  have hdisk : b j = w.view (sectorOf l chain (k + j)) := by
    have hlt : k + j < sectorCount l chain := by omega
    rw [hb (hadd ▸ (inData_sectorOf h.nodes hlt).2), ← hadd, view_of_ne (h.apart _ hlt).symm]
  have hiff : f.sect = sectorOf l chain (k + j) ↔ (f.sect - sectorOf l chain k).toNat = j := by
    rw [hadd]
    constructor
    · intro heq
      rw [heq, BitVec.add_comm, BitVec.add_sub_cancel, BitVec.toNat_ofNat]
      exact Nat.mod_eq_of_lt (by omega)
    · intro heq
      rw [← heq, BitVec.ofNat_toNat, BitVec.setWidth_eq, BitVec.add_comm, BitVec.sub_add_cancel]
  simp only [hiff]
  by_cases hin : has f.flag faDirty = true ∧ (f.sect - sectorOf l chain k).toNat = j
  · rw [if_pos hin, if_pos ⟨hin.1, hin.2 ▸ hj⟩, hin.2, Function.update_self]
  · rw [if_neg hin, ← hdisk]
    split
    · rename_i hdirty
      rw [Function.update_of_ne fun hcon => hin ⟨hdirty.1, hcon.symm⟩]
    · rfl

/-- **Whole sectors are read**, the one in the buffer from there if it has been changed. -/
theorem readDirect_spec (h : Core l s.vol.window chain content s.fil) {k cc : ℕ}
    (hcc : k % l.csize.toNat + cc ≤ l.csize.toNat) (hk : k + cc ≤ sectorCount l chain)
    (hpos : 0 < cc) :
    Ends (readDirect (sectorOf l chain k) cc) s (fun bytes s' => Done l chain content s s' ∧
      s'.fil = s.fil ∧ bytes.length = 512 * cc ∧ Carries content (512 * k) bytes)
      (Fails l chain s.vol) := by
  simp only [readDirect, ends_bind, ends_get, ends_set, ends_failIf, ends_pure]
  obtain ⟨res, buff, d, heq, hd, hres⟩ := diskRead_inv s.vol.window.disk (sectorOf l chain k) hpos
  simp only [heq]
  rcases hres with ⟨rfl, hbuff⟩ | ⟨hne, hfail⟩
  · refine ⟨fun hne => absurd rfl hne, fun _ => ⟨⟨Spares.read h.coherent hd, ?_, rfl, rfl, rfl,
      table_read hd, rfl, rfl⟩, trivial, by simp, fun i hi b hb => ?_⟩⟩
    · exact h.of_sameView (tableKept_read h.coherent hd) fun _ _ => by rw [view_read hd]
    · rw [List.length_map, List.length_range] at hi
      have hbyte := h.byte (p := 512 * k + i) (by omega) hb
      have hlt : i / 512 < cc := by omega
      have hsel := select_direct h hcc hk hlt (hbuff _ hlt)
      rw [show (512 * k + i) / 512 = k + i / 512 by omega, ← hsel, ← peek_mod,
        show (512 * k + i) % 512 = i % 512 by omega, peek_mod] at hbyte
      rw [List.getElem?_map, List.getElem?_range hi, Option.map_some, hbyte]
  · exact ⟨fun _ => ⟨Spares.read h.coherent hd, fun hgood => hfail hgood.works, by decide⟩,
      fun hok => absurd (not_not.mp hok) hne⟩

/-- A part of the sector in the buffer is read. -/
theorem readPart_spec (h : Core l s.vol.window chain content s.fil) {btr : ℕ}
    (hsect : s.fil.sect = sectorOf l chain (s.fil.fptr.toNat / 512))
    (hsize : s.fil.fptr.toNat + btr ≤ s.fil.obj.objsize.toNat)
    {E : InnerResult → FileState δ → Prop} :
    Ends (readPart btr) s (fun bytes s' => s' = s ∧
      bytes.length = min (512 - s.fil.fptr.toNat % 512) btr ∧
      Carries content s.fil.fptr.toNat bytes) E := by
  simp only [readPart, ends_bind, ends_get, ends_pure]
  refine ⟨trivial, by simp, fun i hi b hb => ?_⟩
  rw [List.length_map, List.length_range] at hi
  have hlt : i < 512 - s.fil.fptr.toNat % 512 := by omega
  have hroom := h.size
  have hbuf := (h.data (s.fil.fptr.toNat + i) (by omega) b hb).1 (by
    rw [hsect, show (s.fil.fptr.toNat + i) / 512 = s.fil.fptr.toNat / 512 by omega])
  rw [← peek_mod, show (s.fil.fptr.toNat + i) % 512 = (s.fil.fptr.toNat % 512 + i) % 512 by omega,
    peek_mod] at hbuf
  rw [List.getElem?_map, List.getElem?_range hi, Option.map_some, hbuf]

/-- The file is where it should be after so many bytes from the current sector or cluster. -/
theorem positioned_advance {f : OpenFil} {pos n : ℕ} (hfptr : f.fptr.toNat = pos + n)
    (hsize : pos + n ≤ f.obj.objsize.toNat)
    (hclust : f.clust = chain.getD (pos / 512 / l.csize.toNat) 0#32)
    (hsame : (pos + n - 1) / 512 / l.csize.toNat = pos / 512 / l.csize.toNat)
    (hsect : (pos + n) % 512 ≠ 0 → f.sect = sectorOf l chain ((pos + n) / 512)) :
    Positioned l chain f := by
  refine ⟨?_, fun _ => ?_, fun hne => ?_⟩
  · rw [hfptr]
    exact hsize
  · rw [hfptr, hsame]
    exact hclust
  · rw [hfptr] at hne ⊢
    exact hsect hne

/-- The position does not wrap around. -/
theorem toNat_advance {fptr : BitVec 32} {n : ℕ} (h : fptr.toNat + n < 2 ^ 32) :
    (fptr + BitVec.ofNat 32 n).toNat = fptr.toNat + n := by
  rw [BitVec.toNat_add, BitVec.toNat_ofNat]
  omega

/-- The whole sectors ahead are in the cluster and among the bytes. -/
theorem sectorsAhead_spec (l : Layout) (fptr : BitVec 32) {bytes : ℕ} (hbytes : bytes / 512 > 0) :
    0 < sectorsAhead l (csect l fptr) bytes ∧
      fptr.toNat / 512 % l.csize.toNat + sectorsAhead l (csect l fptr) bytes ≤ l.csize.toNat ∧
      512 * sectorsAhead l (csect l fptr) bytes ≤ bytes := by
  have hlt := Nat.mod_lt (fptr.toNat / 512) (csize_pos l)
  unfold sectorsAhead
  rw [toNat_csect]
  split <;> omega

/-- Sectors of one cluster. -/
theorem div_cluster_add {k cc c : ℕ} (hpos : 0 < cc) (hcc : k % c + cc ≤ c) :
    (k + cc - 1) / c = k / c := by
  have hc : 0 < c := by omega
  have hdvd := Nat.div_add_mod k c
  rw [show k + cc - 1 = c * (k / c) + (k % c + cc - 1) by omega, Nat.mul_add_div hc,
    Nat.div_eq_of_lt (show k % c + cc - 1 < c by omega), Nat.add_zero]

/-- What a round of the loop of `f_read` does. -/
theorem readStep_spec (h : Core l s.vol.window chain content s.fil)
    (hpos : Positioned l chain s.fil) {btr : ℕ} (hbtr : 0 < btr)
    (hsize : s.fil.fptr.toNat + btr ≤ s.fil.obj.objsize.toNat) :
    Ends (readStep l btr) s (fun bytes s' => Done l chain content s s' ∧ 0 < bytes.length ∧
      bytes.length ≤ btr ∧ Carries content s.fil.fptr.toNat bytes ∧
      Positioned l chain { s'.fil with fptr := s'.fil.fptr + BitVec.ofNat 32 bytes.length })
      (Fails l chain s.vol) := by
  have hroom := h.size
  have hbound := s.fil.obj.objsize.isLt
  have hlt : s.fil.fptr.toNat / 512 < sectorCount l chain := by omega
  simp only [readStep, ends_bind, ends_get]
  split
  · rename_i hsector
    refine (clusterHere_spec h hpos hsector hlt).bind (fun _ s₁ hs₁ => ?_) fun e s' hfail => hfail
    obtain ⟨hdone, hclust⟩ := hs₁
    rw [← hdone.fptr] at hclust hlt
    refine (sectorHere_spec hdone.core hlt hclust).bind (fun sect s₂ hs₂ => ?_)
      fun e s' (hfail : Fails l chain s.vol e s') => hfail
    obtain ⟨rfl, rfl⟩ := hs₂
    have hsize' : s₂.fil.fptr.toNat + btr ≤ s₂.fil.obj.objsize.toNat := by
      rw [hdone.fptr, hdone.obj]
      exact hsize
    rw [← hdone.fptr] at hsector ⊢
    split
    · -- whole sectors
      rename_i hwhole
      obtain ⟨hcc, hinside, hbytes⟩ := sectorsAhead_spec l s₂.fil.fptr hwhole
      generalize sectorsAhead l (csect l s₂.fil.fptr) btr = cc at hcc hinside hbytes
      have hroom' := hdone.core.size
      refine (readDirect_spec hdone.core hinside (by omega) hcc).mono (fun bytes s₃ hs₃ => ?_)
        fun e s' hfail => hfail.after hdone.spares (Grows.refl _ _)
      obtain ⟨hdone', hfil, hlen, hcarries⟩ := hs₃
      rw [show 512 * (s₂.fil.fptr.toNat / 512) = s₂.fil.fptr.toNat by omega] at hcarries
      refine ⟨hdone.trans hdone', by omega, by omega, hcarries, ?_⟩
      rw [hfil, hlen]
      refine positioned_advance (toNat_advance (by omega)) (by simp only; omega) hclust ?_
        fun hne => absurd hne (by omega)
      rw [show (s₂.fil.fptr.toNat + 512 * cc - 1) / 512 = s₂.fil.fptr.toNat / 512 + cc - 1 by omega,
        div_cluster_add hcc hinside]
    · -- a part of a sector
      refine (seize_spec hdone.core hlt).bind (fun _ s₃ hs₃ => ?_)
        fun e s' hfail => hfail.after hdone.spares (Grows.refl _ _)
      obtain ⟨hdone', hsect, hclust'⟩ := hs₃
      rw [← hdone'.fptr] at hsect hsize' hclust hsector ⊢
      rw [← hdone'.obj] at hsize'
      rw [← hclust'] at hclust
      refine (readPart_spec hdone'.core hsect hsize').mono (fun bytes s₄ hs₄ => ?_)
        fun e s' hfail => hfail
      obtain ⟨rfl, hlen, hcarries⟩ := hs₄
      refine ⟨hdone.trans hdone', by omega, by omega, hcarries,
        positioned_advance (toNat_advance (by omega)) (by simp only; omega) hclust ?_ fun hne => ?_⟩
      · rw [show (s₄.fil.fptr.toNat + bytes.length - 1) / 512 = s₄.fil.fptr.toNat / 512 by omega]
      · rw [hsect, show (s₄.fil.fptr.toNat + bytes.length) / 512 = s₄.fil.fptr.toNat / 512 by omega]
  · rename_i hinside
    refine (readPart_spec h (hpos.sect hinside) hsize).mono (fun bytes s₁ hs₁ => ?_)
      fun e s' hfail => hfail
    obtain ⟨rfl, hlen, hcarries⟩ := hs₁
    refine ⟨Done.refl h, by omega, by omega, hcarries,
      positioned_advance (toNat_advance (by omega)) (by simp only; omega) ?_ ?_ ?_⟩
    · rw [hpos.clust (by omega), show (s₁.fil.fptr.toNat - 1) / 512 = s₁.fil.fptr.toNat / 512 by omega]
    · rw [show (s₁.fil.fptr.toNat + bytes.length - 1) / 512 = s₁.fil.fptr.toNat / 512 by omega]
    · intro hne
      rw [hpos.sect hinside,
        show (s₁.fil.fptr.toNat + bytes.length) / 512 = s₁.fil.fptr.toNat / 512 by omega]

/-- **What so many bytes that have been read leave behind**: the file as it was, but for the position,
and the bytes behind those before. -/
structure HasRead (l : Layout) (chain : List (BitVec 32)) (content : Content) (n : ℕ)
    (s s' : FileState δ) : Prop where
  spares : Spares l chain s.vol s'.vol
  core : Core l s'.vol.window chain content s'.fil
  positioned : Positioned l chain s'.fil
  obj : s'.fil.obj = s.fil.obj
  table : s'.vol.table l = s.vol.table l
  handle : s'.fil.handle = s.fil.handle
  modified : s'.fil.modified = s.fil.modified
  fptr : s'.fil.fptr.toNat = s.fil.fptr.toNat + n
  moved : ∃ bytes, s'.moved = s.moved ++ bytes ∧ bytes.length = n ∧
    Carries content s.fil.fptr.toNat bytes

theorem HasRead.zero (h : Core l s.vol.window chain content s.fil) (hpos : Positioned l chain s.fil) :
    HasRead l chain content 0 s s :=
  ⟨Spares.refl h.coherent, h, hpos, rfl, rfl, rfl, rfl, rfl, [], by simp, rfl, fun i hi => by simp at hi⟩

theorem HasRead.trans {s' s'' : FileState δ} {n m : ℕ} (h : HasRead l chain content n s s')
    (h' : HasRead l chain content m s' s'') : HasRead l chain content (n + m) s s'' := by
  obtain ⟨bytes, hmoved, hlen, hcarries⟩ := h.moved
  obtain ⟨bytes', hmoved', hlen', hcarries'⟩ := h'.moved
  refine ⟨h.spares.trans_self h'.spares, h'.core, h'.positioned, h'.obj.trans h.obj,
    h'.table.trans h.table, h'.handle.trans h.handle, h'.modified.trans h.modified,
    by rw [h'.fptr, h.fptr, Nat.add_assoc], bytes ++ bytes', ?_, ?_, ?_⟩
  · rw [hmoved', hmoved, List.append_assoc]
  · rw [List.length_append, hlen, hlen']
  · refine hcarries.append ?_
    rw [hlen, ← h.fptr]
    exact hcarries'

/-- What the whole loop of `f_read` does. -/
theorem readLoop_spec {fuel btr : ℕ} (hfuel : btr ≤ fuel)
    (h : Core l s.vol.window chain content s.fil) (hpos : Positioned l chain s.fil)
    (hsize : s.fil.fptr.toNat + btr ≤ s.fil.obj.objsize.toNat) :
    Ends (readLoop l fuel btr) s (fun _ s' => HasRead l chain content btr s s')
      (Fails l chain s.vol) := by
  induction fuel generalizing btr s with
  | zero =>
    obtain rfl : btr = 0 := Nat.le_zero.mp hfuel
    exact HasRead.zero h hpos
  | succ fuel ih =>
    rw [readLoop]
    split
    · rename_i hzero
      subst hzero
      exact HasRead.zero h hpos
    · rename_i hne
      refine (readStep_spec h hpos (Nat.pos_of_ne_zero hne) hsize).bind (fun bytes s₁ hs₁ => ?_)
        fun e s' hfail => hfail
      obtain ⟨hdone, hsome, hmost, hcarries, hpos'⟩ := hs₁
      have hlt := s.fil.obj.objsize.isLt
      have hnat : (s₁.fil.fptr + BitVec.ofNat 32 bytes.length).toNat =
          s.fil.fptr.toNat + bytes.length := by
        rw [toNat_advance (by rw [hdone.fptr]; omega), hdone.fptr]
      have hread : HasRead l chain content bytes.length s { s₁ with
          fil := { s₁.fil with fptr := s₁.fil.fptr + BitVec.ofNat 32 bytes.length }
          moved := s₁.moved ++ bytes } :=
        ⟨hdone.spares, hdone.core.of_fil rfl rfl rfl rfl rfl, hpos', hdone.obj, hdone.table,
          hdone.handle, hdone.modified, hnat, bytes, by rw [hdone.moved], rfl, hcarries⟩
      rw [ends_bind, ends_modify]
      have hfuel' : btr - bytes.length ≤ fuel := by omega
      refine (ih hfuel' hread.core hread.positioned ?_).mono (fun _ s₂ hs₂ => ?_)
        fun e s' hfail => hfail.after hread.spares (Grows.refl _ _)
      · rw [hread.fptr, hread.obj]
        omega
      · have hall := hread.trans hs₂
        rwa [Nat.add_sub_cancel' hmost] at hall

/-- **What `f_read` does** behind its checks: it delivers the bytes from the position on, as many as
are wanted and as there are, or it fails. -/
theorem readBody_spec (h : Core l s.vol.window chain content s.fil)
    (hpos : Positioned l chain s.fil) (btr : BitVec 32) :
    Ends (readBody l btr) s (fun _ s' => HasRead l chain content
      (min btr.toNat (s.fil.obj.objsize.toNat - s.fil.fptr.toNat)) s s') (Fails l chain s.vol) := by
  have hle := hpos.fptr_le
  have hremain : (s.fil.obj.objsize - s.fil.fptr).toNat =
      s.fil.obj.objsize.toNat - s.fil.fptr.toNat := BitVec.toNat_sub_of_le (BitVec.le_def.mpr hle)
  have hmin : (if btr > s.fil.obj.objsize - s.fil.fptr then s.fil.obj.objsize - s.fil.fptr
      else btr).toNat = min btr.toNat (s.fil.obj.objsize.toNat - s.fil.fptr.toNat) := by
    split
    · rename_i hgt
      rw [gt_iff_lt, BitVec.lt_def, hremain] at hgt
      rw [hremain]
      omega
    · rename_i hgt
      rw [gt_iff_lt, BitVec.lt_def, hremain] at hgt
      omega
  simp only [readBody, ends_bind, ends_get, hmin]
  exact readLoop_spec (Nat.le_refl _) h hpos (by omega)

end Reading

end Stream

end FatFs

end BareMetal
