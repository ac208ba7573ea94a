import BareMetal.BitField
import BareMetal.FatFs.Writing

/-!
# Seeking

`f_lseek` goes along the chain to the cluster of the target, from the first cluster or, if the target is not
in front of the present one, from there. The position it keeps in between is that of the end of the way so
far, rounded down to a cluster, and behind the end of a file that may be written the chain is stretched. If
the volume is full the position is where the chain ends (`BareMetal.FatFs.Stream.seekBody_spec`).
-/

namespace BareMetal

namespace FatFs

variable {δ : Type} [DiskIo δ]

namespace Stream

/-! ### Offsets -/

/-- The cluster of a byte, if the bytes of a cluster are counted from 1. -/
theorem div_offset {i ofs c : ℕ} (hpos : 0 < ofs) (hle : ofs ≤ c * 512) :
    (i * (c * 512) + ofs - 1) / 512 / c = i := by
  rw [Nat.div_div_eq_div_mul, Nat.mul_comm 512 c,
    show i * (c * 512) + ofs - 1 = c * 512 * i + (ofs - 1) by rw [Nat.mul_comm i]; omega,
    Nat.mul_add_div (by omega), Nat.div_eq_of_lt (show ofs - 1 < c * 512 by omega), Nat.add_zero]

/-- The sector of a byte inside a sector. -/
theorem sectorOf_offset {l : Layout} (chain : List (BitVec 32)) {i ofs : ℕ} (hinside : ofs % 512 ≠ 0)
    (hle : ofs ≤ l.csize.toNat * 512) :
    sectorOf l chain ((i * (l.csize.toNat * 512) + ofs) / 512) =
      clst2sect l (chain.getD i 0#32) + BitVec.ofNat 32 (ofs / 512) := by
  have hlt : ofs / 512 < l.csize.toNat := by omega
  rw [show i * (l.csize.toNat * 512) + ofs = 512 * (l.csize.toNat * i) + ofs by
      rw [Nat.mul_comm l.csize.toNat 512, Nat.mul_left_comm, Nat.mul_comm i],
    Nat.mul_add_div (by decide), sectorOf, Nat.mul_add_div (csize_pos l), Nat.div_eq_of_lt hlt,
    Nat.add_zero, Nat.mul_add_mod, Nat.mod_eq_of_lt hlt]
  rfl

/-- The beginning of a cluster, as `f_lseek` masks it out. -/
theorem toNat_clusterStart (l : Layout) (x : BitVec 32) :
    (x &&& ~~~(BitVec.ofNat 32 (l.csize.toNat * 512) - 1#32)).toNat =
      x.toNat / 512 / l.csize.toNat * (l.csize.toNat * 512) := by
  obtain ⟨k, hk, hsize⟩ := l.csize_eq
  have hpow : 2 ^ k < 2 ^ 16 := Nat.pow_lt_pow_right (by decide) (by omega)
  have hbytes : l.csize.toNat * 512 = 2 ^ (k + 9) := by
    rw [hsize, BitVec.toNat_ofNat, Nat.mod_eq_of_lt hpow, Nat.pow_add]
  rw [Nat.div_div_eq_div_mul, Nat.mul_comm 512, hbytes, toNat_and_not_mask x (by omega)]

/-- The bytes a chain has room for. -/
theorem mul_sectorCount (l : Layout) (chain : List (BitVec 32)) :
    512 * sectorCount l chain = chain.length * (l.csize.toNat * 512) := by
  rw [sectorCount, Nat.mul_comm, Nat.mul_assoc]

/-- A position in a cluster of a chain. -/
theorem le_sectorCount {l : Layout} {chain : List (BitVec 32)} {i n : ℕ} (hi : i < chain.length)
    (hn : n ≤ l.csize.toNat * 512) :
    i * (l.csize.toNat * 512) + n ≤ 512 * sectorCount l chain := by
  have hmul : (i + 1) * (l.csize.toNat * 512) ≤ chain.length * (l.csize.toNat * 512) :=
    Nat.mul_le_mul_right _ hi
  rw [Nat.add_mul, Nat.one_mul] at hmul
  rw [mul_sectorCount]
  exact (Nat.add_le_add_left hn _).trans hmul

/-! ### Along the chain -/

/-- The offset `f_lseek` goes to: a file that is not to be written ends where it ends. -/
def seekTarget (f : OpenFil) (ofs : BitVec 32) : ℕ :=
  if has f.flag faWrite = false then min ofs.toNat f.obj.objsize.toNat else ofs.toNat

/-- On the way: the file is at the beginning of a cluster, and so much is left to the target. -/
structure InCluster (l : Layout) (content : Content) (chain chain' : List (BitVec 32))
    (s s' : FileState δ) (i ofs target : ℕ) : Prop extends Along l content chain chain' s s' where
  index : i < chain'.length
  length : chain'.length ≤ max chain.length (i + 1)
  clust : s'.fil.clust = chain'.getD i 0#32
  fptr : s'.fil.fptr.toNat = i * (l.csize.toNat * 512)
  rest : i * (l.csize.toNat * 512) + ofs = target
  pos : 0 < ofs

section Along

variable {l : Layout} {chain chain' : List (BitVec 32)} {content : Content} {s s₀ : FileState δ}

/-- **Where the way along the chain begins.** -/
theorem seekStart_spec (h : Core l s.vol.window chain content s.fil)
    (hin : content.Within s.fil.obj.objsize.toNat) {ifptr : BitVec 32}
    (hle : ifptr.toNat ≤ s.fil.obj.objsize.toNat)
    (hclust : 0 < ifptr.toNat →
      s.fil.clust = chain.getD ((ifptr.toNat - 1) / 512 / l.csize.toNat) 0#32)
    (hzero : s.fil.fptr = 0#32) {target : ℕ} (htarget : 0 < target) :
    Ends (seekStart l ifptr target) s (fun r s' =>
      (∃ chain' i, InCluster l content chain chain' s s' i r.1 target ∧ r.2 = s'.fil.clust) ∨
        r.2 = 0#32 ∧ Along l content chain chain s s' ∧ s'.fil.fptr = 0#32 ∧ Full l s'.vol ∧
          chain = [])
      (Fails l chain s.vol) := by
  have hself : Along l content chain chain s s := (Done.refl h).grown.toAlong
  simp only [seekStart, ends_bind, ends_get]
  split
  · -- from the cluster of the old position
    rename_i hcond
    obtain ⟨hpos, hforward⟩ := hcond
    have hsub : (ifptr - 1#32).toNat = ifptr.toNat - 1 :=
      BitVec.toNat_sub_of_le (BitVec.le_def.mpr hpos)
    have hstart := toNat_clusterStart l (ifptr - 1#32)
    have hsize := h.size
    have hi := lastIndex_lt hpos (hle.trans hsize)
    have hback : (ifptr.toNat - 1) / 512 / l.csize.toNat * (l.csize.toNat * 512) < target := by
      rw [ge_iff_le, Nat.mul_comm l.csize.toNat 512, ← Nat.div_div_eq_div_mul,
        ← Nat.div_div_eq_div_mul] at hforward
      have hmul := Nat.mul_le_mul_right (l.csize.toNat * 512) hforward
      have hfloor := Nat.div_mul_le_self (target - 1) (512 * l.csize.toNat)
      rw [← Nat.div_div_eq_div_mul, Nat.mul_comm 512] at hfloor
      omega
    simp only [modifyFil, ends_bind, ends_modify, ends_pure]
    rw [hsub] at hstart
    refine Or.inl ⟨chain, _, ⟨⟨hself.grows, hself.accounts, hself.spares, h.of_fil rfl rfl rfl rfl rfl,
      rfl, rfl, Or.inl rfl, rfl, rfl⟩, hi, Nat.le_max_left _ _, hclust hpos, hstart, ?_, ?_⟩, trivial⟩
    · rw [hstart]
      omega
    · rw [hstart]
      omega
  · split
    · -- there is no first cluster yet
      rename_i hnone
      obtain rfl := h.sclust_eq_zero_iff.mp hnone
      simp only [modifyFil, ends_bind, ends_failIf, ends_modify, ends_pure]
      refine (newFirst_spec h hin).mono (fun r s₁ hs₁ => ?_) fun e s' hfail => hfail
      obtain ⟨hfil, hmoved, hend⟩ := hs₁
      cases hend with
      | full hr hdone hfull _ =>
        subst hr
        refine ⟨fun hcon => absurd hcon (by decide), fun _ => ⟨fun hcon => absurd hcon (by decide),
          fun _ => Or.inr ⟨rfl, ⟨Grows.refl _ _, Accounts.of_eq hdone.table, hdone.spares, ?_,
            hmoved, ?_, Or.inr hnone, ?_, ?_⟩, ?_, hfull, trivial⟩⟩⟩
        · refine hdone.core.of_fil ?_ rfl rfl rfl rfl
          simp only [hfil, hnone]
        · simp only [hfil]
        · rw [hfil]
          rfl
        · rw [hfil]
          rfl
        · simp only [hfil, hzero]
      | broken hr hspares hbad =>
        exact ⟨fun _ => ⟨hspares, hbad, by decide⟩, fun hone =>
          ⟨fun _ => ⟨hspares, hbad, by decide⟩, fun herr => absurd hr (not_or.mpr ⟨hone, herr⟩)⟩⟩
      | cluster chain' hgrows haccounts hspares hcore hi hlen hr =>
        have hc : l.Cluster r := hr ▸ hcore.cluster_getD hi
        obtain ⟨-, hone, herr⟩ := not_mem_marks hc
        refine ⟨fun hcon => absurd hcon hone, fun _ => ⟨fun hcon => absurd hcon herr,
          fun _ => Or.inl ⟨chain', 0, ⟨⟨hgrows, haccounts, hspares, ?_, hmoved, ?_, Or.inr hnone, ?_,
            ?_⟩, hi, hlen, hr, ?_, ?_, htarget⟩, trivial⟩⟩⟩
        · refine hcore.of_fil ?_ ?_ ?_ ?_ ?_
          · simp only [takes, hnone, if_true]
          all_goals simp only [takes, hfil]
        · simp only [hfil]
        · rw [hfil]
          rfl
        · rw [hfil]
          rfl
        · simp [hfil, hzero]
        · omega
    · -- from the first cluster
      rename_i hsome
      have hlen : 0 < chain.length := List.length_pos_iff.mpr (mt h.sclust_eq_zero_iff.mpr hsome)
      simp only [modifyFil, ends_bind, ends_modify, ends_pure]
      refine Or.inl ⟨chain, 0, ⟨⟨hself.grows, hself.accounts, hself.spares, h.of_fil rfl rfl rfl rfl rfl,
        rfl, rfl, Or.inl rfl, rfl, rfl⟩, hlen, Nat.le_max_left _ _, ?_, ?_, ?_, htarget⟩, trivial⟩
      · simp only [h.start]
        cases chain <;> rfl
      · simp [hzero]
      · omega

/-- How the loop along the chain ends: in the cluster of the target, or behind the last one of a
volume that is full. -/
def SeekEnd (l : Layout) (content : Content) (chain : List (BitVec 32)) (s : FileState δ) (target : ℕ)
    (r : ℕ × BitVec 32) (s' : FileState δ) : Prop :=
  ∃ chain' i,
    (InCluster l content chain chain' s s' i r.1 target ∧ r.1 ≤ l.csize.toNat * 512 ∧
      r.2 = s'.fil.clust) ∨
    (Along l content chain chain' s s' ∧ r = (0, 0#32) ∧ i + 1 = chain'.length ∧
      s'.fil.clust = chain'.getD i 0#32 ∧ s'.fil.fptr.toNat = (i + 1) * (l.csize.toNat * 512) ∧
      s'.fil.fptr.toNat < target ∧ Full l s'.vol)

/-- The next cluster of a file that is not to grow. -/
theorem followNext_spec (h : Core l s.vol.window chain content s.fil) {i : ℕ}
    (hi : i + 1 < chain.length) {E : InnerResult → FileState δ → Prop} :
    Ends (readFat l (chain.getD i 0#32)) s (fun r s' => s'.fil = s.fil ∧ s'.moved = s.moved ∧
      Stretched l content chain s (i + 1) r s' ∧ r ≠ 0#32) E := by
  have hlt : i < chain.length := Nat.lt_of_succ_lt hi
  have hne : s.fil.obj.sclust ≠ 0#32 :=
    mt h.sclust_eq_zero_iff.mp (List.ne_nil_of_length_pos (Nat.zero_lt_of_lt hlt))
  obtain ⟨a, ha⟩ : ∃ a, a ∈ chain.head? :=
    ⟨_, List.head?_eq_some_head (List.ne_nil_of_length_pos (Nat.zero_lt_of_lt hlt))⟩
  have hnext := (h.linked a ha).next_getElem hi
  have hc : l.Cluster chain[i + 1] := h.nodes _ (List.getElem_mem hi)
  rw [List.getD_eq_getElem _ _ hlt]
  refine (readFat_spec h (h.nodes _ (List.getElem_mem hlt))).mono (fun r s' hs' => ?_)
    fun e s' hfail => hfail
  obtain ⟨hdone, hfil, hres⟩ := hs'
  refine ⟨hfil, hdone.moved, ?_⟩
  rcases hres with heq | ⟨rfl, hbad⟩
  · have hr : r = chain[i + 1] := heq.trans hnext
    refine ⟨.cluster chain (Grows.refl _ _) (Accounts.of_eq hdone.table) hdone.spares ?_ hi
      (Nat.le_max_left _ _) ?_, ?_⟩
    · refine hdone.core.of_fil ?_ ?_ ?_ ?_ ?_
      · simp only [takes, if_neg hne, hfil]
      all_goals simp only [takes, hfil]
    · rw [hr, List.getD_eq_getElem _ _ hi]
    · rw [hr]
      exact (not_mem_marks hc).1
  · exact ⟨.broken (Or.inr rfl) hdone.spares hbad, by decide⟩

/-- The file at the end of its cluster. -/
theorem InCluster.passed {i ofs target : ℕ} (h : InCluster l content chain chain' s₀ s i ofs target)
    (hmost : target < 2 ^ 32) (hofs : ofs > l.csize.toNat * 512) :
    Along l content chain chain' s₀ { s with
      fil := { s.fil with fptr := s.fil.fptr + BitVec.ofNat 32 (l.csize.toNat * 512) } } ∧
      (s.fil.fptr + BitVec.ofNat 32 (l.csize.toNat * 512)).toNat =
        (i + 1) * (l.csize.toNat * 512) := by
  have hrest := h.rest
  have hfptr := h.fptr
  refine ⟨⟨h.grows, h.accounts, h.spares, h.core.of_fil rfl rfl rfl rfl rfl, h.moved, h.objsize,
    h.start, h.handle, h.modified⟩, ?_⟩
  rw [toNat_advance (by omega), hfptr, Nat.add_mul, Nat.one_mul]

/-- A round of the loop behind the search for the next cluster: a full volume ends the way there, an error
ends the call, and with a cluster the way goes on. -/
theorem seekNext_spec {writable : Bool} {fuel i ofs target : ℕ} {s₁ s₂ : FileState δ} {next : BitVec 32}
    (h : InCluster l content chain chain' s₀ s i ofs target) (hofs : ofs > l.csize.toNat * 512)
    (halong : Along l content chain chain' s₀ s₁) (hclust : s₁.fil.clust = s.fil.clust)
    (hfptr : s₁.fil.fptr.toNat = (i + 1) * (l.csize.toNat * 512)) (hfil : s₂.fil = s₁.fil)
    (hmoved : s₂.moved = s₁.moved) (hend : Stretched l content chain' s₁ (i + 1) next s₂)
    (hzero : writable = false → next ≠ 0#32)
    (hrest : ∀ chain'' s', InCluster l content chain chain'' s₀ s' (i + 1)
        (ofs - l.csize.toNat * 512) target →
      Ends (seekLoop l writable fuel (ofs - l.csize.toNat * 512) s'.fil.clust) s'
        (SeekEnd l content chain s₀ target) (Fails l chain s₀.vol)) :
    Ends (if writable = true ∧ next = 0#32 then pure (0, 0#32)
      else do
        failIf (next = 0xFFFFFFFF#32) .diskErr
        failIf (next ≤ 1#32 ∨ next ≥ l.nFatent) .intErr
        modifyFil fun f => { f with clust := next }
        seekLoop l writable fuel (ofs - l.csize.toNat * 512) next) s₂
      (SeekEnd l content chain s₀ target) (Fails l chain s₀.vol) := by
  have hleft := h.rest
  have hstep : (i + 1) * (l.csize.toNat * 512) + (ofs - l.csize.toNat * 512) = target := by
    rw [Nat.add_mul, Nat.one_mul]
    omega
  cases hend with
  | full hr hdone hfull hend =>
    cases hwritable : writable with
    | false => exact absurd hr (hzero hwritable)
    | true =>
      rw [if_pos ⟨rfl, hr⟩]
      refine ⟨chain', i, Or.inr ⟨halong.trans hdone.grown.toAlong, rfl, hend, ?_, ?_, ?_, hfull⟩⟩
      · rw [hfil, hclust, h.clust]
      · rw [hfil, hfptr]
      · rw [hfil, hfptr]
        omega
  | broken hr hspares hbad =>
    have hne : next ≠ 0#32 := by
      rintro rfl
      rcases hr with hr | hr <;> cases hr
    have hfail : ∀ e, e ≠ .ok → Fails l chain s₀.vol e s₂ := fun e he =>
      Fails.after halong.spares halong.grows ⟨hspares, hbad, he⟩
    rw [if_neg fun hcon => hne hcon.2]
    simp only [ends_bind, ends_failIf]
    refine ⟨fun _ => hfail _ (by decide), fun herr =>
      ⟨fun _ => hfail _ (by decide), fun hlow => absurd ?_ hlow⟩⟩
    rw [hr.resolve_right herr]
    exact Or.inl (by decide)
  | cluster chain'' hgrows haccounts hspares hcore hi hlen hr =>
    have hc : l.Cluster next := hr ▸ hcore.cluster_getD hi
    obtain ⟨hne, hone, herr⟩ := not_mem_marks hc
    have hnonempty : chain' ≠ [] := List.ne_nil_of_length_pos (Nat.zero_lt_of_lt h.index)
    have hsclust : s₁.fil.obj.sclust ≠ 0#32 := mt halong.core.sclust_eq_zero_iff.mp hnonempty
    rw [if_neg fun hcon => hne hcon.2]
    simp only [modifyFil, ends_bind, ends_failIf, ends_modify]
    refine ⟨fun hcon => absurd hcon herr, fun _ => ⟨fun hcon => ?_, fun _ => ?_⟩⟩
    · rcases hcon with hlow | hhigh
      · have hlow' := BitVec.le_def.mp hlow
        have htwo := two_le_of_cluster hc
        exact absurd hlow' (by simp; omega)
      · exact absurd hc.2 (BitVec.not_lt.mpr hhigh)
    · have hlong := h.length
      refine hrest chain'' { s₂ with fil := { s₂.fil with clust := next } }
        ⟨halong.trans ⟨hgrows, haccounts, hspares, ?_, hmoved, ?_, ?_, ?_, ?_⟩, hi, by omega, hr, ?_, hstep,
          by omega⟩
      · refine hcore.of_fil ?_ ?_ ?_ ?_ ?_
        · simp only [takes, if_neg hsclust, hfil]
        all_goals simp only [takes, hfil]
      · simp only [hfil]
      · rw [hfil]
        exact Or.inl rfl
      · rw [hfil]
        rfl
      · rw [hfil]
        rfl
      · simp only [hfil, hfptr]

/-- **The loop of `f_lseek`.** -/
theorem seekLoop_spec {writable : Bool} {fuel i ofs target : ℕ}
    (h : InCluster l content chain chain' s₀ s i ofs target)
    (hin : content.Within s₀.fil.obj.objsize.toNat)
    (hfuel : ofs ≤ (fuel + 1) * (l.csize.toNat * 512)) (hmost : target < 2 ^ 32)
    (hread : writable = false → target ≤ s₀.fil.obj.objsize.toNat) :
    Ends (seekLoop l writable fuel ofs s.fil.clust) s (SeekEnd l content chain s₀ target)
      (Fails l chain s₀.vol) := by
  -- the fuel is what is left, counted in clusters
  induction fuel generalizing s chain' i ofs with
  | zero => exact ⟨chain', i, Or.inl ⟨h, by omega, rfl⟩⟩
  | succ fuel ih =>
    rw [seekLoop]
    split
    · rename_i hofs
      obtain ⟨halong, hfptr⟩ := h.passed hmost hofs
      have hrest := h.rest
      simp only [modifyFil, ends_bind, ends_modify]
      generalize hs₁ : ({ s with
        fil := { s.fil with fptr := s.fil.fptr + BitVec.ofNat 32 (l.csize.toNat * 512) } } :
          FileState δ) = s₁ at halong
      have hclust₁ : s₁.fil.clust = s.fil.clust := by rw [← hs₁]
      have hfptr₁ : s₁.fil.fptr.toNat = (i + 1) * (l.csize.toNat * 512) := by
        rw [← hs₁]
        exact hfptr
      have hin₁ : content.Within s₁.fil.obj.objsize.toNat := by
        rw [halong.objsize]
        exact hin
      rw [Nat.add_mul, Nat.one_mul] at hfuel
      rw [h.clust]
      cases hwritable : writable with
      | true =>
        subst hwritable
        refine (newNext_spec halong.core hin₁ h.index).bind (fun next s₂ hs₂ => ?_) fun e s' hfail => hfail
        exact seekNext_spec h hofs halong hclust₁ hfptr₁ hs₂.1 hs₂.2.1 hs₂.2.2
          (fun hcon => (by cases hcon)) fun _ _ hthere => ih hthere (by omega)
      | false =>
        subst hwritable
        -- the chain has room for the size, and the target is not behind it
        have hsize := h.core.size
        have hobj := hread rfl
        rw [← h.objsize] at hobj
        have hi : i + 1 < chain'.length := by
          refine Nat.lt_of_mul_lt_mul_right (a := l.csize.toNat * 512) ?_
          rw [mul_sectorCount] at hsize
          rw [Nat.add_mul, Nat.one_mul]
          omega
        refine (followNext_spec halong.core hi).bind (fun next s₂ hs₂ => ?_) fun e s' hfail => hfail
        exact seekNext_spec h hofs halong hclust₁ hfptr₁ hs₂.1 hs₂.2.1 hs₂.2.2.1 (fun _ => hs₂.2.2.2)
          fun _ _ hthere => ih hthere (by omega)
    · exact ⟨chain', i, Or.inl ⟨h, by omega, rfl⟩⟩

/-- **Where the way along the chain ends**: at the target, or before it if the volume is full, with
the cluster and the sector of that position. -/
structure Arrived (l : Layout) (content : Content) (chain chain' : List (BitVec 32)) (s : FileState δ)
    (target : ℕ) (nsect : BitVec 32) (s' : FileState δ) : Prop
    extends Along l content chain chain' s s' where
  fptr_le : s'.fil.fptr.toNat ≤ target
  full : s'.fil.fptr.toNat < target → s'.fil.fptr.toNat % 512 = 0 ∧ Full l s'.vol ∧
    s.fil.obj.objsize.toNat ≤ s'.fil.fptr.toNat
  tight : ∀ n, Tight l chain n → Tight l chain' (max n s'.fil.fptr.toNat)
  room : s'.fil.fptr.toNat ≤ 512 * sectorCount l chain'
  clust : 0 < s'.fil.fptr.toNat →
    s'.fil.clust = chain'.getD ((s'.fil.fptr.toNat - 1) / 512 / l.csize.toNat) 0#32
  sect : s'.fil.fptr.toNat % 512 ≠ 0 → nsect = sectorOf l chain' (s'.fil.fptr.toNat / 512)
  begun : s'.fil.obj.sclust = s.fil.obj.sclust ∨ 0 < s'.fil.fptr.toNat

/-- The last part of the way. -/
theorem seekInside_spec {r : ℕ × BitVec 32} {target : ℕ} (hmost : target < 2 ^ 32)
    (h : SeekEnd l content chain s₀ target r s) :
    Ends (seekInside l r.1 r.2) s
      (fun nsect s' => ∃ chain', Arrived l content chain chain' s₀ target nsect s')
      (Fails l chain s₀.vol) := by
  obtain ⟨chain', i, ⟨hin, hle, hclst⟩ | ⟨halong, rfl, hi, hclust, hfptr, hlt, hfull⟩⟩ := h
  · have hrest := hin.rest
    have hpos := hin.pos
    have hfptr := hin.fptr
    have hclust := hin.clust
    have hnat : (s.fil.fptr + BitVec.ofNat 32 r.1).toNat = i * (l.csize.toNat * 512) + r.1 := by
      rw [toNat_advance (by omega), hfptr]
    have hc : l.Cluster s.fil.clust := by
      rw [hclust, List.getD_eq_getElem _ _ hin.index]
      exact hin.core.nodes _ (List.getElem_mem _)
    have harrived : ∀ nsect, (r.1 % 512 ≠ 0 →
          nsect = clst2sect l s.fil.clust + BitVec.ofNat 32 (r.1 / 512)) →
        ∃ chain', Arrived l content chain chain' s₀ target nsect
          { s with fil := { s.fil with fptr := s.fil.fptr + BitVec.ofNat 32 r.1 } } := by
      intro nsect hnsect
      refine ⟨chain', ⟨hin.grows, hin.accounts, hin.spares, hin.core.of_fil rfl rfl rfl rfl rfl, hin.moved,
        hin.objsize, hin.start, hin.handle, hin.modified⟩, ?_, fun hlt => ?_, fun n htight => ?_, ?_,
        fun _ => ?_, fun hne => ?_, Or.inr ?_⟩
      · simp only [hnat, hrest]
        exact Nat.le_refl _
      · simp only [hnat, hrest] at hlt
        exact absurd hlt (Nat.lt_irrefl _)
      · simp only [hnat]
        exact htight.of_length hin.length (by omega)
      · simp only [hnat]
        exact le_sectorCount hin.index hle
      · simp only [hnat, div_offset hpos hle, hclust]
      · simp only [hnat] at hne ⊢
        have hinside : r.1 % 512 ≠ 0 := by
          rw [← Nat.mul_assoc, Nat.mul_comm _ 512] at hne
          omega
        rw [hnsect hinside, sectorOf_offset chain' hinside hle, hclust]
      · simp only [hnat]
        omega
    simp only [seekInside, modifyFil, ends_bind, ends_modify]
    rw [hclst]
    split
    · simp only [ends_bind, ends_failIf, ends_pure]
      exact ⟨fun hzero => absurd hzero (clst2sect_ne_zero hc), fun _ => harrived _ fun _ => rfl⟩
    · rename_i hboundary
      exact harrived _ fun hinside => absurd hinside hboundary
  · -- the volume was full at the end of a cluster
    have hdvd : s.fil.fptr.toNat % 512 = 0 := by
      rw [hfptr, ← Nat.mul_assoc]
      exact Nat.mul_mod_left _ _
    have hcsize := csize_pos l
    have hstay : s.fil.fptr + BitVec.ofNat 32 0 = s.fil.fptr := BitVec.add_zero _
    simp only [seekInside, modifyFil, ends_bind, ends_modify, hstay, Nat.zero_mod, ne_eq,
      not_true_eq_false, if_false, ends_pure]
    have hroom : 512 * sectorCount l chain' = s.fil.fptr.toNat := by
      rw [mul_sectorCount, hfptr, hi]
    refine ⟨chain', halong, Nat.le_of_lt hlt, fun _ => ⟨hdvd, hfull, ?_⟩, fun n _ => ?_,
      Nat.le_of_eq hroom.symm, fun _ => ?_, fun hne => absurd hdvd hne, Or.inr ?_⟩
    · rw [← hroom, ← halong.objsize]
      exact halong.core.size
    · simp only [Tight, ← mul_sectorCount, hroom]
      omega
    · rw [hclust, hfptr, Nat.add_mul, Nat.one_mul, div_offset (by omega) (Nat.le_refl _)]
    · rw [hfptr]
      exact Nat.mul_pos (Nat.succ_pos i) (by omega)

/-- **The way along the chain.** -/
theorem seekAlong_spec (h : Core l s.vol.window chain content s.fil)
    (hin : content.Within s.fil.obj.objsize.toNat) {ifptr : BitVec 32}
    (hle : ifptr.toNat ≤ s.fil.obj.objsize.toNat)
    (hclust : 0 < ifptr.toNat →
      s.fil.clust = chain.getD ((ifptr.toNat - 1) / 512 / l.csize.toNat) 0#32)
    (hzero : s.fil.fptr = 0#32) {target : ℕ} (htarget : 0 < target) (hmost : target < 2 ^ 32)
    (hread : has s.fil.flag faWrite = false → target ≤ s.fil.obj.objsize.toNat) :
    Ends (seekAlong l ifptr target) s
      (fun nsect s' => ∃ chain', Arrived l content chain chain' s target nsect s')
      (Fails l chain s.vol) := by
  simp only [seekAlong, ends_bind, ends_get]
  refine (seekStart_spec h hin hle hclust hzero htarget).mono (fun r s₁ hs₁ => ?_)
    fun e s' hfail => hfail
  rcases hs₁ with ⟨chain', i, hin₁, hr⟩ | ⟨hr, halong, hfptr, hfull, hnil⟩
  · have hc : l.Cluster s₁.fil.clust := by
      rw [hin₁.clust, List.getD_eq_getElem _ _ hin₁.index]
      exact hin₁.core.nodes _ (List.getElem_mem _)
    rw [if_pos (hr ▸ (not_mem_marks hc).1), hr]
    have hfuel : r.1 ≤ (target / (l.csize.toNat * 512) + 1) * (l.csize.toNat * 512) := by
      have hrest := hin₁.rest
      have hfloor := Nat.lt_div_mul_add (a := target) (b := l.csize.toNat * 512)
        (Nat.mul_pos (csize_pos l) (by decide))
      rw [Nat.add_mul, Nat.one_mul]
      omega
    exact (seekLoop_spec hin₁ hin hfuel hmost hread).bind (fun r' s₂ hs₂ => seekInside_spec hmost hs₂)
      fun e s' hfail => hfail
  · rw [if_neg (not_not.mpr hr), ends_pure]
    have hnat : s₁.fil.fptr.toNat = 0 := by
      rw [hfptr]
      rfl
    have hsize := h.size
    rw [hnil, sectorCount, List.length_nil, Nat.zero_mul] at hsize
    exact ⟨chain, halong, by omega, fun _ => ⟨by omega, hfull, by omega⟩,
      fun n htight => htight.mono (Nat.le_max_left _ _), by omega, fun hcon => by omega,
      fun hcon => by omega, Or.inl (by rw [halong.core.start, h.start])⟩

theorem toNat_seekTarget (f : OpenFil) (ofs : BitVec 32) :
    (if ofs > f.obj.objsize ∧ has f.flag faWrite = false then f.obj.objsize else ofs).toNat =
      seekTarget f ofs := by
  unfold seekTarget
  by_cases hread : has f.flag faWrite = false
  · simp only [hread, and_true, if_true, gt_iff_lt, BitVec.lt_def]
    split <;> omega
  · rw [if_neg fun hcon => hread hcon.2, if_neg hread]

/-- The file behind the position that has been reached: it is extended if it was shorter. -/
def extended (f : OpenFil) : OpenFil :=
  if f.fptr > f.obj.objsize then
    { f with obj := { f.obj with objsize := f.fptr }, flag := f.flag ||| faModified }
  else f

theorem Arrived.extended {s' : FileState δ} {target : ℕ} {nsect : BitVec 32}
    (hcore : Core l s.vol.window chain content s.fil)
    (h : Arrived l content chain chain' s target nsect s') :
    Core l s'.vol.window chain' content (extended s'.fil) ∧
      (extended s'.fil).obj.objsize.toNat = max s.fil.obj.objsize.toNat s'.fil.fptr.toNat ∧
      (extended s'.fil).fptr = s'.fil.fptr ∧ (extended s'.fil).clust = s'.fil.clust ∧
      (extended s'.fil).handle = s.fil.handle ∧
      ((extended s'.fil).modified = false → s.fil.modified = false ∧
        (extended s'.fil).obj.sclust = s.fil.obj.sclust ∧
        (extended s'.fil).obj.objsize = s.fil.obj.objsize) := by
  have hroom := h.room
  unfold Stream.extended
  split
  · rename_i hgt
    refine ⟨h.core.resized rfl hroom (has_or (by decide) _) rfl rfl, ?_, rfl, rfl,
      (handle_marked _).trans h.handle, fun hmod => ?_⟩
    · rw [gt_iff_lt, BitVec.lt_def, h.objsize] at hgt
      simp only
      omega
    · rw [OpenFil.modified, has_or_faModified] at hmod
      cases hmod
  · rename_i hle
    rw [gt_iff_lt, BitVec.lt_def, h.objsize] at hle
    refine ⟨h.core, ?_, rfl, rfl, h.handle, fun hmod => ⟨h.modified ▸ hmod, ?_, h.objsize⟩⟩
    · rw [h.objsize]
      omega
    · -- a file whose first cluster is new has been extended
      rcases h.begun with heq | hpos
      · exact heq
      · refine h.start.resolve_right fun hnone => ?_
        obtain rfl := hcore.sclust_eq_zero_iff.mp hnone
        have hsize := hcore.size
        simp only [sectorCount, List.length_nil, Nat.zero_mul, Nat.mul_zero] at hsize
        omega

/-- **What `f_lseek` does to a file**: it holds what it held, its position is the target, or before it
if the volume is full, and its size follows. -/
structure Sought (l : Layout) (content : Content) (chain chain' : List (BitVec 32)) (s : FileState δ)
    (target : ℕ) (s' : FileState δ) : Prop where
  grows : Grows (s.vol.table l) chain chain'
  accounts : Accounts l (s.vol.table l) (s'.vol.table l) chain chain'
  spares : Spares l chain s.vol s'.vol
  core : Core l s'.vol.window chain' content s'.fil
  positioned : Positioned l chain' s'.fil
  moved : s'.moved = s.moved
  objsize : s'.fil.obj.objsize.toNat = max s.fil.obj.objsize.toNat s'.fil.fptr.toNat
  fptr_le : s'.fil.fptr.toNat ≤ target
  full : s'.fil.fptr.toNat < target → Full l s'.vol ∧ s.fil.obj.objsize.toNat ≤ s'.fil.fptr.toNat
  tight : Tight l chain s.fil.obj.objsize.toNat → Tight l chain' s'.fil.obj.objsize.toNat
  handle : s'.fil.handle = s.fil.handle
  unmarked : s'.fil.modified = false → s.fil.modified = false ∧
    s'.fil.obj.sclust = s.fil.obj.sclust ∧ s'.fil.obj.objsize = s.fil.obj.objsize

/-- The buffer follows the position. -/
theorem settle_spec {s' : FileState δ} {target : ℕ} {nsect : BitVec 32}
    (h₀ : Core l s.vol.window chain content s.fil)
    (h : Arrived l content chain chain' s target nsect s') :
    Ends (onlyIf ((extended s'.fil).fptr.toNat % 512 ≠ 0) (seize nsect))
      { s' with fil := extended s'.fil } (fun _ s'' => Sought l content chain chain' s target s'')
      (Fails l chain s.vol) := by
  obtain ⟨hcore, hobj, hfptr, hclust, hhandle, hmod⟩ := h.extended h₀
  have hroom := h.room
  rw [ends_onlyIf, hfptr]
  refine ⟨fun hne => ?_, fun hboundary => ?_⟩
  · have hk : s'.fil.fptr.toNat / 512 < sectorCount l chain' := by omega
    rw [h.sect hne]
    refine (seize_spec (s := { s' with fil := extended s'.fil }) hcore hk).mono (fun _ s'' hs'' => ?_)
      fun e s'' hfail => hfail.after h.spares h.grows
    obtain ⟨hdone, hsect, hclust'⟩ := hs''
    have hfptr'' : s''.fil.fptr = s'.fil.fptr := hdone.fptr.trans hfptr
    have hobj'' : s''.fil.obj.objsize.toNat = max s.fil.obj.objsize.toNat s'.fil.fptr.toNat := by
      rw [hdone.obj]
      exact hobj
    refine ⟨h.grows, h.accounts.trans (Accounts.of_eq hdone.table) h.grows,
      h.spares.trans hdone.spares h.grows, hdone.core, ⟨?_, fun hpos => ?_, fun _ => ?_⟩,
      hdone.moved.trans h.moved, ?_, ?_, ?_, fun htight => ?_, hdone.handle.trans hhandle, ?_⟩
    · rw [hfptr'', hobj'']
      omega
    · rw [hfptr''] at hpos ⊢
      rw [hclust', hclust]
      exact h.clust hpos
    · rw [hfptr'']
      exact hsect
    · rw [hobj'', hfptr'']
    · rw [hfptr'']
      exact h.fptr_le
    · rw [hfptr'']
      exact fun hlt => absurd (h.full hlt).1 hne
    · rw [hobj'']
      exact h.tight _ htight
    · rw [hdone.modified, hdone.obj]
      exact hmod
  · refine ⟨h.grows, h.accounts, h.spares, hcore, ⟨?_, fun hpos => ?_, fun hne => ?_⟩, h.moved, ?_, ?_, ?_,
      fun htight => ?_, hhandle, hmod⟩
    · simp only [hfptr]
      omega
    · simp only [hfptr, hclust] at hpos ⊢
      exact h.clust hpos
    · simp only [hfptr] at hne
      exact absurd hne hboundary
    · simp only [hobj, hfptr]
    · simp only [hfptr]
      exact h.fptr_le
    · simp only [hfptr]
      exact fun hlt => (h.full hlt).2
    · simp only [hobj]
      exact h.tight _ htight

/-- **What `f_lseek` does** behind its checks: the file is sought, or the call fails. -/
theorem seekBody_spec (h : Core l s.vol.window chain content s.fil)
    (hpos : Positioned l chain s.fil) (hin : content.Within s.fil.obj.objsize.toNat)
    (ofs : BitVec 32) :
    Ends (seekBody l ofs) s
      (fun _ s' => ∃ chain', Sought l content chain chain' s (seekTarget s.fil ofs) s')
      (Fails l chain s.vol) := by
  have htarget := toNat_seekTarget s.fil ofs
  simp only [seekBody, ends_bind, ends_get, modifyFil, ends_modify]
  generalize (if ofs > s.fil.obj.objsize ∧ has s.fil.flag faWrite = false then s.fil.obj.objsize
    else ofs) = ofs' at htarget
  rw [← htarget]
  -- the position is forgotten on the way
  have hzero : Core l s.vol.window chain content { s.fil with fptr := 0#32 } :=
    h.of_fil rfl rfl rfl rfl rfl
  split
  · rename_i hofs
    refine (seekAlong_spec (s := { s with fil := { s.fil with fptr := 0#32 } }) hzero hin hpos.fptr_le
      hpos.clust rfl (BitVec.lt_def.mp hofs) ofs'.isLt fun hread => ?_).bind (fun nsect s₁ hs₁ => ?_)
      fun e s' hfail => hfail
    · rw [htarget, seekTarget, if_pos hread]
      exact Nat.min_le_right _ _
    · obtain ⟨chain', harrived⟩ := hs₁
      rw [ends_bind, ends_modify, ends_bind, ends_get]
      refine (settle_spec hzero harrived).mono (fun _ s' hs' => ?_) fun e s' hfail => hfail
      exact ⟨chain', hs'.grows, hs'.accounts, hs'.spares, hs'.core, hs'.positioned, hs'.moved, hs'.objsize,
        hs'.fptr_le, hs'.full, hs'.tight, hs'.handle, hs'.unmarked⟩
  · rename_i hofs
    have hnone : ofs'.toNat = 0 := by
      rw [gt_iff_lt, BitVec.lt_def] at hofs
      exact Nat.eq_zero_of_not_pos hofs
    have harrived : Arrived l content chain chain { s with fil := { s.fil with fptr := 0#32 } }
        ofs'.toNat 0#32 { s with fil := { s.fil with fptr := 0#32 } } := by
      refine ⟨(Done.refl hzero).grown.toAlong, ?_, fun hlt => ?_,
        fun n htight => htight.mono (Nat.le_max_left _ _), ?_, fun hcon => ?_, fun hcon => ?_, Or.inl rfl⟩
      · exact Nat.zero_le _
      · omega
      · exact Nat.zero_le _
      · cases hcon
      · exact absurd rfl hcon
    rw [ends_bind, ends_pure, ends_bind, ends_modify, ends_bind, ends_get]
    refine (settle_spec hzero harrived).mono (fun _ s' hs' => ?_) fun e s' hfail => hfail
    exact ⟨chain, hs'.grows, hs'.accounts, hs'.spares, hs'.core, hs'.positioned, hs'.moved, hs'.objsize,
      hs'.fptr_le, hs'.full, hs'.tight, hs'.handle, hs'.unmarked⟩

end Along

end Stream

end FatFs

end BareMetal
