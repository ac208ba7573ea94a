import BareMetal.FatFs.Reading

/-!
# Writing

A round of `f_write` puts bytes into the buffer, or whole sectors on the disk past it, in which case a
buffer of one of them follows. On a cluster boundary the chain is followed, or stretched by a free cluster;
if there is none the loop ends, and what has been written so far stays
(`BareMetal.FatFs.Stream.writeBody_spec`). The chain only grows when the position comes to its end, so that
it has never a cluster more than the file needs (`BareMetal.FatFs.Tight`).
-/

namespace BareMetal

namespace FatFs

variable {δ : Type} [DiskIo δ]

/-! ### What is written -/

/-- Bytes are put into a file. -/
def Content.put (content : Content) (pos : ℕ) (data : List (BitVec 8)) : Content := fun p =>
  if pos ≤ p ∧ p < pos + data.length then data[p - pos]? else content p

theorem Content.put_nil (content : Content) (pos : ℕ) : content.put pos [] = content := by
  funext p
  rw [Content.put, if_neg (by simp)]

/-- Putting bytes one after the other. -/
theorem Content.put_append (content : Content) (pos : ℕ) (xs ys : List (BitVec 8)) :
    (content.put pos xs).put (pos + xs.length) ys = content.put pos (xs ++ ys) := by
  funext p
  simp only [Content.put, List.length_append]
  by_cases hy : pos + xs.length ≤ p ∧ p < pos + xs.length + ys.length
  · rw [if_pos hy, if_pos (by omega), List.getElem?_append_right (by omega), Nat.sub_add_eq]
  · rw [if_neg hy]
    by_cases hx : pos ≤ p ∧ p < pos + xs.length
    · rw [if_pos hx, if_pos (by omega), List.getElem?_append_left (by omega)]
    · rw [if_neg hx, if_neg (by omega)]

/-- No byte is set behind the end of the file. -/
def Content.Within (content : Content) (n : ℕ) : Prop := ∀ p, n ≤ p → content p = none

theorem Content.Within.put {content : Content} {n : ℕ} (h : content.Within n) (pos : ℕ)
    (data : List (BitVec 8)) : (content.put pos data).Within (max n (pos + data.length)) := by
  intro p hp
  rw [Content.put, if_neg (by omega)]
  exact h p (by omega)

/-- No cluster is free, or none is thought to be. -/
def Full (l : Layout) (v : Vol δ) : Prop :=
  v.freeClst = 0#32 ∨ ∀ c, l.Cluster c → v.table l c ≠ 0#32

/-! ### A new cluster -/

section Created

variable {l : Layout} {v v' : Vol δ} {chain : List (BitVec 32)} {content : Content} {f : OpenFil}
  {clst r : BitVec 32}

theorem sectorCount_append (l : Layout) (chain : List (BitVec 32)) (r : BitVec 32) :
    sectorCount l (chain ++ [r]) = sectorCount l chain + l.csize.toNat := by
  rw [sectorCount, List.length_append, List.length_singleton, Nat.add_mul, Nat.one_mul]
  rfl

/-- The file holds the same when its chain has been stretched. -/
theorem Core.created (h : Core l v.window chain content f)
    (hin : content.Within f.obj.objsize.toNat) (hkept : TableKept l v.window v'.window)
    (hout : SameOutside l v.window v'.window) (hplace : ¬l.InData v'.window.winsect)
    (hlinked : ∀ a ∈ (chain ++ [r]).head?,
      Linked (v'.table l) l.Cluster l.End a (chain ++ [r])) :
    Core l v'.window (chain ++ [r]) content { f with
      clust := r
      obj := { f.obj with sclust := if f.obj.sclust = 0#32 then r else f.obj.sclust } } := by
  have hcount := sectorCount_append l chain r
  refine ⟨hkept.coherent, ?_, hlinked, ?_, fun hd => ?_, fun k hk heq => ?_, fun p hp b hb => ?_⟩
  · rw [h.start]
    cases hchain : chain with
    | nil => simp
    | cons a rest =>
      have ha : l.Cluster a := h.nodes a (by simp [hchain])
      simp [ne_of_next (Or.inl ha) (show (0#32).toNat < 2 by decide)]
  · have hsize := h.size
    simp only
    omega
  · obtain ⟨k, hk, hsect⟩ := h.dirty hd
    exact ⟨k, by omega, hsect.trans (sectorOf_append hk _).symm⟩
  · exact hplace (heq ▸ inData_sectorOf (linked_nodes hlinked) hk)
  · -- bytes that are set are in the old part
    have hlt : p < f.obj.objsize.toNat := by
      by_contra hge
      rw [hin p (Nat.le_of_not_lt hge)] at hb
      cases hb
    have hsize := h.size
    have hq : p / 512 < sectorCount l chain := by omega
    have hview : v'.window.view (sectorOf l chain (p / 512)) =
        v.window.view (sectorOf l chain (p / 512)) :=
      hout _ (tracked_of_inData l (inData_sectorOf h.nodes hq)) fun j hj =>
        (ne_sectorOf_of_fat h.nodes hj hq).symm
    rw [sectorOf_append hq, hview]
    exact h.data p (by omega) b hb

end Created

/-! ### New bytes -/

section Put

variable {l : Layout} {v : Vol δ} {chain : List (BitVec 32)} {content : Content} {f f' : OpenFil}

theorem peek_sectorFrom (data : List (BitVec 8)) (j p : ℕ) :
    peek (Stream.sectorFrom data j) p = data.getD (512 * j + p % 512) 0#8 := rfl

/-- A byte that has been put, or that was there before. -/
theorem Content.put_eq_some {pos p : ℕ} {data : List (BitVec 8)} {b : BitVec 8}
    (h : content.put pos data p = some b) :
    (pos ≤ p ∧ p < pos + data.length) ∧ data.getD (p - pos) 0#8 = b ∨
      ¬(pos ≤ p ∧ p < pos + data.length) ∧ content p = some b := by
  unfold Content.put at h
  split at h
  · rename_i hin
    refine Or.inl ⟨hin, ?_⟩
    rw [List.getD_eq_getElem?_getD, h]
    rfl
  · rename_i hout
    exact Or.inr ⟨hout, h⟩

/-- **Whole sectors are put** into a file whose buffer has been written back; the buffer follows if
it is of one of them. -/
theorem Core.put_direct (h : Core l v.window chain content f)
    (hclean : has f.flag faDirty = false) {data : List (BitVec 8)} {k cc : ℕ}
    (hcc : k % l.csize.toNat + cc ≤ l.csize.toNat) (hk : k + cc ≤ sectorCount l chain)
    (hlen : 512 * cc ≤ data.length) {d : δ}
    (hstored : Becomes v.window.disk d (storeSectors (sectors v.window.disk) (sectorOf l chain k) cc
      (Stream.sectorFrom data)))
    (hobj : f'.obj = f.obj) (hsect : f'.sect = f.sect)
    (hflag : has f'.flag faDirty = false)
    (hbuf : ∀ j < cc, f.sect = sectorOf l chain (k + j) → f'.buf = Stream.sectorFrom data j)
    (hbuf' : (∀ j < cc, f.sect ≠ sectorOf l chain (k + j)) → f'.buf = f.buf) :
    Core l (Stream.setDisk v d).window chain
      (content.put (512 * k) (data.take (512 * cc))) f' := by
  have hapart : ∀ j < cc, v.window.winsect ≠ sectorOf l chain (k + j) := fun j hj =>
    h.apart _ (by omega)
  have hspares := Spares.write h.coherent h.nodes hcc hk hapart hstored
  have hview := view_store hcc hapart hstored
  have htable := table_store h.nodes hcc hk hapart hstored
  refine ⟨hspares.kept.coherent, by rw [hobj]; exact h.start,
    fun a ha => (h.linked a ha).congr fun c _ => htable c, by rw [hobj]; exact h.size,
    fun hd => ?_, h.apart, fun p hp b hb => ?_⟩
  · rw [hflag] at hd
    cases hd
  have hq : p / 512 < sectorCount l chain := by omega
  rw [hview, storeSectors_sectorOf _ _ h.nodes h.nodup hcc hk hq, hsect]
  rcases Content.put_eq_some hb with ⟨hrange, hbyte⟩ | ⟨hrange, hold⟩
  · -- a byte of the new sectors
    rw [List.length_take, Nat.min_eq_left hlen] at hrange
    have hget : peek (Stream.sectorFrom data (p / 512 - k)) p = b := by
      rw [peek_sectorFrom, ← hbyte, show 512 * (p / 512 - k) + p % 512 = p - 512 * k by omega,
        List.getD_eq_getElem?_getD, List.getD_eq_getElem?_getD, List.getElem?_take_of_lt (by omega)]
    rw [if_pos (by omega)]
    refine ⟨fun heq => ?_, fun _ => hget⟩
    rw [hbuf (p / 512 - k) (by omega) (by rw [heq, Nat.add_sub_cancel' (by omega)])]
    exact hget
  · rw [List.length_take, Nat.min_eq_left hlen] at hrange
    have hout : ¬(k ≤ p / 512 ∧ p / 512 < k + cc) := by omega
    obtain ⟨hin, hdisk⟩ := h.data p hp b hold
    rw [if_neg hout]
    refine ⟨fun heq => ?_, fun _ => hdisk fun hcon => ?_⟩
    · rw [hbuf' fun j hj hcon => ?_]
      · exact hin heq
      · have hsame := sectorOf_inj h.nodes h.nodup hq (show k + j < sectorCount l chain by omega)
          (heq.symm.trans hcon)
        omega
    · rw [hclean] at hcon
      cases hcon.1

theorem peek_buffer (buf : Sector) (data : List (BitVec 8)) (a n p : ℕ) :
    peek (fun i : Fin 512 => if a ≤ i ∧ i < a + n then data.getD (i - a) 0#8 else buf i) p =
      if a ≤ p % 512 ∧ p % 512 < a + n then data.getD (p % 512 - a) 0#8 else peek buf p := rfl

/-- **Bytes are put into the buffer**, which is of their sector. -/
theorem Core.put_part {w : Window δ} (h : Core l w chain content f) {data : List (BitVec 8)} {pos n : ℕ}
    (hk : pos / 512 < sectorCount l chain) (hsect : f.sect = sectorOf l chain (pos / 512))
    (hn : n ≤ 512 - pos % 512) (hlen : n ≤ data.length) :
    Core l w chain (content.put pos (data.take n)) { f with
      buf := fun i => if pos % 512 ≤ i ∧ i < pos % 512 + n then data.getD (i - pos % 512) 0#8
        else f.buf i
      flag := f.flag ||| faDirty } := by
  refine ⟨h.coherent, h.start, h.linked, h.size, fun _ => ⟨_, hk, hsect⟩, h.apart, fun p hp b hb => ?_⟩
  have hq : p / 512 < sectorCount l chain := by omega
  have hdirty := has_or_faDirty f.flag
  have hiff : f.sect = sectorOf l chain (p / 512) ↔ p / 512 = pos / 512 := by
    rw [hsect]
    exact ⟨fun heq => (sectorOf_inj h.nodes h.nodup hk hq heq).symm, fun heq => by rw [heq]⟩
  simp only [hdirty, hiff, true_and]
  rcases Content.put_eq_some hb with ⟨hrange, hbyte⟩ | ⟨hrange, hold⟩
  · rw [List.length_take, Nat.min_eq_left hlen] at hrange
    refine ⟨fun hsame => ?_, fun hne => absurd (by omega) hne⟩
    rw [peek_buffer, if_pos (by omega), ← hbyte, List.getD_eq_getElem?_getD,
      List.getD_eq_getElem?_getD, List.getElem?_take_of_lt (by omega),
      show p % 512 - pos % 512 = p - pos by omega]
  · rw [List.length_take, Nat.min_eq_left hlen] at hrange
    obtain ⟨hin, hdisk⟩ := h.data p hp b hold
    refine ⟨fun hsame => ?_, fun hne => hdisk fun hcon => hne (hiff.mp hcon.2)⟩
    rw [peek_buffer, if_neg (by omega)]
    exact hin (hiff.mpr hsame)

end Put

namespace Stream

/-- **What a part of a call does to a file that may grow**: it holds what it held, its chain has
perhaps been stretched, and the others are spared. -/
structure Along (l : Layout) (content : Content) (chain chain' : List (BitVec 32))
    (s s' : FileState δ) : Prop where
  grows : Grows (s.vol.table l) chain chain'
  accounts : Accounts l (s.vol.table l) (s'.vol.table l) chain chain'
  spares : Spares l chain s.vol s'.vol
  core : Core l s'.vol.window chain' content s'.fil
  moved : s'.moved = s.moved
  objsize : s'.fil.obj.objsize = s.fil.obj.objsize
  start : s'.fil.obj.sclust = s.fil.obj.sclust ∨ s.fil.obj.sclust = 0#32
  handle : s'.fil.handle = s.fil.handle
  modified : s'.fil.modified = s.fil.modified

/-- The same for a part that leaves the position. -/
structure Grown (l : Layout) (content : Content) (chain chain' : List (BitVec 32))
    (s s' : FileState δ) : Prop extends Along l content chain chain' s s' where
  fptr : s'.fil.fptr = s.fil.fptr

section Cluster

variable {l : Layout} {chain chain' : List (BitVec 32)} {content : Content} {s s' s'' : FileState δ}

theorem Done.grown (h : Done l chain content s s') : Grown l content chain chain s s' :=
  ⟨⟨Grows.refl _ _, Accounts.of_eq h.table, h.spares, h.core, h.moved, by rw [h.obj],
    Or.inl (by rw [h.obj]), h.handle, h.modified⟩, h.fptr⟩

theorem Along.trans {chain'' : List (BitVec 32)} (h : Along l content chain chain' s s')
    (h' : Along l content chain' chain'' s' s'') : Along l content chain chain'' s s'' :=
  ⟨h.grows.trans h'.grows h.spares h'.core.nodes, h.accounts.trans h'.accounts h.grows,
    h.spares.trans h'.spares h.grows, h'.core,
    h'.moved.trans h.moved, h'.objsize.trans h.objsize, by
      rcases h.start with heq | hzero
      · rw [← heq]
        exact h'.start
      · exact Or.inr hzero, h'.handle.trans h.handle, h'.modified.trans h.modified⟩

/-- A call of `create_chain` on behalf of a file. -/
theorem newCluster_spec (h : s.vol.window.Coherent l) (clst : BitVec 32)
    {E : InnerResult → FileState δ → Prop} :
    Ends (newCluster l clst) s (fun r s' => TableKept l s.vol.window s'.vol.window ∧
      CreateEnd l s.vol clst r s'.vol ∧ s'.fil = s.fil ∧ s'.moved = s.moved) E := by
  obtain ⟨hkept, hend⟩ := createChain_spec h clst
  simp only [newCluster, ends_bind, ends_get, ends_set, ends_pure]
  exact ⟨hkept, hend, trivial, trivial⟩

/-- The file with a cluster that it has followed or created. -/
def takes (f : OpenFil) (r : BitVec 32) : OpenFil :=
  { f with
    clust := r
    obj := { f.obj with sclust := if f.obj.sclust = 0#32 then r else f.obj.sclust } }

/-- **How the cluster with a number comes to a file**: the volume is full, the table or the disk is
broken, or there is one, perhaps a new one. -/
inductive Stretched (l : Layout) (content : Content) (chain : List (BitVec 32)) (s : FileState δ)
    (i : ℕ) (r : BitVec 32) (s' : FileState δ) : Prop
  | full (hr : r = 0#32) (hdone : Done l chain content s s') (hfull : Full l s'.vol)
      (hend : i = chain.length)
  | broken (hr : r = 1#32 ∨ r = 0xFFFFFFFF#32) (hspares : Spares l chain s.vol s'.vol)
      (hbad : ¬Good l s.vol)
  | cluster (chain' : List (BitVec 32)) (hgrows : Grows (s.vol.table l) chain chain')
      (haccounts : Accounts l (s.vol.table l) (s'.vol.table l) chain chain')
      (hspares : Spares l chain s.vol s'.vol)
      (hcore : Core l s'.vol.window chain' content (takes s.fil r))
      (hi : i < chain'.length) (hlen : chain'.length ≤ max chain.length (i + 1))
      (hr : r = chain'.getD i 0#32)

/-- An end of `create_chain` in which the table is as before. -/
theorem Full.of_sameView {v v' : Vol δ}
    (hfull : v.freeClst = 0#32 ∨ ∀ c, l.Cluster c → v.table l c ≠ 0#32)
    (hsame : SameView l v.window v'.window) (hvol : v' = { v with window := v'.window }) :
    Full l v' := by
  refine hfull.imp (fun hnone => ?_) fun hused c hc => ?_
  · rw [hvol]
    exact hnone
  · rw [Vol.table, hsame.fatEntry]
    exact hused c hc

/-- A file without clusters gets its first. -/
theorem newFirst_spec (h : Core l s.vol.window [] content s.fil)
    (hin : content.Within s.fil.obj.objsize.toNat) {E : InnerResult → FileState δ → Prop} :
    Ends (newCluster l 0#32) s (fun r s' => s'.fil = s.fil ∧ s'.moved = s.moved ∧
      Stretched l content [] s 0 r s') E := by
  refine (newCluster_spec h.coherent 0#32).mono (fun r s' hs' => ?_) fun e s' hfail => hfail
  obtain ⟨hkept, hend, hfil, hmoved⟩ := hs'
  have hnot : ¬l.Cluster 0#32 := fun hc => absurd (two_le_of_cluster hc) (by decide)
  have hspares : Spares l [] s.vol s'.vol := Spares.create hkept hend fun hc => absurd hc hnot
  refine ⟨hfil, hmoved, ?_⟩
  cases hend with
  | follows hclst _ _ _ _ => exact absurd hclst hnot
  | full _ hr hfull hsame hvol =>
    refine .full hr ⟨hspares, ?_, hmoved, by rw [hfil], by rw [hfil], funext (hsame.fatEntry l),
      by rw [hfil], by rw [hfil]⟩
      (Full.of_sameView hfull hsame hvol) rfl
    rw [hfil]
    exact h.of_sameView hkept hsame
  | insane hr hbad _ _ =>
    refine .broken (Or.inl hr) hspares fun hgood => ?_
    rcases hbad with ⟨hne, -⟩ | ⟨c, hc, hone⟩
    · exact hne rfl
    · exact hgood.sane c hc hone
  | failed hr hfail _ _ _ _ => exact .broken (Or.inr hr) hspares fun hgood => hfail hgood.works
  | created hlast hr hfree hnew hlink hothers hplace hout hvol =>
    have hlinked : Linked (s'.vol.table l) l.Cluster l.End r [r] := by
      refine Linked.single hr ?_
      rw [hnew]
      exact nFatent_le_clip_eoc l
    refine .cluster [r] (fun c hc => ?_) (fun c hc hnot => ?_) hspares ?_ (by simp) (by simp) rfl
    · rw [List.mem_singleton.mp hc]
      exact Or.inr hfree
    · rw [hothers c (List.ne_of_not_mem_cons hnot) (ne_of_next (Or.inl hc) (by decide))]
      simp
    · exact Core.created (r := r) h hin hkept hout hplace (by simpa using hlinked)

/-- The cluster behind another one is followed or created. -/
theorem newNext_spec (h : Core l s.vol.window chain content s.fil)
    (hin : content.Within s.fil.obj.objsize.toNat) {i : ℕ} (hi : i < chain.length)
    {E : InnerResult → FileState δ → Prop} :
    Ends (newCluster l (chain.getD i 0#32)) s (fun r s' => s'.fil = s.fil ∧ s'.moved = s.moved ∧
      Stretched l content chain s (i + 1) r s') E := by
  rw [List.getD_eq_getElem _ _ hi]
  refine (newCluster_spec h.coherent chain[i]).mono (fun r s' hs' => ?_) fun e s' hfail => hfail
  obtain ⟨hkept, hend, hfil, hmoved⟩ := hs'
  have hmem : chain[i] ∈ chain := List.getElem_mem hi
  have hclst : l.Cluster chain[i] := h.nodes _ hmem
  have hspares : Spares l chain s.vol s'.vol := Spares.create hkept hend fun _ => hmem
  have hsplit : chain.take i ++ chain[i] :: chain.drop (i + 1) = chain := by
    rw [← List.drop_eq_getElem_cons, List.take_append_drop]
  obtain ⟨first, hfirst⟩ : ∃ a, a ∈ chain.head? := by
    cases hchain : chain with
    | nil => simp [hchain] at hi
    | cons a rest => exact ⟨a, rfl⟩
  have hlinked := h.linked first hfirst
  have hstart : s.fil.obj.sclust ≠ 0#32 := mt h.sclust_eq_zero_iff.mp (List.ne_nil_of_mem hmem)
  refine ⟨hfil, hmoved, ?_⟩
  by_cases hr : l.Cluster r
  · -- it is the next one, or a new one behind the last
    rw [← hsplit] at hlinked
    rcases hend.next hr hlinked with ⟨rest, hrest, hsame⟩ | ⟨hnil, hfree, hothers, hplace, hnew⟩
    · have hlt : i + 1 < chain.length := by
        by_contra hge
        rw [List.drop_eq_nil_of_le (by omega)] at hrest
        cases hrest
      refine .cluster chain (Grows.refl _ _) (Accounts.of_eq (funext (hsame.fatEntry l))) hspares ?_
        hlt (Nat.le_max_left _ _) ?_
      · refine (h.of_sameView hkept hsame).of_fil ?_ rfl rfl rfl rfl
        simp only [takes, if_neg hstart]
      · rw [List.drop_eq_getElem_cons hlt] at hrest
        rw [List.getD_eq_getElem _ _ hlt]
        exact (List.cons.inj hrest).1.symm
    · have hlen : i + 1 = chain.length := by
        have hle := List.drop_eq_nil_iff.mp hnil
        omega
      have happend : chain.take i ++ [chain[i], r] = chain ++ [r] := by
        rw [hnil] at hsplit
        rw [show chain.take i ++ [chain[i], r] = chain.take i ++ [chain[i]] ++ [r] from
          (List.append_assoc _ [chain[i]] [r]).symm, hsplit]
      rw [happend] at hnew
      refine .cluster (chain ++ [r]) (fun c hc => ?_) (fun c hc hnot => ?_) hspares ?_
        (by simp; omega) (by simp; omega) ?_
      · rcases List.mem_append.mp hc with hold | hc
        · exact Or.inl hold
        · rw [List.mem_singleton.mp hc]
          exact Or.inr hfree
      · rw [List.mem_append, List.mem_singleton, not_or] at hnot
        rw [hothers c hnot.2 fun heq => hnot.1 (heq ▸ hmem)]
        exact ⟨fun hused => ⟨hused, hnot.1⟩, fun hused => hused.1⟩
      · refine h.created hin hkept hend.outside hplace fun a ha => ?_
        rw [List.head?_append, Option.mem_def.mp hfirst] at ha
        obtain rfl : first = a := by simpa using ha
        exact hnew
      · rw [hlen, List.getD_append_right _ _ _ _ (Nat.le_refl _), Nat.sub_self]
        rfl
  · cases hend with
    | follows _ _ hnext _ _ => exact absurd hnext hr
    | full hlast hzero hfull hsame hvol =>
      refine .full hzero ⟨hspares, ?_, hmoved, by rw [hfil], by rw [hfil], funext (hsame.fatEntry l),
      by rw [hfil], by rw [hfil]⟩
        (Full.of_sameView hfull hsame hvol) ?_
      · rw [hfil]
        exact h.of_sameView hkept hsame
      · -- the chain does not go on
        by_contra hne
        have hnext := hlinked.next_getElem (show i + 1 < chain.length by omega)
        have hend := (hlast (ne_of_next (Or.inl hclst) (by decide))).2
        rw [show s.vol.table l chain[i] = chain[i + 1] from hnext] at hend
        exact not_cluster_of_end l _ hend (h.nodes _ (List.getElem_mem _))
    | insane hone hbad _ _ =>
      refine .broken (Or.inl hone) hspares fun hgood => ?_
      rcases hbad with ⟨-, hlow⟩ | ⟨c, hc, hone⟩
      · have hlt := BitVec.lt_def.mp (hlow hclst)
        exact ne_of_next (hlinked.next_or hmem) hlt rfl
      · exact hgood.sane c hc hone
    | failed herr hfail _ _ _ _ => exact .broken (Or.inr herr) hspares fun hgood => hfail hgood.works
    | created _ hcluster _ _ _ _ _ _ _ => exact absurd hcluster hr

theorem not_mem_marks {r : BitVec 32} (hr : l.Cluster r) :
    r ≠ 0#32 ∧ r ≠ 1#32 ∧ r ≠ 0xFFFFFFFF#32 :=
  ⟨ne_of_next (Or.inl hr) (by decide), ne_of_next (Or.inl hr) (by decide),
    fun heq => not_cluster_diskErr l (heq ▸ hr)⟩

/-- **How the cluster of the position is reached in `f_write`.** -/
def Reached (l : Layout) (content : Content) (chain : List (BitVec 32)) (s : FileState δ) (i : ℕ)
    (room : Bool) (s' : FileState δ) : Prop :=
  if room then ∃ chain', Grown l content chain chain' s s' ∧ i < chain'.length ∧
    chain'.length ≤ max chain.length (i + 1) ∧ s'.fil.clust = chain'.getD i 0#32
  else Done l chain content s s' ∧ s'.fil = s.fil ∧ Full l s'.vol ∧ i = chain.length

/-- A cluster that has come to the file is taken. -/
theorem keepCluster_spec {i : ℕ} {r : BitVec 32} {s₁ : FileState δ} (hfil : s₁.fil = s.fil)
    (hmoved : s₁.moved = s.moved) (h : Stretched l content chain s i r s₁) :
    Ends (keepCluster r) s₁ (Reached l content chain s i) (Fails l chain s.vol) := by
  unfold keepCluster
  cases h with
  | full hr hdone hfull hend =>
    rw [if_pos hr]
    exact ⟨hdone, hfil, hfull, hend⟩
  | broken hr hspares hbad =>
    have hzero : r ≠ 0#32 := by
      rintro rfl
      rcases hr with hr | hr <;> cases hr
    rw [if_neg hzero]
    simp only [ends_bind, ends_failIf]
    exact ⟨fun _ => ⟨hspares, hbad, by decide⟩, fun hone =>
      ⟨fun _ => ⟨hspares, hbad, by decide⟩, fun herr => absurd hr (not_or.mpr ⟨hone, herr⟩)⟩⟩
  | cluster chain' hgrows haccounts hspares hcore hi hlen hr =>
    have hc : l.Cluster r := hr ▸ hcore.cluster_getD hi
    obtain ⟨hzero, hone, herr⟩ := not_mem_marks hc
    rw [if_neg hzero]
    simp only [modifyFil, ends_bind, ends_failIf, ends_modify, ends_pure]
    refine ⟨fun hcon => absurd hcon hone, fun _ => ⟨fun hcon => absurd hcon herr, fun _ => ?_⟩⟩
    refine ⟨chain', ⟨⟨hgrows, haccounts, hspares, ?_, hmoved, ?_, ?_, ?_, ?_⟩, ?_⟩, hi, hlen, hr⟩
    · rw [hfil]
      exact hcore
    · simp only [hfil]
    · simp only [hfil]
      split
      · rename_i hnone
        exact Or.inr hnone
      · exact Or.inl rfl
    · rw [hfil]
      rfl
    · rw [hfil]
      rfl
    · simp only [hfil]

/-- **The next cluster is followed or created** on a cluster boundary. -/
theorem writeCluster_spec (h : Core l s.vol.window chain content s.fil)
    (hpos : Positioned l chain s.fil) (hin : content.Within s.fil.obj.objsize.toNat)
    (hsector : s.fil.fptr.toNat % 512 = 0)
    (hboundary : s.fil.fptr.toNat / 512 % l.csize.toNat = 0) :
    Ends (writeCluster l) s
      (Reached l content chain s (s.fil.fptr.toNat / 512 / l.csize.toNat)) (Fails l chain s.vol) := by
  simp only [writeCluster, ends_bind, ends_get]
  split
  · rename_i hzero
    have hindex : s.fil.fptr.toNat / 512 / l.csize.toNat = 0 := by
      rw [hzero, show (0#32).toNat / 512 = 0 from rfl, Nat.zero_div]
    rw [hindex]
    split
    · rename_i hnone
      obtain rfl := h.sclust_eq_zero_iff.mp hnone
      exact (newFirst_spec h hin).bind (fun r s₁ hs₁ => keepCluster_spec hs₁.1 hs₁.2.1 hs₁.2.2)
        fun e s' hfail => hfail
    · rename_i hsome
      rw [ends_bind, ends_pure]
      have hlen : 0 < chain.length :=
        List.length_pos_iff.mpr (mt h.sclust_eq_zero_iff.mpr hsome)
      refine keepCluster_spec rfl rfl (.cluster chain (Grows.refl _ _) (Accounts.of_eq rfl)
        (Spares.refl h.coherent) ?_ hlen (Nat.le_max_left _ _) ?_)
      · refine h.of_fil ?_ rfl rfl rfl rfl
        simp only [takes, if_neg hsome]
      · rw [h.start]
        cases chain <;> rfl
  · rename_i hne
    have hn : 0 < s.fil.fptr.toNat := Nat.pos_of_ne_zero fun hcon => hne (BitVec.eq_of_toNat_eq hcon)
    have hnext := div_cluster hsector hn (csize_pos l) hboundary
    have hle := hpos.fptr_le
    have hsize := h.size
    have hi := lastIndex_lt hn (hle.trans hsize)
    rw [hpos.clust hn, ← hnext]
    exact (newNext_spec h hin hi).bind (fun r s₁ hs₁ => keepCluster_spec hs₁.1 hs₁.2.1 hs₁.2.2)
      fun e s' hfail => hfail

end Cluster

section Writing

variable {l : Layout} {chain : List (BitVec 32)} {content : Content} {s : FileState δ}
  {data : List (BitVec 8)}

/-- **Whole sectors are written**, and the buffer follows if it is of one of them. -/
theorem writeDirect_spec (h : Core l s.vol.window chain content s.fil)
    (hclean : has s.fil.flag faDirty = false) {k cc : ℕ}
    (hcc : k % l.csize.toNat + cc ≤ l.csize.toNat) (hk : k + cc ≤ sectorCount l chain)
    (hlen : 512 * cc ≤ data.length) (hpos : 0 < cc) :
    Ends (writeDirect data (sectorOf l chain k) cc) s (fun n s' => n = 512 * cc ∧
      Done l chain (content.put (512 * k) (data.take n)) s s' ∧ s'.fil.clust = s.fil.clust)
      (Fails l chain s.vol) := by
  have hsize := l.csize.isLt
  have hapart : ∀ j < cc, s.vol.window.winsect ≠ sectorOf l chain (k + j) := fun j hj =>
    h.apart _ (by omega)
  have hadd : ∀ j < cc, sectorOf l chain (k + j) = sectorOf l chain k + BitVec.ofNat 32 j :=
    fun j hj => sectorOf_add (by omega)
  simp only [writeDirect, modifyFil, ends_bind, ends_get, ends_set, ends_failIf, ends_onlyIf,
    ends_modify, ends_pure]
  obtain ⟨res, d, heq, hres⟩ := diskWrite_inv s.vol.window.disk (sectorFrom data)
    (sectorOf l chain k) hpos (show cc < 2 ^ 32 by omega)
  simp only [heq]
  rcases hres with ⟨rfl, hd⟩ | ⟨hne, hfail, left, hd⟩
  · have hspares := Spares.write h.coherent h.nodes hcc hk hapart hd
    have htable := funext (table_store h.nodes hcc hk hapart hd)
    refine ⟨fun hne => absurd rfl hne, fun _ => ⟨fun hin => ⟨trivial, ⟨hspares, ?_, rfl, rfl, rfl,
      htable, handle_clean _, modified_clean _⟩, trivial⟩, fun hout => ⟨trivial, ⟨hspares, ?_, rfl, rfl,
      rfl, htable, rfl, rfl⟩, trivial⟩⟩⟩
    · refine h.put_direct hclean hcc hk hlen hd rfl rfl (has_and_not_self _ _) (fun j hj hsect => ?_)
        fun hnone => ?_
      · simp only [hsect, hadd j hj]
        rw [BitVec.add_comm, BitVec.add_sub_cancel, BitVec.toNat_ofNat, Nat.mod_eq_of_lt (by omega)]
      · refine absurd ?_ (hnone _ hin)
        rw [hadd _ hin, BitVec.ofNat_toNat, BitVec.setWidth_eq, BitVec.add_comm, BitVec.sub_add_cancel]
    · refine h.put_direct hclean hcc hk hlen hd rfl rfl hclean (fun j hj hsect => ?_) fun _ => rfl
      refine absurd ?_ hout
      rw [hsect, hadd j hj, BitVec.add_comm, BitVec.add_sub_cancel, BitVec.toNat_ofNat,
        Nat.mod_eq_of_lt (by omega)]
      exact hj
  · exact ⟨fun _ => ⟨Spares.write h.coherent h.nodes hcc hk hapart hd,
      fun hgood => hfail hgood.works, by decide⟩, fun hok => absurd (not_not.mp hok) hne⟩

/-- A part of a sector is written to the buffer. -/
theorem writePart_spec (h : Core l s.vol.window chain content s.fil)
    (hk : s.fil.fptr.toNat / 512 < sectorCount l chain)
    (hsect : s.fil.sect = sectorOf l chain (s.fil.fptr.toNat / 512))
    {E : InnerResult → FileState δ → Prop} :
    Ends (writePart data) s (fun n s' => n = min (512 - s.fil.fptr.toNat % 512) data.length ∧
      Done l chain (content.put s.fil.fptr.toNat (data.take n)) s s' ∧
      s'.fil.clust = s.fil.clust ∧ s'.fil.sect = s.fil.sect) E := by
  simp only [writePart, modifyFil, ends_bind, ends_get, ends_modify, ends_pure]
  exact ⟨trivial, ⟨Spares.refl h.coherent, h.put_part hk hsect (by omega) (by omega), rfl, rfl, rfl,
    rfl, handle_dirty _ _, modified_dirty _ _⟩, trivial, trivial⟩

/-- **A sector is brought into the buffer**, or the buffer is given to a sector of which no byte has
been set. -/
theorem seizeGrowing_spec (h : Core l s.vol.window chain content s.fil)
    (hin : content.Within s.fil.obj.objsize.toNat) (hclean : has s.fil.flag faDirty = false)
    (hsector : s.fil.fptr.toNat % 512 = 0) (hk : s.fil.fptr.toNat / 512 < sectorCount l chain) :
    Ends (seizeGrowing (sectorOf l chain (s.fil.fptr.toNat / 512))) s (fun _ s' =>
      Done l chain content s s' ∧ s'.fil.sect = sectorOf l chain (s.fil.fptr.toNat / 512) ∧
      s'.fil.clust = s.fil.clust) (Fails l chain s.vol) := by
  simp only [seizeGrowing, modifyFil, ends_bind, ends_get, ends_onlyIf, ends_modify]
  refine ⟨fun _ => ?_, fun hkeep => ?_⟩
  · refine (load_spec h hk).mono (fun _ s₁ hs₁ => ?_) fun e s' hfail => hfail
    obtain ⟨d, hd, rfl⟩ := hs₁
    exact ⟨⟨Spares.read h.coherent hd, h.loaded hclean _ hd, rfl, rfl, rfl, table_read hd, rfl, rfl⟩,
      trivial, rfl⟩
  · refine ⟨⟨Spares.refl h.coherent, ?_, rfl, rfl, rfl, rfl, rfl, rfl⟩, trivial, trivial⟩
    by_cases hsame : s.fil.sect = sectorOf l chain (s.fil.fptr.toNat / 512)
    · exact h.of_fil rfl rfl rfl hsame.symm rfl
    · -- behind the end of the file
      have hend : s.fil.obj.objsize.toNat ≤ s.fil.fptr.toNat := by
        by_contra hlt
        exact hkeep ⟨hsame, BitVec.lt_def.mpr (Nat.lt_of_not_le hlt)⟩
      refine ⟨h.coherent, h.start, h.linked, h.size, fun hd => ?_, h.apart, fun p hp b hb => ?_⟩
      · rw [show has s.fil.flag faDirty = true from hd] at hclean
        cases hclean
      · have hdisk := (h.data p hp b hb).2 fun hcon => by
          rw [hclean] at hcon
          cases hcon.1
        refine ⟨fun heq => ?_, fun _ => hdisk⟩
        have hq : p / 512 < sectorCount l chain := by omega
        have hindex := sectorOf_inj h.nodes h.nodup hk hq heq
        rw [hin p (by omega)] at hb
        cases hb

/-- What a round has written: so many bytes from the position on, all in one cluster, and if they end
inside a sector the buffer is of that sector. -/
structure WroteSome (l : Layout) (chain : List (BitVec 32)) (content : Content)
    (data : List (BitVec 8)) (s : FileState δ) (n : ℕ) (s' : FileState δ) : Prop where
  pos : 0 < n
  le : n ≤ data.length
  room : s.fil.fptr.toNat + n ≤ 512 * sectorCount l chain
  done : Done l chain (content.put s.fil.fptr.toNat (data.take n)) s s'
  clust : s'.fil.clust = chain.getD (s.fil.fptr.toNat / 512 / l.csize.toNat) 0#32
  same : (s.fil.fptr.toNat + n - 1) / 512 / l.csize.toNat =
    s.fil.fptr.toNat / 512 / l.csize.toNat
  sect : (s.fil.fptr.toNat + n) % 512 ≠ 0 →
    s'.fil.sect = sectorOf l chain ((s.fil.fptr.toNat + n) / 512)

/-- A cluster has room for its sectors. -/
theorem add_le_sectorCount {k cc : ℕ} (hk : k < sectorCount l chain)
    (hcc : k % l.csize.toNat + cc ≤ l.csize.toNat) : k + cc ≤ sectorCount l chain := by
  have hpos := csize_pos l
  have hdvd := Nat.div_add_mod k l.csize.toNat
  have hlt : k / l.csize.toNat < chain.length :=
    Nat.div_lt_of_lt_mul (by rw [Nat.mul_comm]; exact hk)
  have hmul : l.csize.toNat * (k / l.csize.toNat + 1) ≤ l.csize.toNat * chain.length :=
    Nat.mul_le_mul_left _ hlt
  rw [Nat.mul_succ] at hmul
  rw [sectorCount, Nat.mul_comm]
  omega

/-- A round inside a sector. -/
theorem writePart_some (h : Core l s.vol.window chain content s.fil) (hdata : data ≠ [])
    (hk : s.fil.fptr.toNat / 512 < sectorCount l chain)
    (hclust : s.fil.clust = chain.getD (s.fil.fptr.toNat / 512 / l.csize.toNat) 0#32)
    (hsect : s.fil.sect = sectorOf l chain (s.fil.fptr.toNat / 512))
    {E : InnerResult → FileState δ → Prop} :
    Ends (writePart data) s (WroteSome l chain content data s) E := by
  have hlen := List.length_pos_iff.mpr hdata
  refine (writePart_spec h hk hsect).mono (fun n s' hs' => ?_) fun e s' hfail => hfail
  obtain ⟨hn, hdone, hclust', hsect'⟩ := hs'
  refine ⟨by omega, by omega, by omega, hdone, hclust'.trans hclust, ?_, fun hne => ?_⟩
  · rw [show (s.fil.fptr.toNat + n - 1) / 512 = s.fil.fptr.toNat / 512 by omega]
  · rw [hsect', hsect, show (s.fil.fptr.toNat + n) / 512 = s.fil.fptr.toNat / 512 by omega]

/-- What comes after a part that has changed nothing. -/
theorem WroteSome.after {n : ℕ} {s₁ s' : FileState δ} (hdone : Done l chain content s s₁)
    (h : WroteSome l chain content data s₁ n s') : WroteSome l chain content data s n s' := by
  obtain ⟨hpos, hle, hroom, hdone', hclust, hsame, hsect⟩ := h
  rw [hdone.fptr] at hroom hdone' hclust hsame hsect
  exact ⟨hpos, hle, hroom, ⟨hdone.spares.trans_self hdone'.spares, hdone'.core,
    hdone'.moved.trans hdone.moved, hdone'.obj.trans hdone.obj, hdone'.fptr.trans hdone.fptr,
    hdone'.table.trans hdone.table, hdone'.handle.trans hdone.handle,
    hdone'.modified.trans hdone.modified⟩, hclust, hsame, hsect⟩

/-- A round on a sector boundary, once the cluster is right. -/
theorem writeSector_spec (h : Core l s.vol.window chain content s.fil)
    (hin : content.Within s.fil.obj.objsize.toNat) (hdata : data ≠ [])
    (hsector : s.fil.fptr.toNat % 512 = 0) (hk : s.fil.fptr.toNat / 512 < sectorCount l chain)
    (hclust : s.fil.clust = chain.getD (s.fil.fptr.toNat / 512 / l.csize.toNat) 0#32) :
    Ends (writeSector l data) s (WroteSome l chain content data s) (Fails l chain s.vol) := by
  unfold writeSector
  refine (flush_spec h).bind (fun _ s₁ hs₁ => ?_) fun e s' hfail => hfail
  obtain ⟨hdone, hfil⟩ := hs₁
  have hclean : has s₁.fil.flag faDirty = false := by
    rw [hfil]
    exact has_and_not_self _ _
  have hclust₁ : s₁.fil.clust = chain.getD (s₁.fil.fptr.toNat / 512 / l.csize.toNat) 0#32 := by
    rw [hfil]
    exact hclust
  rw [← hdone.fptr] at hsector hk
  rw [← hdone.obj] at hin
  rw [ends_bind, ends_get]
  refine (sectorHere_spec hdone.core hk hclust₁).bind (fun sect s₂ hs₂ => ?_)
    fun e s' (hfail : Fails l chain s.vol e s') => hfail
  obtain ⟨rfl, rfl⟩ := hs₂
  split
  · rename_i hwhole
    obtain ⟨hcc, hinside, hbytes⟩ := sectorsAhead_spec l s₂.fil.fptr hwhole
    generalize sectorsAhead l (csect l s₂.fil.fptr) data.length = cc at hcc hinside hbytes
    have hroom := add_le_sectorCount hk hinside
    refine (writeDirect_spec hdone.core hclean hinside hroom hbytes hcc).mono (fun n s₃ hs₃ => ?_)
      fun e s' hfail => hfail.after hdone.spares (Grows.refl _ _)
    obtain ⟨rfl, hdone', hclust'⟩ := hs₃
    rw [show 512 * (s₂.fil.fptr.toNat / 512) = s₂.fil.fptr.toNat by omega] at hdone'
    refine WroteSome.after hdone ⟨by omega, hbytes, by omega, hdone', hclust'.trans hclust₁, ?_,
      fun hne => absurd hne (by omega)⟩
    rw [show (s₂.fil.fptr.toNat + 512 * cc - 1) / 512 = s₂.fil.fptr.toNat / 512 + cc - 1 by omega,
      div_cluster_add hcc hinside]
  · refine (seizeGrowing_spec hdone.core hin hclean hsector hk).bind (fun _ s₃ hs₃ => ?_)
      fun e s' hfail => hfail.after hdone.spares (Grows.refl _ _)
    obtain ⟨hdone', hsect, hclust'⟩ := hs₃
    rw [← hdone'.fptr] at hk hsect hclust₁
    refine (writePart_some hdone'.core hdata hk (hclust'.trans hclust₁) hsect).mono
      (fun n s' hs' => (hs'.after hdone').after hdone) fun e s' hfail => hfail

/-- What a round of the loop of `f_write` does: it writes to a chain that may have been stretched for
it, or it finds the volume full. -/
def Round (l : Layout) (chain : List (BitVec 32)) (content : Content) (data : List (BitVec 8))
    (s : FileState δ) (r : Option ℕ) (s' : FileState δ) : Prop :=
  match r with
  | some n => ∃ chain' s₁, Grown l content chain chain' s s₁ ∧
      chain'.length ≤ max chain.length (s.fil.fptr.toNat / 512 / l.csize.toNat + 1) ∧
      WroteSome l chain' content data s₁ n s'
  | none => Done l chain content s s' ∧ s'.fil = s.fil ∧ Full l s'.vol ∧
      512 * sectorCount l chain ≤ s.fil.fptr.toNat

theorem writeStep_spec (h : Core l s.vol.window chain content s.fil)
    (hpos : Positioned l chain s.fil) (hin : content.Within s.fil.obj.objsize.toNat)
    (hdata : data ≠ []) :
    Ends (writeStep l data) s (Round l chain content data s) (Fails l chain s.vol) := by
  have hle := hpos.fptr_le
  have hsize := h.size
  have hself : Grown l content chain chain s s := (Done.refl h).grown
  simp only [writeStep, ends_bind, ends_get]
  split
  · rename_i hsector
    -- what comes after the cluster is reached
    have hrest : ∀ room s₁, Reached l content chain s (s.fil.fptr.toNat / 512 / l.csize.toNat) room s₁ →
        Ends (if room then some <$> writeSector l data else pure none) s₁
          (Round l chain content data s) (Fails l chain s.vol) := by
      intro room s₁ hroom
      cases room with
      | false =>
        obtain ⟨hdone, hfil, hfull, hend⟩ := hroom
        refine ⟨hdone, hfil, hfull, ?_⟩
        have hfloor := Nat.div_mul_le_self (s.fil.fptr.toNat / 512) l.csize.toNat
        rw [hend] at hfloor
        rw [sectorCount]
        omega
      | true =>
        obtain ⟨chain', hgrown, hi, hlen, hclust⟩ := hroom
        have hk : s₁.fil.fptr.toNat / 512 < sectorCount l chain' := by
          rw [hgrown.fptr, sectorCount]
          exact (Nat.div_lt_iff_lt_mul (csize_pos l)).mp hi
        rw [← hgrown.fptr] at hsector hclust
        rw [if_pos rfl, ends_map]
        refine (writeSector_spec hgrown.core (by rw [hgrown.objsize]; exact hin) hdata hsector hk
          hclust).mono (fun n s' hs' => ⟨chain', s₁, hgrown, hlen, hs'⟩)
          fun e s' hfail => hfail.after hgrown.spares hgrown.grows
    split
    · rename_i hboundary
      exact (writeCluster_spec h hpos hin hsector ((csect_eq_zero_iff l _).mp hboundary)).bind hrest
        fun e s' hfail => hfail
    · -- inside a cluster
      rename_i hboundary
      obtain ⟨hn, hsame⟩ := div_inside hsector (csize_pos l) (mt (csect_eq_zero_iff l _).mpr hboundary)
      rw [ends_bind, ends_pure]
      refine hrest true s ⟨chain, hself, ?_, Nat.le_max_left _ _, by rw [hpos.clust hn, hsame]⟩
      rw [← hsame]
      exact lastIndex_lt hn (hpos.fptr_le.trans hsize)
  · rename_i hinside
    rw [ends_map]
    refine (writePart_some h hdata (by omega) ?_ (hpos.sect hinside)).mono
      (fun n s' hs' => ⟨chain, s, hself, Nat.le_max_left _ _, hs'⟩) fun e s' hfail => hfail
    rw [hpos.clust (by omega), show (s.fil.fptr.toNat - 1) / 512 = s.fil.fptr.toNat / 512 by omega]

/-- **What so many bytes have done to a file**: they are in it from the old position on, it has grown
as far as it had to, and the others are spared. -/
structure Wrote (l : Layout) (content : Content) (data : List (BitVec 8))
    (chain chain' : List (BitVec 32)) (n : ℕ) (s s' : FileState δ) : Prop where
  le : n ≤ data.length
  grows : Grows (s.vol.table l) chain chain'
  accounts : Accounts l (s.vol.table l) (s'.vol.table l) chain chain'
  spares : Spares l chain s.vol s'.vol
  core : Core l s'.vol.window chain' (content.put s.fil.fptr.toNat (data.take n)) s'.fil
  positioned : Positioned l chain' s'.fil
  objsize : s'.fil.obj.objsize.toNat = max s.fil.obj.objsize.toNat (s.fil.fptr.toNat + n)
  fptr : s'.fil.fptr.toNat = s.fil.fptr.toNat + n
  moved : s'.moved = s.moved ++ data.take n
  handle : s'.fil.handle = s.fil.handle
  tight : Tight l chain s.fil.obj.objsize.toNat → Tight l chain' s'.fil.obj.objsize.toNat

theorem Wrote.zero {s' : FileState δ} (h : Done l chain content s s')
    (hpos : Positioned l chain s'.fil) : Wrote l content data chain chain 0 s s' where
  le := Nat.zero_le _
  grows := Grows.refl _ _
  accounts := Accounts.of_eq h.table
  spares := h.spares
  core := by
    rw [List.take_zero, Content.put_nil]
    exact h.core
  positioned := hpos
  objsize := by
    have hle := hpos.fptr_le
    rw [h.obj, h.fptr] at hle
    rw [h.obj]
    omega
  fptr := by rw [h.fptr, Nat.add_zero]
  moved := by rw [h.moved, List.take_zero, List.append_nil]
  handle := h.handle
  tight htight := by
    rw [h.obj]
    exact htight

/-- Bytes after bytes. -/
theorem Wrote.trans {chain' chain'' : List (BitVec 32)} {n m : ℕ} {s' s'' : FileState δ}
    (h : Wrote l content data chain chain' n s s')
    (h' : Wrote l (content.put s.fil.fptr.toNat (data.take n)) (data.drop n) chain' chain'' m s' s'') :
    Wrote l content data chain chain'' (n + m) s s'' where
  le := by
    have hn := h.le
    have hm := h'.le
    rw [List.length_drop] at hm
    omega
  grows := h.grows.trans h'.grows h.spares h'.core.nodes
  accounts := h.accounts.trans h'.accounts h.grows
  spares := h.spares.trans h'.spares h.grows
  core := by
    have hcore := h'.core
    have hlen : (data.take n).length = n := by rw [List.length_take, Nat.min_eq_left h.le]
    rw [h.fptr, show s.fil.fptr.toNat + n = s.fil.fptr.toNat + (data.take n).length by rw [hlen],
      Content.put_append, ← List.take_add] at hcore
    exact hcore
  positioned := h'.positioned
  objsize := by
    rw [h'.objsize, h.objsize, h.fptr]
    omega
  fptr := by
    rw [h'.fptr, h.fptr]
    omega
  moved := by rw [h'.moved, h.moved, List.append_assoc, ← List.take_add]
  handle := h'.handle.trans h.handle
  tight htight := h'.tight (h.tight htight)

/-- The position and the size after a round. -/
def advanced (f : OpenFil) (n : ℕ) : OpenFil :=
  { f with
    fptr := f.fptr + BitVec.ofNat 32 n
    obj := { f.obj with
      objsize := if f.fptr + BitVec.ofNat 32 n > f.obj.objsize then f.fptr + BitVec.ofNat 32 n
        else f.obj.objsize } }

theorem toNat_objsize_advanced {f : OpenFil} {n : ℕ} (h : f.fptr.toNat + n < 2 ^ 32) :
    (advanced f n).obj.objsize.toNat = max f.obj.objsize.toNat (f.fptr.toNat + n) := by
  have hnat := toNat_advance h
  simp only [advanced]
  split
  · rename_i hgt
    rw [gt_iff_lt, BitVec.lt_def, hnat] at hgt
    omega
  · rename_i hgt
    rw [gt_iff_lt, BitVec.lt_def, hnat] at hgt
    omega

/-- A round that has written something. -/
theorem WroteSome.wrote {chain' : List (BitVec 32)} {n : ℕ} {s₁ s₂ : FileState δ}
    (hgrown : Grown l content chain chain' s s₁)
    (hlen : chain'.length ≤ max chain.length (s.fil.fptr.toNat / 512 / l.csize.toNat + 1))
    (h : WroteSome l chain' content data s₁ n s₂) (hmost : s.fil.fptr.toNat + data.length < 2 ^ 32) :
    Wrote l content data chain chain' n s
      { s₂ with fil := advanced s₂.fil n, moved := s₂.moved ++ data.take n } := by
  obtain ⟨hn, hle, hroom, hdone, hclust, hsame, hsect⟩ := h
  have hfptr := hdone.fptr.trans hgrown.fptr
  have hobj : s₂.fil.obj.objsize = s.fil.obj.objsize := by rw [hdone.obj, hgrown.objsize]
  have hadv : s₂.fil.fptr.toNat + n < 2 ^ 32 := by
    rw [hfptr]
    omega
  have hsize := toNat_objsize_advanced hadv
  have hnat : (advanced s₂.fil n).fptr.toNat = s₂.fil.fptr.toNat + n := toNat_advance hadv
  have hcap := hdone.core.size
  rw [← hdone.fptr] at hroom hclust hsame hsect
  refine ⟨hle, hgrown.grows, hgrown.accounts.trans (Accounts.of_eq hdone.table) hgrown.grows,
    hgrown.spares.trans hdone.spares hgrown.grows, ?_, ?_, ?_, ?_, ?_,
    hdone.handle.trans hgrown.handle, fun htight => ?_⟩
  · have hcore := hdone.core
    rw [hgrown.fptr] at hcore
    exact hcore.resized rfl (by rw [hsize]; omega) rfl rfl rfl
  · exact positioned_advance hnat (by rw [hsize]; omega) hclust hsame hsect
  · rw [hsize, hobj, hfptr]
  · rw [hnat, hfptr]
  · simp only
    rw [hdone.moved, hgrown.moved]
  · -- the cluster of the position has got at least one byte
    simp only [hsize, hobj, hfptr]
    refine htight.of_length hlen ?_
    have hfloor := Nat.div_mul_le_self (s.fil.fptr.toNat / 512) l.csize.toNat
    rw [← Nat.mul_assoc]
    omega

/-- What the whole loop of `f_write` does. -/
theorem writeLoop_spec {fuel : ℕ} (hfuel : data.length ≤ fuel)
    (h : Core l s.vol.window chain content s.fil) (hpos : Positioned l chain s.fil)
    (hin : content.Within s.fil.obj.objsize.toNat)
    (hmost : s.fil.fptr.toNat + data.length < 2 ^ 32) :
    Ends (writeLoop l fuel data) s (fun _ s' => ∃ chain' n, Wrote l content data chain chain' n s s' ∧
      (n < data.length → Full l s'.vol ∧ s'.fil.obj.objsize.toNat ≤ s'.fil.fptr.toNat))
      (Fails l chain s.vol) := by
  induction fuel generalizing data s chain content with
  | zero =>
    obtain rfl : data = [] := List.length_eq_zero_iff.mp (Nat.le_zero.mp hfuel)
    exact ⟨chain, 0, Wrote.zero (Done.refl h) hpos, fun hlt => absurd hlt (Nat.not_lt_zero _)⟩
  | succ fuel ih =>
    rw [writeLoop]
    split
    · rename_i hnil
      subst hnil
      exact ⟨chain, 0, Wrote.zero (Done.refl h) hpos, fun hlt => absurd hlt (Nat.not_lt_zero _)⟩
    · rename_i hne
      refine (writeStep_spec h hpos hin hne).bind (fun r s₁ hs₁ => ?_) fun e s' hfail => hfail
      cases r with
      | none =>
        obtain ⟨hdone, hfil, hfull, hroom⟩ := hs₁
        refine ⟨chain, 0, Wrote.zero hdone (hfil ▸ hpos), fun _ => ⟨hfull, ?_⟩⟩
        rw [hfil]
        exact h.size.trans hroom
      | some n =>
        obtain ⟨chain', s₀, hgrown, hlong, hsome⟩ := hs₁
        have hwrote := hsome.wrote hgrown hlong hmost
        have hlen : (data.take n).length = n := by rw [List.length_take, Nat.min_eq_left hsome.le]
        have hpos := hsome.pos
        have hle := hsome.le
        simp only [ends_bind, ends_modify]
        have hin' := hin.put s.fil.fptr.toNat (data.take n)
        have hfuel' : (data.drop n).length ≤ fuel := by
          rw [List.length_drop]
          omega
        rw [hlen, ← hwrote.objsize] at hin'
        refine (ih hfuel' hwrote.core hwrote.positioned hin' ?_).mono
          (fun _ s' hs' => ?_) fun e s' hfail => hfail.after hwrote.spares hwrote.grows
        · rw [hwrote.fptr, List.length_drop]
          omega
        · obtain ⟨chain'', m, hrest, hfull⟩ := hs'
          refine ⟨chain'', n + m, hwrote.trans hrest, fun hlt => hfull ?_⟩
          rw [List.length_drop]
          omega

theorem Wrote.of_take {chain' : List (BitVec 32)} {n m : ℕ} {s' : FileState δ}
    (h : Wrote l content (data.take m) chain chain' n s s') :
    Wrote l content data chain chain' n s s' := by
  obtain ⟨hle, hgrows, haccounts, hspares, hcore, hpos, hobj, hfptr, hmoved, hhandle, htight⟩ := h
  rw [List.length_take] at hle
  rw [List.take_take, Nat.min_eq_left (by omega)] at hcore hmoved
  exact ⟨by omega, hgrows, haccounts, hspares, hcore, hpos, hobj, hfptr, hmoved, hhandle, htight⟩

/-- **What `f_write` does** behind its checks: it takes the bytes up to the largest size of a file, or
fewer if the volume is full, or it fails. -/
theorem writeBody_spec (h : Core l s.vol.window chain content s.fil)
    (hpos : Positioned l chain s.fil) (hin : content.Within s.fil.obj.objsize.toNat)
    (hlen : data.length < 2 ^ 32) :
    Ends (writeBody l data) s (fun _ s' => ∃ chain' n, Wrote l content data chain chain' n s s' ∧
      s'.fil.modified = true ∧ n ≤ 2 ^ 32 - 1 - s.fil.fptr.toNat ∧
      (n < min data.length (2 ^ 32 - 1 - s.fil.fptr.toNat) →
        Full l s'.vol ∧ s'.fil.obj.objsize.toNat ≤ s'.fil.fptr.toNat))
      (Fails l chain s.vol) := by
  have hlt := s.fil.fptr.isLt
  have hmin : (if s.fil.fptr + BitVec.ofNat 32 data.length < s.fil.fptr then
      0xFFFFFFFF#32 - s.fil.fptr else BitVec.ofNat 32 data.length).toNat =
      min data.length (2 ^ 32 - 1 - s.fil.fptr.toNat) := by
    have hnat : (BitVec.ofNat 32 data.length).toNat = data.length := by
      rw [BitVec.toNat_ofNat, Nat.mod_eq_of_lt hlen]
    have hsub : (0xFFFFFFFF#32 - s.fil.fptr).toNat = 2 ^ 32 - 1 - s.fil.fptr.toNat :=
      BitVec.toNat_sub_of_le (BitVec.le_def.mpr (by rw [BitVec.toNat_ofNat]; omega))
    simp only [BitVec.lt_def, BitVec.toNat_add, hnat]
    split
    · rw [hsub]
      omega
    · rw [hnat]
      omega
  simp only [writeBody, ends_bind, ends_get, hmin, modifyFil, ends_modify]
  generalize hm : min data.length (2 ^ 32 - 1 - s.fil.fptr.toNat) = m
  have htake : (data.take m).length = m := by
    rw [List.length_take]
    omega
  refine (writeLoop_spec (Nat.le_of_eq htake) h hpos hin (by rw [htake]; omega)).mono
    (fun _ s' hs' => ?_) fun e s' hfail => hfail
  obtain ⟨chain', n, hwrote, hfull⟩ := hs'
  rw [htake] at hfull
  have hle := hwrote.le
  rw [htake] at hle
  obtain ⟨hn, hgrows, haccounts, hspares, hcore, hpos', hobj, hfptr, hmoved, hhandle, htight⟩ :=
    hwrote.of_take
  exact ⟨chain', n, ⟨hn, hgrows, haccounts, hspares,
    hcore.of_fil rfl rfl (has_or (by decide) _) rfl rfl, ⟨hpos'.fptr_le, hpos'.clust, hpos'.sect⟩, hobj,
    hfptr, hmoved, (handle_marked _).trans hhandle, htight⟩, has_or_faModified _, by omega, hfull⟩

end Writing

end Stream

end FatFs

end BareMetal
