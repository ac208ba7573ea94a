import BareMetal.FatFs.Seeking

/-!
# Truncating

`f_truncate` removes the clusters behind the position, all of them if the position is the beginning, and
writes the buffer back. The order matters: the buffer may be of a sector that has been freed a moment
before, and is written to it all the same. It is still nobody's
(`BareMetal.FatFs.Stream.truncateBody_spec`).
-/

namespace BareMetal

namespace FatFs

variable {δ : Type} [DiskIo δ]

/-- A file is cut off. -/
def Content.cut (content : Content) (n : ℕ) : Content := fun p => if p < n then content p else none

theorem Content.Within.cut {content : Content} {n : ℕ} (h : content.Within n) :
    content.cut n = content := by
  funext p
  unfold Content.cut
  split
  · rfl
  · rename_i hge
    exact (h p (Nat.le_of_not_lt hge)).symm

theorem Content.within_cut (content : Content) (n : ℕ) : (content.cut n).Within n := by
  intro p hp
  rw [Content.cut, if_neg (Nat.not_lt.mpr hp)]

section Cut

variable {l : Layout} {w : Window δ} {chain : List (BitVec 32)} {content : Content} {f : OpenFil}

theorem Held.of_fil {f' : OpenFil} (h : Held l w chain content f)
    (hflag : has f'.flag faDirty = has f.flag faDirty) (hsect : f'.sect = f.sect)
    (hbuf : f'.buf = f.buf) : Held l w chain content f' :=
  ⟨h.coherent, h.nodes, h.nodup, by rw [hflag, hsect]; exact h.dirty, h.apart,
    by rw [hflag, hsect, hbuf]; exact h.data⟩

/-- **The first clusters of a chain hold the first bytes**, once the buffer has been written back. -/
theorem Held.front {front tail : List (BitVec 32)} (h : Held l w (front ++ tail) content f)
    (hclean : has f.flag faDirty = false) (hstart : f.obj.sclust = front.head?.getD 0#32)
    (hlinked : ∀ a ∈ front.head?, Linked (fatEntry l w.view) l.Cluster l.End a front)
    (hsize : f.obj.objsize.toNat ≤ 512 * sectorCount l front) (n : ℕ) :
    Core l w front (content.cut n) f := by
  have hcount : sectorCount l front ≤ sectorCount l (front ++ tail) :=
    Nat.mul_le_mul_right _ (by simp)
  refine ⟨h.coherent, hstart, hlinked, hsize, fun hd => ?_, fun k hk => ?_, fun p hp b hb => ?_⟩
  · rw [hclean] at hd
    cases hd
  · rw [← sectorOf_append hk tail]
    exact h.apart k (by omega)
  · have hq : p / 512 < sectorCount l front := by omega
    have hold : content p = some b := by
      unfold Content.cut at hb
      split at hb
      · exact hb
      · cases hb
    rw [← sectorOf_append hq tail]
    exact h.data p (by omega) b hold

/-- The first clusters of a file that has been cut off. -/
theorem Positioned.front {front tail : List (BitVec 32)} {f' : OpenFil}
    (h : Positioned l (front ++ tail) f) (hroom : f.fptr.toNat ≤ 512 * sectorCount l front)
    (hfptr : f'.fptr = f.fptr) (hobj : f'.obj.objsize = f.fptr) (hclust : f'.clust = f.clust)
    (hsect : f'.sect = f.sect) : Positioned l front f' := by
  refine ⟨by rw [hfptr, hobj], fun hpos => ?_, fun hne => ?_⟩
  · rw [hfptr] at hpos ⊢
    have hi : (f.fptr.toNat - 1) / 512 / l.csize.toNat < front.length :=
      Nat.div_lt_of_lt_mul (by
        rw [Nat.mul_comm]
        unfold sectorCount at hroom
        omega)
    rw [hclust, h.clust hpos, List.getD_append _ _ _ _ hi]
  · rw [hfptr] at hne ⊢
    rw [hsect, h.sect hne, sectorOf_append (show _ < sectorCount l front by omega)]

end Cut

namespace Stream

section Truncating

variable {l : Layout} {chain : List (BitVec 32)} {content : Content} {s : FileState δ}

/-- What the removal of clusters leaves of a file: the first clusters are still linked, the others are
free, and the bytes are where they were. -/
structure Cut (l : Layout) (content : Content) (chain front : List (BitVec 32)) (s s' : FileState δ) :
    Prop where
  spares : Spares l chain s.vol s'.vol
  held : Held l s'.vol.window chain content s'.fil
  linked : ∀ a ∈ front.head?, Linked (s'.vol.table l) l.Cluster l.End a front
  freed : ∀ c ∈ chain, c ∉ front → s'.vol.table l c = 0#32
  others : ∀ c, l.Cluster c → c ∉ chain → s'.vol.table l c = s.vol.table l c
  moved : s'.moved = s.moved

/-- A call of `remove_chain` on behalf of a file. -/
theorem dropChain_spec {front rest : List (BitVec 32)} {clst : BitVec 32}
    (h : Core l s.vol.window (front ++ clst :: rest) content s.fil)
    {E : InnerResult → FileState δ → Prop} :
    Ends (dropChain l clst (front.getLast?.getD 0#32)) s (fun r s' =>
      r = .ok ∧ s'.fil = s.fil ∧ Cut l content (front ++ clst :: rest) front s s' ∨
      r = .diskErr ∧ Fails l (front ++ clst :: rest) s.vol .diskErr s') E := by
  obtain ⟨first, hfirst⟩ : ∃ a, a ∈ (front ++ clst :: rest).head? :=
    ⟨_, List.head?_eq_some_head (by simp)⟩
  have hchain := h.linked first hfirst
  have hspares := Spares.remove h.coherent hchain
  obtain ⟨hkept, hout, hothers, hres⟩ := removeChain_cut h.coherent hchain
  simp only [dropChain, ends_bind, ends_get, ends_set, ends_pure]
  rcases hres with ⟨hok, hfront, hfreed, -⟩ | ⟨herr, hfail⟩
  · refine Or.inl ⟨hok, trivial, hspares, ⟨hkept.coherent, h.nodes, h.nodup, h.dirty,
      apart_of_place h.nodes h.apart hkept.place, fun p hp b hb => ?_⟩, hfront, fun c hc hnot => ?_,
      hothers, rfl⟩
    · have hq : p / 512 < sectorCount l (front ++ clst :: rest) := by omega
      rw [hout _ (tracked_of_inData l (inData_sectorOf h.nodes hq)) fun j hj =>
        (ne_sectorOf_of_fat h.nodes hj hq).symm]
      exact h.data p hp b hb
    · exact hfreed c ((List.mem_append.mp hc).resolve_left hnot)
  · exact Or.inr ⟨herr, hspares, fun hgood => hfail hgood.works, by decide⟩

/-- The clusters up to that of the position are those the bytes in front of it need. -/
theorem split_at_position {f : OpenFil} (h : Core l s.vol.window chain content f)
    (hpos : Positioned l chain f) (hn : 0 < f.fptr.toNat) :
    ∃ xs ys, chain = xs ++ f.clust :: ys ∧ f.fptr.toNat ≤ 512 * sectorCount l (xs ++ [f.clust]) ∧
      Tight l (xs ++ [f.clust]) f.fptr.toNat := by
  have hi := lastIndex_lt hn (hpos.fptr_le.trans h.size)
  have hlen := List.length_take_of_le (Nat.le_of_lt hi)
  refine ⟨chain.take ((f.fptr.toNat - 1) / 512 / l.csize.toNat),
    chain.drop ((f.fptr.toNat - 1) / 512 / l.csize.toNat + 1), ?_, ?_, ?_⟩
  · rw [hpos.clust hn, List.getD_eq_getElem _ _ hi, ← List.drop_eq_getElem_cons, List.take_append_drop]
  · have hdiv := Nat.lt_div_mul_add (a := (f.fptr.toNat - 1) / 512) (csize_pos l)
    rw [sectorCount, List.length_append, List.length_singleton, hlen, Nat.add_mul, Nat.one_mul]
    omega
  · have hfloor := Nat.div_mul_le_self ((f.fptr.toNat - 1) / 512) l.csize.toNat
    rw [Tight, List.length_append, List.length_singleton, hlen, Nat.add_mul, Nat.one_mul, ← Nat.mul_assoc]
    omega

/-- **The clusters behind the position are removed**, or the disk fails. -/
theorem cutBehind_spec (h : Core l s.vol.window chain content s.fil)
    (hpos : Positioned l chain s.fil) (hlt : s.fil.fptr < s.fil.obj.objsize)
    {E : InnerResult → FileState δ → Prop} :
    Ends (cutBehind l) s (fun r s' =>
      r = .ok ∧ (∃ front tail, chain = front ++ tail ∧
        s.fil.fptr.toNat ≤ 512 * sectorCount l front ∧ Tight l front s.fil.fptr.toNat ∧
        s'.fil = { s.fil with obj := { s.fil.obj with sclust := front.head?.getD 0#32 } } ∧
        Cut l content chain front s s') ∨
      r = .diskErr ∧ Fails l chain s.vol .diskErr s') E := by
  have hsize := h.size
  have hbehind := BitVec.lt_def.mp hlt
  simp only [cutBehind, ends_bind, ends_get]
  split
  · -- the whole chain
    rename_i hzero
    cases hchain : chain with
    | nil =>
      rw [hchain] at hsize
      simp only [sectorCount, List.length_nil, Nat.zero_mul, Nat.mul_zero] at hsize
      omega
    | cons a rest =>
      subst hchain
      have hstart : s.fil.obj.sclust = a := h.start
      have hwhole : Core l s.vol.window ([] ++ a :: rest) content s.fil := h
      rw [hstart]
      refine (dropChain_spec hwhole).bind (fun r s₁ hs₁ => ?_) fun e s' (hfail : E e s') => hfail
      simp only [modifyFil, ends_bind, ends_modify, ends_pure]
      rcases hs₁ with ⟨hok, hfil, hcut⟩ | ⟨herr, hfail⟩
      · refine Or.inl ⟨hok, [], a :: rest, rfl, ?_, ?_, ?_, hcut.spares, hcut.held.of_fil rfl rfl rfl,
          hcut.linked, hcut.freed, hcut.others, hcut.moved⟩
        · rw [hzero]
          exact Nat.zero_le _
        · exact tight_nil l _
        · rw [hfil]
          rfl
      · exact Or.inr ⟨herr, hfail.spares, hfail.bad, hfail.ne_ok⟩
  · rename_i hne
    have hn : 0 < s.fil.fptr.toNat := Nat.pos_of_ne_zero fun hcon => hne (BitVec.eq_of_toNat_eq hcon)
    obtain ⟨xs, ys, hchain, hroom, htight⟩ := split_at_position h hpos hn
    subst hchain
    have hclst : l.Cluster s.fil.clust := h.nodes s.fil.clust (by simp)
    obtain ⟨first, hfirst⟩ : ∃ a, a ∈ (xs ++ s.fil.clust :: ys).head? :=
      ⟨_, List.head?_eq_some_head (by simp)⟩
    obtain ⟨hnext, hend⟩ := (h.linked first hfirst).next_eq
    refine (readFat_spec h hclst).bind (fun ncl s₁ hs₁ => ?_) fun e s' (hfail : E e s') => hfail
    obtain ⟨hdone, hfil, hres⟩ := hs₁
    rcases hres with rfl | ⟨rfl, hbad⟩
    · rw [if_neg (fatEntry_ne_diskErr l _ _)]
      cases ys with
      | nil =>
        -- the position is in the last cluster
        have hlast : l.End (s.vol.table l s.fil.clust) := hend rfl
        rw [if_neg (ne_of_next (Or.inr hlast) (by decide)), if_neg (BitVec.not_lt.mpr hlast)]
        refine Or.inl ⟨rfl, xs ++ [s.fil.clust], [], by simp, hroom, htight, ?_,
          hdone.spares, hdone.core.held, hdone.core.linked, fun c hc hnot => absurd hc hnot,
          fun c _ _ => congrFun hdone.table c, hdone.moved⟩
        rw [hfil, ← h.start]
      | cons b ys =>
        have hb : s.vol.table l s.fil.clust = b := hnext b rfl
        have hcb : l.Cluster b := h.nodes b (by simp)
        have hsplit : xs ++ s.fil.clust :: b :: ys = (xs ++ [s.fil.clust]) ++ b :: ys := by simp
        have hcore := hdone.core
        rw [hsplit] at hcore
        have hlastc : (xs ++ [s.fil.clust]).getLast?.getD 0#32 = s.fil.clust := by simp
        have hdrop := dropChain_spec (E := E) hcore
        rw [hlastc] at hdrop
        rw [hb, if_neg (ne_of_next (Or.inl hcb) (by decide)), if_pos hcb.2]
        refine hdrop.mono (fun r s₂ hs₂ => ?_) fun e s' hfail => hfail
        rw [← hsplit] at hs₂
        rcases hs₂ with ⟨hok, hfil', hcut⟩ | ⟨herr, hfail⟩
        · refine Or.inl ⟨hok, xs ++ [s.fil.clust], b :: ys, hsplit, hroom, htight, ?_,
            hdone.spares.trans_self hcut.spares, hcut.held, hcut.linked, hcut.freed, fun c hc hnot => ?_,
            hcut.moved.trans hdone.moved⟩
          · have hhead : (xs ++ [s.fil.clust]).head?.getD 0#32 = s.fil.obj.sclust := by
              rw [h.start, hsplit, List.head?_append_of_ne_nil (xs ++ [s.fil.clust]) (by simp)]
            rw [hfil', hfil, hhead]
          · rw [hcut.others c hc hnot, hdone.table]
        · exact Or.inr ⟨herr, hfail.after hdone.spares (Grows.refl _ _)⟩
    · rw [if_pos rfl]
      exact Or.inr ⟨rfl, hdone.spares, hbad, by decide⟩

/-- **What `f_truncate` does to a file**: it ends at the position, with the bytes before it, and the
clusters it no longer needs are free. -/
structure Truncated (l : Layout) (content : Content) (chain chain' : List (BitVec 32))
    (s s' : FileState δ) : Prop where
  grows : Grows (s.vol.table l) chain chain'
  accounts : Accounts l (s.vol.table l) (s'.vol.table l) chain chain'
  spares : Spares l chain s.vol s'.vol
  core : Core l s'.vol.window chain' (content.cut s.fil.fptr.toNat) s'.fil
  positioned : Positioned l chain' s'.fil
  objsize : s'.fil.obj.objsize = s.fil.fptr
  fptr : s'.fil.fptr = s.fil.fptr
  moved : s'.moved = s.moved
  tight : Tight l chain s.fil.obj.objsize.toNat → Tight l chain' s'.fil.obj.objsize.toNat
  handle : s'.fil.handle = s.fil.handle
  unmarked : s'.fil.modified = false → s.fil.modified = false ∧
    s'.fil.obj.sclust = s.fil.obj.sclust ∧ s'.fil.obj.objsize = s.fil.obj.objsize

/-- **What `f_truncate` does** behind its checks: the file is truncated, or the call fails. -/
theorem truncateBody_spec (h : Core l s.vol.window chain content s.fil)
    (hpos : Positioned l chain s.fil) (hin : content.Within s.fil.obj.objsize.toNat) :
    Ends (truncateBody l) s (fun _ s' => ∃ chain', Truncated l content chain chain' s s')
      (Fails l chain s.vol) := by
  simp only [truncateBody, ends_bind, ends_get, ends_onlyIf]
  refine ⟨fun hlt => ?_, fun hge => ?_⟩
  · refine (cutBehind_spec h hpos hlt).mono (fun r s₁ hs₁ => ?_)
      fun e s' (hfail : Fails l chain s.vol e s') => hfail
    simp only [modifyFil, ends_modify]
    rcases hs₁ with ⟨rfl, front, tail, rfl, hroom, htight, hfil, hcut⟩ | ⟨rfl, hfail⟩
    · rw [if_pos rfl]
      have hheld : Held l s₁.vol.window (front ++ tail) content { s₁.fil with
          obj := { s₁.fil.obj with objsize := s₁.fil.fptr }
          flag := s₁.fil.flag ||| faModified } := hcut.held.of_fil (has_or (by decide) _) rfl rfl
      refine (flush_held hheld).mono (fun _ s₂ hs₂ => ?_)
        fun e s' hfail => hfail.1 ▸ (hfail.2.fails.after hcut.spares (Grows.refl _ _))
      obtain ⟨hspares, hheld₂, htable, hfil₂, hmoved⟩ := hs₂
      have hclean : has s₂.fil.flag faDirty = false := by
        rw [hfil₂]
        exact has_and_not_self _ _
      refine ⟨front, fun c hc => Or.inl (List.mem_append_left _ hc), fun c hc hnot => ?_,
        hcut.spares.trans_self hspares, hheld₂.front hclean ?_ ?_ ?_ _, ?_, ?_, ?_,
        hmoved.trans hcut.moved, fun _ => ?_, ?_, fun hmod => ?_⟩
      · rw [htable]
        by_cases hmem : c ∈ front ++ tail
        · simp [hcut.freed c hmem hnot, hmem]
        · rw [hcut.others c hc hmem]
          exact ⟨fun hused => ⟨hused, hmem⟩, fun hused => hused.1⟩
      · rw [hfil₂, hfil]
      · intro a ha
        exact (hcut.linked a ha).congr fun c _ => congrFun htable c
      · rw [hfil₂, hfil]
        exact hroom
      · exact hpos.front hroom (by rw [hfil₂, hfil]) (by rw [hfil₂, hfil]) (by rw [hfil₂, hfil])
          (by rw [hfil₂, hfil])
      · rw [hfil₂, hfil]
      · rw [hfil₂, hfil]
      · rw [hfil₂, hfil]
        exact htight
      · rw [hfil₂, handle_clean, hfil]
        exact handle_marked _
      · rw [hfil₂, modified_clean, OpenFil.modified, has_or_faModified] at hmod
        cases hmod
    · rw [if_neg (by decide)]
      exact ⟨hfail.spares, hfail.bad, hfail.ne_ok⟩
  · -- the position is at the end
    have heq : s.fil.obj.objsize = s.fil.fptr := by
      refine BitVec.eq_of_toNat_eq (Nat.le_antisymm ?_ hpos.fptr_le)
      rw [BitVec.lt_def] at hge
      exact Nat.le_of_not_lt hge
    refine ⟨chain, Grows.refl _ _, Accounts.of_eq rfl, Spares.refl h.coherent, ?_, hpos, heq, rfl, rfl, id,
      rfl, fun hmod => ⟨hmod, rfl, rfl⟩⟩
    rw [← heq, hin.cut]
    exact h

end Truncating

end Stream

end FatFs

end BareMetal
