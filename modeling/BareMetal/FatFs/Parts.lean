import BareMetal.FatFs.Opened

/-!
# The parts of the calls

All calls on a file are made of the same parts: a changed buffer is written back, a sector is brought into
the buffer, the position moves on. Each has one lemma that says what it does to what the file holds
(`BareMetal.FatFs.Core`) and that it spares the rest, or how it fails.
-/

namespace BareMetal

namespace FatFs

variable {δ : Type} [DiskIo δ]

/-! ### Flags -/

theorem and_not_faDirty : ∀ x : BitVec 8, has x faDirty = false → x &&& ~~~faDirty = x := by
  decide

theorem has_or_faDirty : ∀ x : BitVec 8, has (x ||| faDirty) faDirty = true := by decide

/-- The flags of a mask. -/
theorem has_and_of_le {n : ℕ} {mask k : BitVec n} (h : mask &&& k = k) (x : BitVec n) :
    has (x &&& mask) k = has x k := by
  rw [has, has, BitVec.and_assoc, h]

/-- Other flags stay when some are cleared. -/
theorem has_and_not {n : ℕ} {mask k : BitVec n} (h : mask &&& k = 0#n) (x : BitVec n) :
    has (x &&& ~~~mask) k = has x k := by
  have hkeep : ~~~mask &&& k = k := by
    refine BitVec.eq_of_getLsbD_eq fun i hi => ?_
    have hbit := congrArg (fun y => y.getLsbD i) h
    simp only [BitVec.getLsbD_and, BitVec.getLsbD_zero] at hbit
    cases hk : k.getLsbD i <;> simp_all
  exact has_and_of_le hkeep x

/-- Other flags stay when some are set. -/
theorem has_or {n : ℕ} {mask k : BitVec n} (h : mask &&& k = 0#n) (x : BitVec n) :
    has (x ||| mask) k = has x k := by
  have hkeep : (x ||| mask) &&& k = x &&& k := by
    refine BitVec.eq_of_getLsbD_eq fun i hi => ?_
    have hbit := congrArg (fun y => y.getLsbD i) h
    simp only [BitVec.getLsbD_and, BitVec.getLsbD_zero] at hbit
    cases hk : k.getLsbD i <;> simp_all
  rw [has, has, hkeep]

/-- The handle of a file whose buffer has been written back or changed. -/
theorem handle_clean (f : OpenFil) :
    OpenFil.handle { f with flag := f.flag &&& ~~~faDirty } = f.handle := by
  simp (disch := decide) only [OpenFil.handle, has_and_not]

theorem modified_clean (f : OpenFil) :
    OpenFil.modified { f with flag := f.flag &&& ~~~faDirty } = f.modified :=
  has_and_not (by decide) _

theorem handle_dirty (f : OpenFil) (buf : Sector) :
    OpenFil.handle { f with buf := buf, flag := f.flag ||| faDirty } = f.handle := by
  simp (disch := decide) only [OpenFil.handle, has_or]

theorem modified_dirty (f : OpenFil) (buf : Sector) :
    OpenFil.modified { f with buf := buf, flag := f.flag ||| faDirty } = f.modified :=
  has_or (by decide) _

/-- The handle of a file that has been changed. -/
theorem handle_marked (f : OpenFil) :
    OpenFil.handle { f with flag := f.flag ||| faModified } = f.handle := by
  simp (disch := decide) only [OpenFil.handle, has_or]

theorem has_or_faModified : ∀ x : BitVec 8, has (x ||| faModified) faModified = true := by decide

/-! ### The buffer -/

section Buffer

variable {l : Layout} {chain : List (BitVec 32)} {content : Content}

/-- What a sector of the file holds, if a buffer that is to be written back counts. -/
theorem Core.byte {w : Window δ} {f : OpenFil} (h : Core l w chain content f) {p : ℕ}
    (hp : p < 512 * sectorCount l chain) {b : BitVec 8} (hb : content p = some b) :
    peek (if has f.flag faDirty = true ∧ f.sect = sectorOf l chain (p / 512) then f.buf
      else w.view (sectorOf l chain (p / 512))) p = b := by
  obtain ⟨hbuf, hdisk⟩ := h.data p hp b hb
  split
  · rename_i hin
    exact hbuf hin.2
  · rename_i hout
    exact hdisk hout

/-- The disk after a sector has been written in place of the one in the buffer. -/
abbrev Stream.Stored (v : Vol δ) (f : OpenFil) (b : Sector) (d : δ) : Prop :=
  Becomes v.window.disk d (storeSectors (sectors v.window.disk) f.sect 1 fun _ => b)

/-- **What is written for the buffer goes to its sector** and nowhere else. -/
theorem Held.spares {v : Vol δ} {f : OpenFil} (h : Held l v.window chain content f) {k : ℕ}
    (hk : k < sectorCount l chain) (hsect : f.sect = sectorOf l chain k) {b : Sector} {d : δ}
    (hd : Stream.Stored v f b d) :
    Spares l chain v (Stream.setDisk v d) ∧ (Stream.setDisk v d).table l = v.table l ∧
      (Stream.setDisk v d).window.view =
        storeSectors v.window.view (sectorOf l chain k) 1 fun _ => b := by
  have hone : k % l.csize.toNat + 1 ≤ l.csize.toNat := Nat.mod_lt _ (csize_pos l)
  have hapart : ∀ j < 1, v.window.winsect ≠ sectorOf l chain (k + j) := by
    intro j hj
    rw [Nat.lt_one_iff.mp hj]
    exact h.apart k hk
  rw [Stream.Stored, hsect] at hd
  exact ⟨Spares.write h.coherent h.nodes hone (Nat.succ_le_of_lt hk) hapart hd,
    funext (table_store h.nodes hone (Nat.succ_le_of_lt hk) hapart hd), view_store hone hapart hd⟩

/-- The buffer is in its sector, and need not be written back any more. -/
theorem Held.written {v : Vol δ} {f : OpenFil} (h : Held l v.window chain content f) {k : ℕ}
    (hk : k < sectorCount l chain) (hsect : f.sect = sectorOf l chain k) {d : δ}
    (hd : Stream.Stored v f f.buf d) :
    Held l (Stream.setDisk v d).window chain content { f with flag := f.flag &&& ~~~faDirty } := by
  obtain ⟨hspares, -, hview⟩ := h.spares hk hsect hd
  refine ⟨hspares.kept.coherent, h.nodes, h.nodup, fun hd => ?_, h.apart, fun p hp b hb => ?_⟩
  · simp at hd
  · have hone : k % l.csize.toNat + 1 ≤ l.csize.toNat := Nat.mod_lt _ (csize_pos l)
    have hq : p / 512 < sectorCount l chain := by omega
    obtain ⟨hbuf, hdisk⟩ := h.data p hp b hb
    refine ⟨hbuf, fun _ => ?_⟩
    rw [hview, storeSectors_sectorOf _ _ h.nodes h.nodup hone (Nat.succ_le_of_lt hk) hq]
    split
    · rename_i hrange
      have heq : p / 512 = k := by omega
      exact hbuf (by rw [hsect, heq])
    · rename_i hrange
      refine hdisk fun hcon => hrange ?_
      have heq := sectorOf_inj h.nodes h.nodup hk hq (hsect.symm.trans hcon.2)
      omega

/-- A write that fails tears the sector, but the buffer is still to be written. -/
theorem Held.kept {v : Vol δ} {f : OpenFil} (h : Held l v.window chain content f) {k : ℕ}
    (hk : k < sectorCount l chain) (hsect : f.sect = sectorOf l chain k)
    (hdirty : has f.flag faDirty = true) {b : Sector} {d : δ} (hd : Stream.Stored v f b d) :
    Held l (Stream.setDisk v d).window chain content f := by
  obtain ⟨hspares, -, hview⟩ := h.spares hk hsect hd
  refine ⟨hspares.kept.coherent, h.nodes, h.nodup, h.dirty, h.apart, fun p hp b' hb => ?_⟩
  have hone : k % l.csize.toNat + 1 ≤ l.csize.toNat := Nat.mod_lt _ (csize_pos l)
  have hq : p / 512 < sectorCount l chain := by omega
  obtain ⟨hbuf, hdisk⟩ := h.data p hp b' hb
  refine ⟨hbuf, fun hout => ?_⟩
  rw [hview, storeSectors_sectorOf _ _ h.nodes h.nodup hone (Nat.succ_le_of_lt hk) hq, if_neg]
  · exact hdisk hout
  · intro hrange
    have heq : p / 512 = k := by omega
    exact hout ⟨hdirty, by rw [heq, hsect]⟩

/-- The buffer of a file that holds nothing new may be of any of its sectors. -/
theorem Core.loaded {v : Vol δ} {f : OpenFil} (h : Core l v.window chain content f)
    (hclean : has f.flag faDirty = false) (k : ℕ) {d : δ}
    (hread : Becomes v.window.disk d (sectors v.window.disk)) :
    Core l (Stream.setDisk v d).window chain content
      { f with sect := sectorOf l chain k, buf := v.window.view (sectorOf l chain k) } := by
  refine ⟨(tableKept_read h.coherent hread).coherent, h.start, ?_, h.size, fun hd => ?_, h.apart,
    fun p hp b hb => ?_⟩
  · rw [view_read hread]
    exact h.linked
  · rw [show has f.flag faDirty = true from hd] at hclean
    cases hclean
  · have hdisk := (h.data p hp b hb).2 fun hcon => by
      rw [hclean] at hcon
      cases hcon.1
    rw [view_read hread]
    refine ⟨fun heq => ?_, fun _ => hdisk⟩
    rw [show sectorOf l chain k = sectorOf l chain (p / 512) from heq]
    exact hdisk

end Buffer

namespace Stream

/-- **What a part of a call does** if it does not fail: the file holds what it held and is where it
was, the table stays, and the others are spared. -/
structure Done (l : Layout) (chain : List (BitVec 32)) (content : Content) (s s' : FileState δ) :
    Prop where
  spares : Spares l chain s.vol s'.vol
  core : Core l s'.vol.window chain content s'.fil
  moved : s'.moved = s.moved
  obj : s'.fil.obj = s.fil.obj
  fptr : s'.fil.fptr = s.fil.fptr
  table : s'.vol.table l = s.vol.table l
  handle : s'.fil.handle = s.fil.handle
  modified : s'.fil.modified = s.fil.modified

section Buffer

variable {l : Layout} {chain : List (BitVec 32)} {content : Content} {s s' s'' : FileState δ}

/-- What a buffer that could not be written back leaves: everything is still there. -/
structure Torn (l : Layout) (chain : List (BitVec 32)) (content : Content) (s s' : FileState δ) : Prop where
  spares : Spares l chain s.vol s'.vol
  bad : ¬Good l s.vol
  held : Held l s'.vol.window chain content s'.fil
  table : s'.vol.table l = s.vol.table l
  fil : s'.fil = s.fil
  moved : s'.moved = s.moved

theorem Torn.fails (h : Torn l chain content s s') : Fails l chain s.vol .diskErr s' :=
  ⟨h.spares, h.bad, by decide⟩

theorem torn_of_held (h : Held l s.vol.window chain content s.fil) {k : ℕ}
    (hk : k < sectorCount l chain) (hsect : s.fil.sect = sectorOf l chain k)
    (hdirty : has s.fil.flag faDirty = true) (hfail : ¬Works s.vol.window.disk) {b : Sector} {d : δ}
    (hd : Stored s.vol s.fil b d) : Torn l chain content s { s with vol := setDisk s.vol d } := by
  obtain ⟨hspares, htable, -⟩ := h.spares hk hsect hd
  exact ⟨hspares, fun hgood => hfail hgood.works, h.kept hk hsect hdirty hd, htable, rfl, rfl⟩

theorem Done.trans (h : Done l chain content s s') (h' : Done l chain content s' s'') :
    Done l chain content s s'' :=
  ⟨h.spares.trans_self h'.spares, h'.core, h'.moved.trans h.moved, h'.obj.trans h.obj,
    h'.fptr.trans h.fptr, h'.table.trans h.table, h'.handle.trans h.handle,
    h'.modified.trans h.modified⟩

theorem Done.refl (h : Core l s.vol.window chain content s.fil) : Done l chain content s s :=
  ⟨Spares.refl h.coherent, h, rfl, rfl, rfl, rfl, rfl, rfl⟩

/-- Writing the buffer back. -/
theorem writeBack_spec (h : Held l s.vol.window chain content s.fil) {k : ℕ}
    (hk : k < sectorCount l chain) (hsect : s.fil.sect = sectorOf l chain k)
    (hdirty : has s.fil.flag faDirty = true) :
    Ends writeBack s (fun _ s' => ∃ d, Stored s.vol s.fil s.fil.buf d ∧ s' = { s with
        vol := setDisk s.vol d
        fil := { s.fil with flag := s.fil.flag &&& ~~~faDirty } })
      (fun e s' => e = .diskErr ∧ Torn l chain content s s') := by
  simp only [writeBack, modifyFil, ends_bind, ends_get, ends_set, ends_failIf, ends_modify]
  obtain ⟨res, d, heq, hres⟩ := diskWrite_one s.vol.window.disk s.fil.sect s.fil.buf
  simp only [heq]
  rcases hres with ⟨rfl, hd⟩ | ⟨hne, hfail, left, hd⟩
  · refine ⟨fun hne => absurd rfl hne, fun _ => ⟨d, ?_, rfl⟩⟩
    rwa [Stored, storeSectors_one]
  · have htorn : Stored s.vol s.fil left d := by rwa [Stored, storeSectors_one]
    exact ⟨fun _ => ⟨trivial, torn_of_held h hk hsect hdirty hfail htorn⟩,
      fun hok => absurd (not_not.mp hok) hne⟩

/-- **`FA_DIRTY`**: a buffer that has been changed is written back. -/
theorem flush_held (h : Held l s.vol.window chain content s.fil) :
    Ends flush s (fun _ s' => Spares l chain s.vol s'.vol ∧
      Held l s'.vol.window chain content s'.fil ∧ s'.vol.table l = s.vol.table l ∧
      s'.fil = { s.fil with flag := s.fil.flag &&& ~~~faDirty } ∧ s'.moved = s.moved)
      (fun e s' => e = .diskErr ∧ Torn l chain content s s') := by
  simp only [flush, ends_bind, ends_get, ends_onlyIf]
  refine ⟨fun hd => ?_, fun hd => ⟨Spares.refl h.coherent, h, trivial, ?_, trivial⟩⟩
  · obtain ⟨k, hk, hsect⟩ := h.dirty hd
    refine (writeBack_spec h hk hsect hd).mono (fun _ s' hs' => ?_) fun e s' hfail => hfail
    obtain ⟨d, hstored, rfl⟩ := hs'
    obtain ⟨hspares, htable, -⟩ := h.spares hk hsect hstored
    exact ⟨hspares, h.written hk hsect hstored, htable, rfl, rfl⟩
  · rw [and_not_faDirty _ (Bool.eq_false_iff.mpr hd)]

theorem flush_spec (h : Core l s.vol.window chain content s.fil) :
    Ends flush s (fun _ s' => Done l chain content s s' ∧
      s'.fil = { s.fil with flag := s.fil.flag &&& ~~~faDirty }) (Fails l chain s.vol) := by
  refine (flush_held h.held).mono (fun _ s' hs' => ?_) fun e s' hfail => hfail.1 ▸ hfail.2.fails
  obtain ⟨hspares, hheld, htable, hfil, hmoved⟩ := hs'
  refine ⟨⟨hspares, ⟨hheld.coherent, ?_, ?_, ?_, hheld.dirty, hheld.apart, hheld.data⟩, hmoved,
    by rw [hfil], by rw [hfil], htable, by rw [hfil, handle_clean], by rw [hfil, modified_clean]⟩, hfil⟩
  · rw [hfil]
    exact h.start
  · exact fun a ha => (h.linked a ha).congr fun c _ => congrFun htable c
  · rw [hfil]
    exact h.size

/-- A sector that the window is not over is read into the buffer. -/
theorem load_looked (h : s.vol.window.Coherent l) {sect : BitVec 32} (hapart : s.vol.window.winsect ≠ sect)
    (hsect : sect ≠ noSector) :
    Ends (load sect) s (fun _ s' => ∃ d, Becomes s.vol.window.disk d (sectors s.vol.window.disk) ∧
      s' = { s with
        vol := setDisk s.vol d
        fil := { s.fil with buf := s.vol.window.view sect } })
      (fun e s' => e = .diskErr ∧ Looked l s.vol s'.vol ∧ ¬Good l s.vol ∧
        ∃ b, s'.fil = { s.fil with buf := b }) := by
  simp only [load, ends_bind, ends_get, ends_set, ends_failIf]
  obtain ⟨res, b, d, heq, hd, hres⟩ := diskRead_one s.vol.window.disk sect
  simp only [heq]
  rcases hres with ⟨rfl, hb⟩ | ⟨hne, hfail⟩
  · refine ⟨fun hne => absurd rfl hne, fun _ => ⟨d, hd, ?_⟩⟩
    rw [hb hsect, sectors_of_apart hapart]
  · exact ⟨fun _ => ⟨trivial, ⟨tableKept_read h hd, fun _ _ => by rw [view_read hd], rfl⟩,
      fun hgood => hfail hgood.works, _, rfl⟩, fun hok => absurd (not_not.mp hok) hne⟩

/-- A sector of the file is read into the buffer. -/
theorem load_spec (h : Core l s.vol.window chain content s.fil) {k : ℕ}
    (hk : k < sectorCount l chain) :
    Ends (load (sectorOf l chain k)) s
      (fun _ s' => ∃ d, Becomes s.vol.window.disk d (sectors s.vol.window.disk) ∧
        s' = { s with
          vol := setDisk s.vol d
          fil := { s.fil with buf := s.vol.window.view (sectorOf l chain k) } })
      (Fails l chain s.vol) :=
  (load_looked h.coherent (h.apart k hk) (inData_sectorOf h.nodes hk).2).mono (fun _ _ hs' => hs')
    fun e s' hfail => by
    obtain ⟨rfl, hlooked, hbad, -⟩ := hfail
    exact ⟨hlooked.spares, hbad, by decide⟩

/-- **A sector of the file is brought into the buffer.** -/
theorem seize_spec (h : Core l s.vol.window chain content s.fil) {k : ℕ}
    (hk : k < sectorCount l chain) :
    Ends (seize (sectorOf l chain k)) s (fun _ s' => Done l chain content s s' ∧
      s'.fil.sect = sectorOf l chain k ∧ s'.fil.clust = s.fil.clust) (Fails l chain s.vol) := by
  simp only [seize, ends_bind, ends_get, ends_onlyIf, modifyFil, ends_modify]
  refine ⟨fun _ => ?_, fun heq => ?_⟩
  · refine (flush_spec h).mono (fun _ s₁ hs₁ => ?_) fun e s' hfail => hfail
    obtain ⟨hdone, hfil⟩ := hs₁
    have hclean : has s₁.fil.flag faDirty = false := by
      rw [hfil]
      exact has_and_not_self _ _
    refine (load_spec hdone.core hk).mono (fun _ s₂ hs₂ => ?_) fun e s' hfail => ?_
    · obtain ⟨d, hd, rfl⟩ := hs₂
      refine ⟨⟨hdone.spares.trans_self (Spares.read hdone.core.coherent hd),
        hdone.core.loaded hclean k hd, hdone.moved, hdone.obj, hdone.fptr,
        (table_read hd).trans hdone.table, hdone.handle, hdone.modified⟩, trivial, ?_⟩
      simp only [hfil]
    · exact hfail.after hdone.spares (Grows.refl _ _)
  · have hsect := not_not.mp heq
    refine ⟨⟨Spares.refl h.coherent, ?_, rfl, rfl, rfl, rfl, rfl, rfl⟩, trivial, trivial⟩
    rw [← hsect]
    exact h

/-! ### The position -/

theorem toNat_csect (l : Layout) (fptr : BitVec 32) :
    (csect l fptr).toNat = fptr.toNat / 512 % l.csize.toNat := by
  obtain ⟨k, hk, hsize⟩ := l.csize_eq
  have hpow : 2 ^ k < 2 ^ 16 := Nat.pow_lt_pow_right (by decide) (by omega)
  have hnat : l.csize.toNat = 2 ^ k := by
    rw [hsize, BitVec.toNat_ofNat, Nat.mod_eq_of_lt hpow]
  have hone : (l.csize.setWidth 32 - 1#32).toNat = 2 ^ k - 1 := by
    have hwide : (l.csize.setWidth 32).toNat = 2 ^ k := by
      rw [BitVec.toNat_setWidth, hnat]
      exact Nat.mod_eq_of_lt (hpow.trans (by decide))
    have hpos := Nat.two_pow_pos k
    rw [BitVec.toNat_sub_of_le (BitVec.le_def.mpr (by rw [hwide]; exact hpos)), hwide]
    rfl
  rw [csect, BitVec.toNat_and, hone, BitVec.toNat_udiv, hnat, Nat.and_two_pow_sub_one_eq_mod]
  rfl

/-- **The sector at the position** is that of the file, once the cluster is right. -/
theorem sectorHere_spec (h : Core l s.vol.window chain content s.fil)
    (hlt : s.fil.fptr.toNat / 512 < sectorCount l chain)
    (hclust : s.fil.clust = chain.getD (s.fil.fptr.toNat / 512 / l.csize.toNat) 0#32)
    {E : InnerResult → FileState δ → Prop} :
    Ends (sectorHere l) s (fun r s' => r = sectorOf l chain (s.fil.fptr.toNat / 512) ∧ s' = s) E := by
  have hc : l.Cluster s.fil.clust := hclust ▸ h.nodes _ (getD_mem hlt)
  simp only [sectorHere, ends_bind, ends_get, ends_failIf, ends_pure]
  refine ⟨fun hcon => absurd hcon (clst2sect_ne_zero hc), fun _ => ⟨?_, trivial⟩⟩
  rw [sectorOf, sectorIn, ← hclust, ← toNat_csect, BitVec.ofNat_toNat, BitVec.setWidth_eq]

end Buffer

end Stream

end FatFs

end BareMetal
