import BareMetal.FatFs.Outcomes
import BareMetal.FatFs.Write

/-!
# How a write ends

At the level of the object `f_write` is given how its loop ends: with an error or without one, with all bytes
moved or with fewer, with the buffer changed or not (`BareMetal.FatFs.WriteEnd`). Here it is shown that nothing
has been forgotten there: the loop on the volume **ends in one of these ways**
(`BareMetal.FatFs.Stream.writeBody_ending`), and so what is said of a write whatever its end holds of every
write on every volume (`BareMetal.FatFs.Stream.fWrite_ending`).

A round leaves the position, the size and the bytes that have been moved as they are until its end, where
they are counted together (`BareMetal.FatFs.Stream.Counted.add`). Before that only the cluster and the buffer
change, and `FA_DIRTY`.
-/

namespace BareMetal

namespace FatFs

namespace Stream

variable {δ : Type} [DiskIo δ]

/-! ### A round -/

/-- **What `f_write` has done** when it has moved `n` bytes: the position and the size have moved on, and of
the flags only `FA_DIRTY` may be another. -/
structure Counted (o : Fil) (n : ℕ) (s : FileState δ) : Prop where
  fptr : s.fil.fptr = o.fptr + BitVec.ofNat 32 n
  objsize : s.fil.obj.objsize = if n ≠ 0 ∧ o.fptr + BitVec.ofNat 32 n > o.obj.objsize then
    o.fptr + BitVec.ofNat 32 n else o.obj.objsize
  flag : s.fil.flag &&& ~~~faDirty = o.flag &&& ~~~faDirty
  moved : s.moved.length = n

section Write

variable {o : Fil} {n : ℕ} {s : FileState δ} {data : List (BitVec 8)}

omit [DiskIo δ] in
/-- Nothing is counted, and of the flags only `FA_DIRTY` is changed. -/
theorem Counted.of_same {s' : FileState δ} (h : Counted o n s) (hfptr : s'.fil.fptr = s.fil.fptr)
    (hobjsize : s'.fil.obj.objsize = s.fil.obj.objsize) (hmoved : s'.moved = s.moved)
    (hflag : s'.fil.flag = s.fil.flag ∨ s'.fil.flag = s.fil.flag &&& ~~~faDirty ∨
      s'.fil.flag = s.fil.flag ||| faDirty) : Counted o n s' := by
  refine ⟨hfptr.trans h.fptr, hobjsize.trans h.objsize, ?_, by rw [hmoved]; exact h.moved⟩
  have hoff : ∀ x : BitVec 8, x &&& ~~~faDirty &&& ~~~faDirty = x &&& ~~~faDirty := by decide
  have hon : ∀ x : BitVec 8, (x ||| faDirty) &&& ~~~faDirty = x &&& ~~~faDirty := by decide
  rw [← h.flag]
  rcases hflag with heq | heq | heq
  · rw [heq]
  · rw [heq, hoff]
  · rw [heq, hon]

omit [DiskIo δ] in
theorem keeps_counted_modifyFil {h : OpenFil → OpenFil} (hfptr : ∀ f, (h f).fptr = f.fptr)
    (hobjsize : ∀ f, (h f).obj.objsize = f.obj.objsize)
    (hflag : ∀ f, (h f).flag = f.flag ∨ (h f).flag = f.flag &&& ~~~faDirty ∨
      (h f).flag = f.flag ||| faDirty) : Keeps (Counted (δ := δ) o n) (modifyFil h) :=
  keeps_modify fun s hs => hs.of_same (hfptr s.fil) (hobjsize s.fil) rfl (hflag s.fil)

omit [DiskIo δ] in
theorem keeps_counted_set {s s' : FileState δ} (h : Counted o n s) (hfptr : s'.fil.fptr = s.fil.fptr)
    (hobjsize : s'.fil.obj.objsize = s.fil.obj.objsize) (hmoved : s'.moved = s.moved)
    (hflag : s'.fil.flag = s.fil.flag) : Keeps (Counted o n) (set s' : FileM δ PUnit) :=
  keeps_set (h.of_same hfptr hobjsize hmoved (Or.inl hflag))

theorem keeps_counted_newCluster (g : Geometry) (clst : BitVec 32) :
    Keeps (Counted (δ := δ) o n) (newCluster g clst) :=
  Keeps.get_bind fun _ hs => Keeps.bind (keeps_counted_set hs rfl rfl rfl rfl) fun _ => keeps_pure _

omit [DiskIo δ] in
theorem keeps_counted_keepCluster (clst : BitVec 32) : Keeps (Counted (δ := δ) o n) (keepCluster clst) :=
  Keeps.ite (keeps_pure _) (Keeps.bind (keeps_failIf _) fun _ => Keeps.bind (keeps_failIf _) fun _ =>
    Keeps.bind (keeps_counted_modifyFil (fun _ => rfl) (fun _ => rfl) fun _ => Or.inl rfl) fun _ =>
      keeps_pure _)

theorem keeps_counted_writeCluster (g : Geometry) : Keeps (Counted (δ := δ) o n) (writeCluster g) :=
  Keeps.get_bind fun _ _ => Keeps.ite
    (Keeps.ite (Keeps.bind (keeps_counted_newCluster g _) fun _ => keeps_counted_keepCluster _)
      (Keeps.bind (keeps_pure _) fun _ => keeps_counted_keepCluster _))
    (Keeps.bind (keeps_counted_newCluster g _) fun _ => keeps_counted_keepCluster _)

theorem keeps_counted_flush : Keeps (Counted (δ := δ) o n) flush :=
  Keeps.get_bind fun _ _ => Keeps.onlyIf (Keeps.get_bind fun _ hs =>
    Keeps.bind (keeps_counted_set hs rfl rfl rfl rfl) fun _ => Keeps.bind (keeps_failIf _) fun _ =>
      keeps_counted_modifyFil (fun _ => rfl) (fun _ => rfl) fun _ => Or.inr (Or.inl rfl))

theorem keeps_counted_seizeGrowing (sect : BitVec 32) : Keeps (Counted (δ := δ) o n) (seizeGrowing sect) :=
  Keeps.get_bind fun _ _ => Keeps.bind (Keeps.onlyIf (Keeps.get_bind fun _ hs =>
      Keeps.bind (keeps_counted_set hs rfl rfl rfl rfl) fun _ => keeps_failIf _)) fun _ =>
    keeps_counted_modifyFil (fun _ => rfl) (fun _ => rfl) fun _ => Or.inl rfl

theorem keeps_counted_writeDirect (data : List (BitVec 8)) (sect : BitVec 32) (cc : ℕ) :
    Keeps (Counted (δ := δ) o n) (writeDirect data sect cc) :=
  Keeps.get_bind fun _ hs => Keeps.bind (keeps_counted_set hs rfl rfl rfl rfl) fun _ =>
    Keeps.bind (keeps_failIf _) fun _ => Keeps.bind (Keeps.onlyIf
      (keeps_counted_modifyFil (fun _ => rfl) (fun _ => rfl) fun _ => Or.inr (Or.inl rfl))) fun _ =>
        keeps_pure _

omit [DiskIo δ] in
theorem keeps_counted_writePart (data : List (BitVec 8)) : Keeps (Counted (δ := δ) o n) (writePart data) :=
  Keeps.get_bind fun _ _ => Keeps.bind
    (keeps_counted_modifyFil (fun _ => rfl) (fun _ => rfl) fun _ => Or.inr (Or.inr rfl)) fun _ =>
      keeps_pure _

/-- A round counts nothing before its end. -/
theorem keeps_counted_writeStep (g : Geometry) (data : List (BitVec 8)) :
    Keeps (Counted (δ := δ) o n) (writeStep g data) := by
  have hsector : Keeps (Counted (δ := δ) o n) (writeSector g data) :=
    keeps_counted_flush.bind fun _ => Keeps.get_bind fun _ _ => (keeps_sectorHere g).bind fun sect =>
      Keeps.ite (keeps_counted_writeDirect data sect _) (Keeps.bind (keeps_counted_seizeGrowing sect) fun _ =>
        keeps_counted_writePart data)
  have hrest : ∀ room : Bool,
      Keeps (Counted (δ := δ) o n) (if room then some <$> writeSector g data else pure none) :=
    fun _ => Keeps.ite (hsector.map _) (keeps_pure _)
  exact Keeps.get_bind fun _ _ => Keeps.ite
    (Keeps.ite (Keeps.bind (keeps_counted_writeCluster g) hrest) (Keeps.bind (keeps_pure _) hrest))
    ((keeps_counted_writePart data).map _)

/-- A number of bytes that there are. -/
def ShareOf (data : List (BitVec 8)) (w : ℕ) : Prop := 0 < w ∧ w ≤ data.length

omit [DiskIo δ] in
theorem returns_writePart (hdata : data ≠ []) :
    Returns (ShareOf data) (writePart data : FileM δ ℕ) := by
  have hpos : 0 < data.length := List.length_pos_iff.mpr hdata
  refine Returns.of_bind fun s => Returns.of_bind fun _ => returns_pure ?_
  unfold ShareOf
  omega

theorem returns_writeDirect (l : Layout) (sect fptr : BitVec 32) (hwhole : data.length / 512 > 0) :
    Returns (ShareOf data)
      (writeDirect data sect (sectorsAhead l (csect l fptr) data.length) : FileM δ ℕ) := by
  have hlt : (csect l fptr).toNat < l.csize.toNat := by
    rw [toNat_csect]
    exact Nat.mod_lt _ (csize_pos l)
  have hcc : 0 < sectorsAhead l (csect l fptr) data.length ∧
      sectorsAhead l (csect l fptr) data.length ≤ data.length / 512 := by
    unfold sectorsAhead
    split <;> omega
  have hbound := Nat.mul_div_le data.length 512
  refine Returns.of_bind fun _ => Returns.of_bind fun _ => Returns.of_bind fun _ => Returns.of_bind fun _ =>
    returns_pure ?_
  unfold ShareOf
  omega

/-- A round counts some bytes, and not more than there are. -/
theorem returns_writeStep (l : Layout) (hdata : data ≠ []) :
    Returns (fun r => ∀ w, r = some w → ShareOf data w) (writeStep l data : FileM δ (Option ℕ)) := by
  have hsome : ∀ {m : FileM δ ℕ}, Returns (ShareOf data) m →
      Returns (fun r => ∀ w, r = some w → ShareOf data w) (some <$> m) := by
    intro m hm
    refine Returns.map fun s => (hm s).mono (fun a _ ha w hw => ?_) fun _ _ _ => trivial
    exact Option.some.inj hw ▸ ha
  have hsector : Returns (ShareOf data) (writeSector l data : FileM δ ℕ) :=
    Returns.of_bind fun _ => Returns.of_bind fun _ => Returns.of_bind fun sect =>
      Returns.ite (fun hwhole => returns_writeDirect l sect _ hwhole)
        fun _ => Returns.of_bind fun _ => returns_writePart hdata
  have hrest : ∀ room : Bool, Returns (fun r => ∀ w, r = some w → ShareOf data w)
      (if room then some <$> writeSector l data else pure none : FileM δ (Option ℕ)) :=
    fun _ => Returns.ite (fun _ => hsome hsector) fun _ => returns_pure fun _ hw => by cases hw
  exact Returns.of_bind fun _ => Returns.ite
    (fun _ => Returns.ite (fun _ => Returns.of_bind hrest) fun _ => Returns.of_bind hrest)
    fun _ => hsome (returns_writePart hdata)

omit [DiskIo δ] in
/-- **The count at the end of a round.** -/
theorem Counted.add (h : Counted o n s) {w : ℕ} (hw : 0 < w) (hfit : o.fptr.toNat + n + w < 2 ^ 32)
    {bytes : List (BitVec 8)} (hbytes : bytes.length = w) :
    Counted o (n + w) { s with
      fil := { s.fil with
        fptr := s.fil.fptr + BitVec.ofNat 32 w
        obj := { s.fil.obj with
          objsize := if s.fil.fptr + BitVec.ofNat 32 w > s.fil.obj.objsize then
            s.fil.fptr + BitVec.ofNat 32 w else s.fil.obj.objsize } }
      moved := s.moved ++ bytes } := by
  have hfptr : s.fil.fptr + BitVec.ofNat 32 w = o.fptr + BitVec.ofNat 32 (n + w) := by
    rw [h.fptr, BitVec.add_assoc, BitVec.ofNat_add]
  have hbefore : (o.fptr + BitVec.ofNat 32 n).toNat = o.fptr.toNat + n := by
    rw [BitVec.toNat_add, BitVec.toNat_ofNat]
    omega
  have hafter : (o.fptr + BitVec.ofNat 32 (n + w)).toNat = o.fptr.toNat + (n + w) := by
    rw [BitVec.toNat_add, BitVec.toNat_ofNat]
    omega
  refine ⟨hfptr, ?_, h.flag, by rw [List.length_append, h.moved, hbytes]⟩
  have hne : n + w ≠ 0 := by omega
  simp only [hfptr, h.objsize, hne, ne_eq, not_false_eq_true, true_and, gt_iff_lt]
  by_cases hgrown : ¬n = 0 ∧ o.obj.objsize < o.fptr + BitVec.ofNat 32 n
  · -- the size had followed the position, which has moved on
    have hlt : o.fptr + BitVec.ofNat 32 n < o.fptr + BitVec.ofNat 32 (n + w) := by
      rw [BitVec.lt_def]
      omega
    rw [if_pos hgrown, if_pos hlt, if_pos (BitVec.lt_trans hgrown.2 hlt)]
  · rw [if_neg hgrown]

/-! ### The loop -/

/-- **The loop of `f_write`** moves some of the bytes, however it ends. -/
theorem writeLoop_counted (l : Layout) (fuel : ℕ) (h : Counted o n s)
    (hfit : o.fptr.toNat + n + data.length < 2 ^ 32) :
    Ends (writeLoop l fuel data) s (fun _ s' => ∃ k ≤ n + data.length, Counted o k s')
      fun _ s' => ∃ k ≤ n + data.length, Counted o k s' := by
  induction fuel generalizing n data s with
  | zero => exact ⟨n, by omega, h⟩
  | succ fuel ih =>
    unfold writeLoop
    split
    · exact ⟨n, by omega, h⟩
    · rename_i hdata
      have hstep := (keeps_counted_writeStep l.toGeometry data s h).and (returns_writeStep l hdata s)
      refine hstep.bind (fun r s' hs' => ?_) fun e s' hs' => ⟨n, by omega, hs'.1⟩
      obtain ⟨hs', hcount⟩ := hs'
      cases r with
      | none => exact ⟨n, by omega, hs'⟩
      | some w =>
        -- what has been counted so far carries the induction
        obtain ⟨hpos, hle⟩ := hcount w rfl
        have hlength : (data.drop w).length = data.length - w := List.length_drop
        have hadd := hs'.add hpos (by omega) (List.length_take_of_le hle)
        have hfit' : o.fptr.toNat + (n + w) + (data.drop w).length < 2 ^ 32 := by omega
        have hrest := ih hadd hfit'
        rw [hlength, show n + w + (data.length - w) = n + data.length by omega] at hrest
        exact hrest

theorem toNat_clipBtw (fil : Fil) (btw : BitVec 32) :
    fil.fptr.toNat + (clipBtw fil btw).toNat < 2 ^ 32 ∧ (clipBtw fil btw).toNat ≤ btw.toNat := by
  have hf := fil.fptr.isLt
  have hb := btw.isLt
  unfold clipBtw
  split
  · rename_i hwrap
    rw [BitVec.lt_def, BitVec.toNat_add] at hwrap
    rw [BitVec.toNat_sub]
    simp only [BitVec.toNat_ofNat]
    omega
  · rename_i hwrap
    rw [BitVec.lt_def, BitVec.toNat_add] at hwrap
    omega

/-! ### The endings -/

/-- How a loop has ended that has moved so much. -/
def endingOf (abort : Option InnerResult) (btw : BitVec 32) (o : Fil) (s : FileState δ) : WriteEnd :=
  ⟨abort, decide (BitVec.ofNat 32 s.moved.length ≠ clipBtw o btw), BitVec.ofNat 32 s.moved.length,
    s.fil.obj.sclust, has s.fil.flag faDirty, fun _ => 0#8⟩

omit [DiskIo δ] in
theorem writeCount_endingOf (abort : Option InnerResult) {btw : BitVec 32} (h : Counted o n s)
    (hle : n ≤ (clipBtw o btw).toNat) : writeCount o btw (endingOf abort btw o s) = BitVec.ofNat 32 n := by
  have hlt := (clipBtw o btw).isLt
  have hmoved : BitVec.ofNat 32 n ≤ clipBtw o btw := by
    rw [BitVec.le_def, BitVec.toNat_ofNat]
    omega
  simp only [writeCount, endingOf, h.moved, if_pos hmoved]
  split
  · rename_i hall
    exact (by simpa using hall.2 : BitVec.ofNat 32 n = clipBtw o btw).symm
  · rfl

omit [DiskIo δ] in
theorem Counted.flag_eq (h : Counted o n s) :
    s.fil.flag = if has s.fil.flag faDirty = true then o.flag ||| faDirty else o.flag &&& ~~~faDirty := by
  have hsplit : ∀ x : BitVec 8, x = if has x faDirty = true then x &&& ~~~faDirty ||| faDirty
      else x &&& ~~~faDirty := by decide
  have hon : ∀ x : BitVec 8, x &&& ~~~faDirty ||| faDirty = x ||| faDirty := by decide
  -- the other flags are those of the object
  have hself := hsplit s.fil.flag
  rwa [h.flag, hon] at hself

omit [DiskIo δ] in
/-- What is left after so many bytes is what the ending leaves. -/
theorem leaves_endingOf (abort : Option InnerResult) {btw : BitVec 32} (h : Counted o n s)
    (hle : n ≤ (clipBtw o btw).toNat) (hn : n < 2 ^ 32) :
    FatFs.writeBody o btw (endingOf abort btw o s) =
      { leaves abort s with
        flag := if abort = none then s.fil.flag ||| faModified else s.fil.flag } := by
  have hzero : BitVec.ofNat 32 n ≠ 0#32 ↔ n ≠ 0 := by
    rw [ne_eq, ← BitVec.toNat_inj, BitVec.toNat_ofNat, Nat.mod_eq_of_lt hn]
    rfl
  simp only [FatFs.writeBody, writeCount_endingOf abort h hle, leaves, h.fptr, h.objsize, h.moved, hzero]
  congr 1
  rw [writeFlag, endingOf, ← h.flag_eq]

/-- **`f_write` on the volume ends in one of the ways** that `BareMetal.FatFs.writeBody` describes. -/
theorem writeBody_ending (l : Layout) (v : Vol δ) (f : OpenFil) (data : List (BitVec 8)) :
    ∃ e, bodyIo (writeBody l data) v f = FatFs.writeBody f.toFil (BitVec.ofNat 32 data.length) e := by
  obtain ⟨hfit, hclip⟩ := toNat_clipBtw f.toFil (BitVec.ofNat 32 data.length)
  have hstart : Counted f.toFil 0 (⟨v, f, []⟩ : FileState δ) :=
    ⟨(BitVec.add_zero _).symm, by simp, rfl, rfl⟩
  -- the bytes that are to be written are clipped, and the position does not wrap around
  have hlength : (data.take (clipBtw f.toFil (BitVec.ofNat 32 data.length)).toNat).length ≤
      (clipBtw f.toFil (BitVec.ofNat 32 data.length)).toNat := List.length_take_le _ _
  have hloop := writeLoop_counted l (clipBtw f.toFil (BitVec.ofNat 32 data.length)).toNat hstart
    (show f.fptr.toNat + 0 + _ < 2 ^ 32 from Nat.lt_of_le_of_lt (Nat.add_le_add_left hlength _) hfit)
  refine exists_bodyIo ?_
  simp only [writeBody, modifyFil, ends_bind, ends_get, ends_modify]
  refine hloop.mono (fun _ s hs => ?_) fun err s hs => ?_
  · obtain ⟨n, hn, hcounted⟩ := hs
    exact ⟨endingOf none _ f.toFil s, (leaves_endingOf none hcounted (by omega) (by omega)).symm⟩
  · obtain ⟨n, hn, hcounted⟩ := hs
    exact ⟨endingOf (some err) _ f.toFil s, (leaves_endingOf (some err) hcounted (by omega) (by omega)).symm⟩

/-- **`f_write`** on the object, with some ending, is `f_write` on the volume. -/
theorem fWrite_ending (vols : Volumes) (l : Layout) (v : Vol δ) (f : OpenFil) (data : List (BitVec 8)) :
    ∃ e, ∀ content, (fWriteData vols f.toFil content data e).1 =
      (((fWrite vols l v f data).1.1, BitVec.ofNat 32 (fWrite vols l v f data).1.2.length),
        (fWrite vols l v f data).2.2.toFil) := by
  obtain ⟨e, he⟩ := writeBody_ending l v f data
  refine ⟨e, fun content => ?_⟩
  rw [← fWrite_outcome, he]
  rfl

end Write

end Stream

end FatFs

end BareMetal
