import BareMetal.FatFs.Parts

/-!
# What the calls leave of the object

Two things hold of a file object whatever the data calls do to the file, and however they end. What they
check of it, and where its directory entry is, stays as it is (`BareMetal.FatFs.OpenFil.handle`). And a
buffer that has been changed is announced by `FA_MODIFIED` (`BareMetal.FatFs.Stream.Marked`): `f_sync` writes
the buffer of a marked file only, so that a change that is not announced would be lost.

Neither depends on what the parts of the calls compute, only on the fields they write: most parts write the
position, the chain and the buffer, take `FA_DIRTY` off or set `FA_MODIFIED`
(`BareMetal.FatFs.Stream.Quiet`). A property that such changes keep is **calm**, and every part but one keeps
a calm property. The exception is the part of `f_write` that fills the buffer.
-/

namespace BareMetal

namespace FatFs

variable {δ : Type} [DiskIo δ]

namespace Stream

/-- A change of the object that leaves its handle, and of its flags at most takes `FA_DIRTY` off or
sets `FA_MODIFIED`. -/
structure Quiet (f f' : OpenFil) : Prop where
  err : f'.err = f.err
  fs : f'.obj.fs = f.obj.fs
  id : f'.obj.id = f.obj.id
  dirSect : f'.dirSect = f.dirSect
  dirPtr : f'.dirPtr = f.dirPtr
  flag : f'.flag = f.flag ∨ f'.flag = f.flag &&& ~~~faDirty ∨ f'.flag = f.flag ||| faModified

/-- A property that quiet changes keep. -/
structure Calm (P : FileState δ → Prop) : Prop where
  quiet : ∀ s s', P s → Quiet s.fil s'.fil → P s'

section Calm

variable {P : FileState δ → Prop} (hP : Calm P)

include hP

/-! ### The parts -/

omit [DiskIo δ] in
theorem Calm.modifyFil {h : OpenFil → OpenFil} (hfil : ∀ f, Quiet f (h f)) : Keeps P (modifyFil h) :=
  keeps_modify fun s hs => hP.quiet s _ hs (hfil s.fil)

omit [DiskIo δ] in
/-- A change of the volume. -/
theorem Calm.withVol {β : Type} {h : FileState δ → Vol δ} {k : FileState δ → FileM δ β}
    (hk : ∀ s, Keeps P (k s)) :
    Keeps P (do
      let s ← get
      set { s with vol := h s }
      k s) :=
  Keeps.get_bind fun s hs =>
    Keeps.bind (keeps_set (hP.quiet s _ hs ⟨rfl, rfl, rfl, rfl, rfl, Or.inl rfl⟩)) fun _ => hk s

theorem Calm.readFat (g : Geometry) (clst : BitVec 32) : Keeps P (readFat g clst) :=
  hP.withVol fun _ => keeps_pure _

theorem Calm.newCluster (g : Geometry) (clst : BitVec 32) : Keeps P (newCluster g clst) :=
  hP.withVol fun _ => keeps_pure _

theorem Calm.dropChain (g : Geometry) (clst pclst : BitVec 32) : Keeps P (dropChain g clst pclst) :=
  hP.withVol fun _ => keeps_pure _

theorem Calm.writeBack : Keeps P writeBack :=
  hP.withVol fun _ => Keeps.bind (keeps_failIf _) fun _ =>
    hP.modifyFil fun _ => ⟨rfl, rfl, rfl, rfl, rfl, Or.inr (Or.inl rfl)⟩

theorem Calm.flush : Keeps P flush := Keeps.get_bind fun _ _ => Keeps.onlyIf hP.writeBack

theorem Calm.load (sect : BitVec 32) : Keeps P (load sect) :=
  Keeps.get_bind fun s hs => Keeps.bind
    (keeps_set (hP.quiet s _ hs ⟨rfl, rfl, rfl, rfl, rfl, Or.inl rfl⟩)) fun _ => keeps_failIf _

theorem Calm.seize (sect : BitVec 32) : Keeps P (seize sect) :=
  Keeps.get_bind fun _ _ => Keeps.bind (Keeps.onlyIf (hP.flush.bind fun _ => hP.load sect)) fun _ =>
    hP.modifyFil fun _ => ⟨rfl, rfl, rfl, rfl, rfl, Or.inl rfl⟩

omit [DiskIo δ] in
omit hP in
theorem keeps_sectorHere (g : Geometry) : Keeps P (sectorHere g) :=
  Keeps.get_bind fun _ _ => Keeps.bind (keeps_failIf _) fun _ => keeps_pure _

/-! ### Reading -/

omit [DiskIo δ] in
theorem Calm.takeCluster (clst : BitVec 32) : Keeps P (takeCluster clst) :=
  Keeps.bind (keeps_failIf _) fun _ => Keeps.bind (keeps_failIf _) fun _ =>
    hP.modifyFil fun _ => ⟨rfl, rfl, rfl, rfl, rfl, Or.inl rfl⟩

theorem Calm.readCluster (g : Geometry) : Keeps P (readCluster g) :=
  Keeps.get_bind fun _ _ => Keeps.ite (Keeps.bind (keeps_pure _) fun _ => hP.takeCluster _)
    (Keeps.bind (hP.readFat g _) fun _ => hP.takeCluster _)

theorem Calm.readDirect (sect : BitVec 32) (cc : ℕ) : Keeps P (readDirect sect cc) :=
  hP.withVol fun _ => Keeps.bind (keeps_failIf _) fun _ => keeps_pure _

omit [DiskIo δ] in
omit hP in
theorem keeps_readPart (btr : ℕ) : Keeps P (readPart btr) := Keeps.get_bind fun _ _ => keeps_pure _

theorem Calm.readStep (g : Geometry) (btr : ℕ) : Keeps P (readStep g btr) :=
  Keeps.get_bind fun _ _ => Keeps.ite
    (Keeps.bind (Keeps.onlyIf (hP.readCluster g)) fun _ => (keeps_sectorHere g).bind fun sect =>
      (hP.readDirect sect _).ite ((hP.seize sect).bind fun _ => keeps_readPart btr))
    (keeps_readPart btr)

theorem Calm.readLoop (g : Geometry) (fuel btr : ℕ) : Keeps P (readLoop g fuel btr) := by
  induction fuel generalizing btr with
  | zero => exact keeps_pure _
  | succ fuel ih =>
    exact (keeps_pure _).ite ((hP.readStep g btr).bind fun bytes => Keeps.bind
      (keeps_modify fun s hs => hP.quiet s _ hs ⟨rfl, rfl, rfl, rfl, rfl, Or.inl rfl⟩) fun _ => ih _)

theorem Calm.readBody (g : Geometry) (btr : BitVec 32) : Keeps P (readBody g btr) :=
  Keeps.get_bind fun _ _ => hP.readLoop g _ _

/-! ### Seeking -/

theorem Calm.seekStart (g : Geometry) (ifptr : BitVec 32) (ofs : ℕ) : Keeps P (seekStart g ifptr ofs) :=
  Keeps.get_bind fun _ _ => Keeps.ite
    (Keeps.bind (hP.modifyFil fun _ => ⟨rfl, rfl, rfl, rfl, rfl, Or.inl rfl⟩) fun _ => keeps_pure _)
    (Keeps.ite
      (Keeps.bind (hP.newCluster g _) fun _ => Keeps.bind (keeps_failIf _) fun _ =>
        Keeps.bind (keeps_failIf _) fun _ =>
          Keeps.bind (hP.modifyFil fun _ => ⟨rfl, rfl, rfl, rfl, rfl, Or.inl rfl⟩) fun _ => keeps_pure _)
      (Keeps.bind (hP.modifyFil fun _ => ⟨rfl, rfl, rfl, rfl, rfl, Or.inl rfl⟩) fun _ => keeps_pure _))

theorem Calm.seekLoop (g : Geometry) (writable : Bool) (fuel ofs : ℕ) (clst : BitVec 32) :
    Keeps P (seekLoop g writable fuel ofs clst) := by
  induction fuel generalizing ofs clst with
  | zero => exact keeps_pure _
  | succ fuel ih =>
    have hrest : ∀ next, Keeps P (if writable = true ∧ next = 0#32 then pure (0, 0#32)
        else do
          failIf (next = 0xFFFFFFFF#32) .diskErr
          failIf (next ≤ 1#32 ∨ next ≥ g.nFatent) .intErr
          Stream.modifyFil fun f => { f with clust := next }
          Stream.seekLoop g writable fuel (ofs - g.csize.toNat * 512) next) := fun next =>
      Keeps.ite (keeps_pure _) (Keeps.bind (keeps_failIf _) fun _ => Keeps.bind (keeps_failIf _) fun _ =>
        Keeps.bind (hP.modifyFil fun _ => ⟨rfl, rfl, rfl, rfl, rfl, Or.inl rfl⟩) fun _ => ih _ _)
    exact Keeps.ite (Keeps.bind (hP.modifyFil fun _ => ⟨rfl, rfl, rfl, rfl, rfl, Or.inl rfl⟩) fun _ =>
      Keeps.ite ((hP.newCluster g clst).bind hrest) ((hP.readFat g clst).bind hrest)) (keeps_pure _)

omit [DiskIo δ] in
theorem Calm.seekInside (g : Geometry) (ofs : ℕ) (clst : BitVec 32) : Keeps P (seekInside g ofs clst) :=
  Keeps.bind (hP.modifyFil fun _ => ⟨rfl, rfl, rfl, rfl, rfl, Or.inl rfl⟩) fun _ =>
    Keeps.ite (Keeps.bind (keeps_failIf _) fun _ => keeps_pure _) (keeps_pure _)

theorem Calm.seekAlong (g : Geometry) (ifptr : BitVec 32) (ofs : ℕ) : Keeps P (seekAlong g ifptr ofs) :=
  Keeps.get_bind fun _ _ => Keeps.bind (hP.seekStart g ifptr ofs) fun _ =>
    Keeps.ite (Keeps.bind (hP.seekLoop g _ _ _ _) fun _ => hP.seekInside g _ _) (keeps_pure _)

theorem Calm.seekBody (g : Geometry) (ofs : BitVec 32) : Keeps P (seekBody g ofs) := by
  have hrest : ∀ nsect, Keeps P (do
      Stream.modifyFil fun f =>
        if f.fptr > f.obj.objsize then
          { f with obj := { f.obj with objsize := f.fptr }, flag := f.flag ||| faModified }
        else f
      let s ← get
      onlyIf (s.fil.fptr.toNat % 512 ≠ 0) (Stream.seize nsect)) := fun nsect => by
    refine Keeps.bind (hP.modifyFil fun f => ?_) fun _ => Keeps.get_bind fun _ _ => (hP.seize nsect).onlyIf
    split
    · exact ⟨rfl, rfl, rfl, rfl, rfl, Or.inr (Or.inr rfl)⟩
    · exact ⟨rfl, rfl, rfl, rfl, rfl, Or.inl rfl⟩
  exact Keeps.get_bind fun _ _ =>
    Keeps.bind (hP.modifyFil fun _ => ⟨rfl, rfl, rfl, rfl, rfl, Or.inl rfl⟩) fun _ =>
      Keeps.ite ((hP.seekAlong g _ _).bind hrest) (Keeps.bind (keeps_pure _) hrest)

/-! ### Truncating -/

theorem Calm.cutBehind (g : Geometry) : Keeps P (cutBehind g) :=
  Keeps.get_bind fun _ _ => Keeps.ite
    (Keeps.bind (hP.dropChain g _ _) fun _ =>
      Keeps.bind (hP.modifyFil fun _ => ⟨rfl, rfl, rfl, rfl, rfl, Or.inl rfl⟩) fun _ => keeps_pure _)
    (Keeps.bind (hP.readFat g _) fun _ => Keeps.ite (keeps_pure _) (Keeps.ite (keeps_pure _)
      (Keeps.ite (hP.dropChain g _ _) (keeps_pure _))))

theorem Calm.truncateBody (g : Geometry) : Keeps P (truncateBody g) :=
  Keeps.get_bind fun _ _ => Keeps.onlyIf (Keeps.bind (hP.cutBehind g) fun _ =>
    Keeps.bind (hP.modifyFil fun _ => ⟨rfl, rfl, rfl, rfl, rfl, Or.inr (Or.inr rfl)⟩) fun _ =>
      Keeps.ite hP.flush (keeps_throw _))

/-! ### Writing -/

omit [DiskIo δ] in
theorem Calm.keepCluster (clst : BitVec 32) : Keeps P (keepCluster clst) :=
  Keeps.ite (keeps_pure _) (Keeps.bind (keeps_failIf _) fun _ => Keeps.bind (keeps_failIf _) fun _ =>
    Keeps.bind (hP.modifyFil fun _ => ⟨rfl, rfl, rfl, rfl, rfl, Or.inl rfl⟩) fun _ => keeps_pure _)

theorem Calm.writeCluster (g : Geometry) : Keeps P (writeCluster g) :=
  Keeps.get_bind fun _ _ => Keeps.ite
    (Keeps.ite (Keeps.bind (hP.newCluster g _) fun _ => hP.keepCluster _)
      (Keeps.bind (keeps_pure _) fun _ => hP.keepCluster _))
    (Keeps.bind (hP.newCluster g _) fun _ => hP.keepCluster _)

theorem Calm.writeDirect (data : List (BitVec 8)) (sect : BitVec 32) (cc : ℕ) :
    Keeps P (writeDirect data sect cc) := by
  refine hP.withVol fun _ => Keeps.bind (keeps_failIf _) fun _ => Keeps.bind (Keeps.onlyIf ?_) fun _ =>
    keeps_pure _
  exact hP.modifyFil fun _ => ⟨rfl, rfl, rfl, rfl, rfl, Or.inr (Or.inl rfl)⟩

theorem Calm.seizeGrowing (sect : BitVec 32) : Keeps P (seizeGrowing sect) :=
  Keeps.get_bind fun _ _ => Keeps.bind (Keeps.onlyIf (hP.load sect)) fun _ =>
    hP.modifyFil fun _ => ⟨rfl, rfl, rfl, rfl, rfl, Or.inl rfl⟩

variable (hdirty : ∀ s buf, P s →
  P { s with fil := { s.fil with buf := buf, flag := s.fil.flag ||| faDirty } })

include hdirty

omit [DiskIo δ] in
omit hP in
theorem keeps_writePart (data : List (BitVec 8)) : Keeps P (writePart data) :=
  Keeps.get_bind fun _ _ => Keeps.bind (keeps_modify fun s hs => hdirty s _ hs) fun _ => keeps_pure _

theorem Calm.writeSector (g : Geometry) (data : List (BitVec 8)) : Keeps P (writeSector g data) :=
  hP.flush.bind fun _ => Keeps.get_bind fun _ _ => (keeps_sectorHere g).bind fun sect =>
    Keeps.ite (hP.writeDirect data sect _) (Keeps.bind (hP.seizeGrowing sect) fun _ =>
      keeps_writePart hdirty data)

theorem Calm.writeStep (g : Geometry) (data : List (BitVec 8)) : Keeps P (writeStep g data) := by
  have hrest : ∀ room : Bool, Keeps P (if room then some <$> Stream.writeSector g data else pure none) :=
    fun _ => Keeps.ite ((hP.writeSector hdirty g data).map _) (keeps_pure _)
  exact Keeps.get_bind fun _ _ => Keeps.ite
    (Keeps.ite (Keeps.bind (hP.writeCluster g) hrest) (Keeps.bind (keeps_pure _) hrest))
    ((keeps_writePart hdirty data).map _)

theorem Calm.writeLoop (g : Geometry) (fuel : ℕ) (data : List (BitVec 8)) :
    Keeps P (writeLoop g fuel data) := by
  induction fuel generalizing data with
  | zero => exact keeps_pure _
  | succ fuel ih =>
    refine Keeps.ite (keeps_pure _) (Keeps.bind (hP.writeStep hdirty g data) fun wcnt => ?_)
    cases wcnt with
    | none => exact keeps_pure _
    | some wcnt =>
      exact Keeps.bind
        (keeps_modify fun s hs => hP.quiet s _ hs ⟨rfl, rfl, rfl, rfl, rfl, Or.inl rfl⟩) fun _ => ih _

theorem Calm.writeBody (g : Geometry) (data : List (BitVec 8)) : Keeps P (writeBody g data) :=
  Keeps.get_bind fun _ _ => Keeps.bind (hP.writeLoop hdirty g _ _) fun _ =>
    hP.modifyFil fun _ => ⟨rfl, rfl, rfl, rfl, rfl, Or.inr (Or.inr rfl)⟩

end Calm

/-! ### The two properties -/

/-- A buffer that is to be written back belongs to a file that is marked as modified. -/
def Marked (s : FileState δ) : Prop := has s.fil.flag faDirty = true → s.fil.modified = true

omit [DiskIo δ] in
theorem calm_marked : Calm (Marked (δ := δ)) := ⟨fun s s' hs hquiet hd => by
  rw [OpenFil.modified]
  rcases hquiet.flag with heq | heq | heq
  · rw [heq] at hd ⊢
    exact hs hd
  · rw [heq, has_and_not_self] at hd
    cases hd
  · rw [heq]
    exact has_or_faModified _⟩

omit [DiskIo δ] in
theorem calm_handle (o : Handle) : Calm fun s : FileState δ => s.fil.handle = o := ⟨fun s s' hs hquiet => by
  rw [← hs, OpenFil.handle, OpenFil.handle, hquiet.err, hquiet.fs, hquiet.id, hquiet.dirSect, hquiet.dirPtr]
  rcases hquiet.flag with heq | heq | heq <;> rw [heq] <;>
    simp (disch := decide) only [has_and_not, has_or]⟩

end Stream

end FatFs

end BareMetal
