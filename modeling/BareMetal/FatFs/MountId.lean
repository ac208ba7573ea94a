import BareMetal.FatFs.File

/-!
# Mount IDs

FatFs does not keep track of the objects that are open on a volume. It numbers the mounts: a
volume gets the next number when it is mounted, an object takes over the number of its volume
when it is opened, and `validate` compares the two. An object that was opened before its volume
was mounted again is refused by its number, and one whose volume has been taken away by the type
of that volume, which is then zero.

What a call does to the numbers is `BareMetal.FatFs.Renews`: the volumes it has mounted or taken
away have type zero or a number above all earlier ones, and the others are as they were. The
number has 16 bits; a mount after the last of them would begin again, and meet objects that are
still held (`BareMetal.FatFs.validate_of_wrap`).
-/

namespace BareMetal

namespace FatFs

/-- The object that is registered for the volume of a path. -/
def volumeOf (v : Volumes) (path : Path) : Option FsPtr := (getLdnumber v path).bind v.fatFs

/-- `find_volume` has to mount the volume of an object: it is not mounted, or its drive has lost
its medium. -/
def unmounted (v : Volumes) (p : FsPtr) : Bool :=
  (v.fatfs p).fsType == 0 || has (v.status (v.fatfs p).pdrv) staNoinit

/-- **What a call does to the mount IDs**, with the volumes `P` that it mounts or takes away. -/
structure Renews (P : FsPtr → Prop) (v w : Volumes) : Prop where
  fsid_le : v.fsid.toNat ≤ w.fsid.toNat
  id_le : ∀ p, (w.fatfs p).id.toNat ≤ max w.fsid.toNat (v.fatfs p).id.toNat
  same : ∀ p, ¬P p → w.fatfs p = v.fatfs p
  renewed : ∀ p, P p → (w.fatfs p).fsType = 0 ∨ v.fsid.toNat < (w.fatfs p).id.toNat

section Renews

variable {P Q : FsPtr → Prop} {u v w : Volumes}

theorem Renews.refl (v : Volumes) : Renews (fun _ => False) v v where
  fsid_le := Nat.le_refl _
  id_le _ := Nat.le_max_right _ _
  same _ _ := rfl
  renewed _ h := h.elim

theorem Renews.congr (h : Renews P v w) (hPQ : ∀ p, P p ↔ Q p) : Renews Q v w where
  fsid_le := h.fsid_le
  id_le := h.id_le
  same p hp := h.same p fun hP => hp ((hPQ p).mp hP)
  renewed p hp := h.renewed p ((hPQ p).mpr hp)

/-- Two calls, one after the other. -/
theorem Renews.trans (huv : Renews P u v) (hvw : Renews Q v w) :
    Renews (fun p => P p ∨ Q p) u w where
  fsid_le := Nat.le_trans huv.fsid_le hvw.fsid_le
  id_le p := by
    have hfirst := huv.id_le p
    have hsecond := hvw.id_le p
    have hfsid := hvw.fsid_le
    omega
  same p hp := by
    rw [hvw.same p fun hQ => hp (Or.inr hQ), huv.same p fun hP => hp (Or.inl hP)]
  renewed p hp := by
    by_cases hQ : Q p
    · refine (hvw.renewed p hQ).imp_right fun hlt => ?_
      exact Nat.lt_of_le_of_lt huv.fsid_le hlt
    · rw [hvw.same p hQ]
      exact huv.renewed p (hp.resolve_right hQ)

/-- Taking a volume away. -/
theorem clearFs_renews (v : Volumes) (fs : Option FsPtr) :
    Renews (fun p => fs = some p) v (v.clearFs fs) := by
  cases fs with
  | none =>
    exact (Renews.refl v).congr fun p => by simp
  | some q =>
    refine ⟨Nat.le_refl _, fun p => ?_, fun p hp => ?_, fun p hp => ?_⟩
    · by_cases hpq : p = q
      · subst hpq
        simp only [Volumes.clearFs, setFs_self]
        exact Nat.le_max_right _ _
      · simp only [Volumes.clearFs, setFs_of_ne hpq]
        exact Nat.le_max_right _ _
    · simp only [Volumes.clearFs, setFs_of_ne (fun h => hp (congrArg some h.symm))]
    · obtain rfl := Option.some.inj hp
      refine Or.inl ?_
      simp only [Volumes.clearFs, setFs_self]

/-- An attempt to mount a volume leaves it not mounted, or gives it the next number. -/
theorem mountVolume_fatfs (v : Volumes) (p : FsPtr) (vol : Fin ffVolumes) (write : Bool)
    (io : MountIo) :
    let w := (mountVolume v p vol write io).2.2
    (∀ q ≠ p, w.fatfs q = v.fatfs q) ∧
      ((w.fsid = v.fsid ∧ (w.fatfs p).fsType = 0 ∧ (w.fatfs p).id = (v.fatfs p).id) ∨
        (w.fsid = v.fsid + 1#16 ∧ (w.fatfs p).id = v.fsid + 1#16)) := by
  unfold mountVolume
  dsimp only
  have hself : ∀ fs : Fatfs, (v.setFs p fs).fatfs p = fs := setFs_self v p
  have hother : ∀ (fs : Fatfs) (q : FsPtr), q ≠ p → (v.setFs p fs).fatfs q = v.fatfs q :=
    fun fs q hq => setFs_of_ne hq v fs
  split
  · exact ⟨hother _, Or.inl ⟨rfl, by rw [hself], by rw [hself]⟩⟩
  · split
    · exact ⟨hother _, Or.inl ⟨rfl, by rw [hself], by rw [hself]⟩⟩
    · split
      · exact ⟨hother _, Or.inl ⟨rfl, by rw [hself], by rw [hself]⟩⟩
      · exact ⟨hother _, Or.inl ⟨rfl, by rw [hself], by rw [hself]⟩⟩
      · refine ⟨fun q hq => ?_, Or.inr ⟨rfl, ?_⟩⟩
        · simp only [Volumes.setFs, Function.update_of_ne hq]
        · simp only [Volumes.setFs, Function.update_self]

/-- As long as the numbers last, the next one is new. -/
theorem mountVolume_renews (hwrap : v.fsid ≠ 0xFFFF#16) (p : FsPtr) (vol : Fin ffVolumes)
    (write : Bool) (io : MountIo) :
    Renews (fun q => q = p) v (mountVolume v p vol write io).2.2 := by
  obtain ⟨hother, hmount⟩ := mountVolume_fatfs v p vol write io
  have hnext : (v.fsid + 1#16).toNat = v.fsid.toNat + 1 := by
    have hlt := v.fsid.isLt
    have hne : v.fsid.toNat ≠ 0xFFFF := fun hcon => hwrap (BitVec.eq_of_toNat_eq hcon)
    rw [BitVec.toNat_add, BitVec.toNat_ofNat]
    omega
  generalize (mountVolume v p vol write io).2.2 = w at hother hmount
  have hid : ∀ q ≠ p, (w.fatfs q).id.toNat ≤ max w.fsid.toNat (v.fatfs q).id.toNat := by
    intro q hq
    rw [hother q hq]
    exact Nat.le_max_right _ _
  rcases hmount with ⟨hfsid, htype, hsame⟩ | ⟨hfsid, hnew⟩
  · refine ⟨by rw [hfsid], fun q => ?_, fun q hq => hother q hq, ?_⟩
    · by_cases hq : q = p
      · rw [hq, hsame]
        exact Nat.le_max_right _ _
      · exact hid q hq
    · rintro q rfl
      exact Or.inl htype
  · refine ⟨by rw [hfsid, hnext]; omega, fun q => ?_, fun q hq => hother q hq, ?_⟩
    · by_cases hq : q = p
      · rw [hq, hnew, ← hfsid]
        exact Nat.le_max_left _ _
      · exact hid q hq
    · rintro q rfl
      rw [hnew, hnext]
      exact Or.inr (Nat.lt_succ_self _)

/-- `find_volume` mounts the volume of its path, if that has to be done. -/
theorem findVolume_renews (hwrap : v.fsid ≠ 0xFFFF#16) (path : Path) (mode : BitVec 8)
    (io : MountIo) :
    Renews (fun p => volumeOf v path = some p ∧ unmounted v p = true) v
      (findVolume v path mode io).2.2 := by
  unfold findVolume
  split
  · rename_i hvol
    exact (Renews.refl v).congr fun p => by simp [volumeOf, hvol]
  rename_i vol hvol
  split
  · rename_i hfs
    exact (Renews.refl v).congr fun p => by simp [volumeOf, hvol, hfs]
  rename_i p hp
  have hfound : ∀ q, volumeOf v path = some q ↔ q = p := by
    intro q
    simp [volumeOf, hvol, hp, eq_comm]
  have hmount : ∀ write, unmounted v p = true →
      Renews (fun q => volumeOf v path = some q ∧ unmounted v q = true) v
        (mountVolume v p vol write io).2.2 := by
    intro write hun
    refine (mountVolume_renews hwrap p vol write io).congr fun q => ?_
    rw [hfound q]
    constructor
    · rintro rfl
      exact ⟨rfl, hun⟩
    · exact And.left
  dsimp only
  split
  · rename_i htype
    split
    · rename_i hstat
      refine (Renews.refl v).congr fun q => ?_
      rw [hfound q]
      simp only [Bool.not_eq_true'] at hstat
      constructor
      · exact False.elim
      · rintro ⟨rfl, hun⟩
        simp [unmounted, htype, hstat] at hun
    · rename_i hstat
      simp only [Bool.not_eq_true', Bool.not_eq_false] at hstat
      exact hmount _ (by simp [unmounted, hstat])
  · rename_i htype
    exact hmount _ (by simp [unmounted, not_not.mp htype])

theorem getLdnumber_congr (h : u.currVol = v.currVol) (path : Path) :
    getLdnumber u path = getLdnumber v path := by
  cases path with
  | none => rfl
  | some path => simp only [getLdnumber, h]

theorem clearFs_fields (v : Volumes) (fs : Option FsPtr) :
    (v.clearFs fs).fsid = v.fsid ∧ (v.clearFs fs).currVol = v.currVol := by
  cases fs <;> exact ⟨rfl, rfl⟩

/-- `f_mount` takes away the volume of its path and the object it is given, and may mount that
again. -/
theorem fMount_renews (hwrap : v.fsid ≠ 0xFFFF#16) (fs : Option FsPtr) (path : Path) (opt : Bool)
    (io : MountIo) :
    Renews (fun p => (getLdnumber v path).isSome = true ∧ (volumeOf v path = some p ∨ fs = some p))
      v (fMount v fs path opt io).2.2 := by
  unfold fMount
  cases hvol : getLdnumber v path with
  | none => exact (Renews.refl v).congr fun p => by simp
  | some vol =>
    have hcleared := (clearFs_renews v (v.fatFs vol)).trans
      (clearFs_renews (v.clearFs (v.fatFs vol)) fs)
    have htouched : ∀ p, (v.fatFs vol = some p ∨ fs = some p) ↔
        ((some vol).isSome = true ∧ (volumeOf v path = some p ∨ fs = some p)) := by
      intro p
      simp [volumeOf, hvol]
    dsimp only
    set u := { (v.clearFs (v.fatFs vol)).clearFs fs with
      fatFs := Function.update ((v.clearFs (v.fatFs vol)).clearFs fs).fatFs vol fs } with hu
    have hregistered : Renews (fun p => v.fatFs vol = some p ∨ fs = some p) v u :=
      ⟨hcleared.fsid_le, hcleared.id_le, hcleared.same, hcleared.renewed⟩
    split
    · have hfsid : u.fsid ≠ 0xFFFF#16 := by
        show ((v.clearFs (v.fatFs vol)).clearFs fs).fsid ≠ _
        rw [(clearFs_fields _ _).1, (clearFs_fields _ _).1]
        exact hwrap
      have hcurr : u.currVol = v.currVol := by
        show ((v.clearFs (v.fatFs vol)).clearFs fs).currVol = _
        rw [(clearFs_fields _ _).2, (clearFs_fields _ _).2]
      have hfound : volumeOf u path = fs := by
        rw [volumeOf, getLdnumber_congr hcurr, hvol]
        exact Function.update_self _ _ _
      refine (hregistered.trans (findVolume_renews hfsid path 0#8 io)).congr fun p => ?_
      rw [← htouched p, hfound]
      constructor
      · rintro (h | ⟨h, -⟩)
        · exact h
        · exact Or.inr h
      · exact Or.inl
    · exact hregistered.congr htouched

end Renews

/-! ### Objects of earlier mounts -/

/-- The volume `find_volume` finds is the one of its path. -/
theorem findVolume_volumeOf {v : Volumes} {path : Path} {mode : BitVec 8} {io : MountIo}
    {p : FsPtr} (h : (findVolume v path mode io).1.2 = some p) : volumeOf v path = some p := by
  rcases findVolume_inv v path mode io with ⟨res, -, -, heq⟩ |
    ⟨vol, q, hvol, hq, ⟨res, -, -, heq⟩ | ⟨write, asked, -, heq⟩⟩
  · rw [heq] at h
    exact absurd h.symm (Option.some_ne_none p)
  · rw [heq] at h
    rw [volumeOf, hvol, Option.bind_some, hq]
    exact h
  · rw [heq] at h
    rw [volumeOf, hvol, Option.bind_some, hq]
    exact h

/-- **An open** leaves a blank object blank, or makes it one of the volume of its path, with the
number that volume has. -/
theorem fOpen_object {v : Volumes} {fil : Fil} (hblank : fil.obj.fs = none) (path : Path)
    (mode : BitVec 8) (io : OpenIo) {r : FResult × Fil × Volumes}
    (hr : fOpen v fil path mode io = r) :
    (r.1 = .ok ∧ ∃ p, volumeOf v path = some p ∧ r.2.1.obj.fs = some p ∧
      r.2.1.obj.id = (r.2.2.fatfs p).id) ∨ (r.1 ≠ .ok ∧ r.2.1.obj.fs = none) := by
  subst hr
  rcases fOpen_fs (v := v) hblank path mode io with ⟨hok, -⟩ | hfailed
  · obtain ⟨p, calls, w, hfind, -, -, -, hfil⟩ := fOpen_ok_imp hok
    refine Or.inl ⟨hok, p, findVolume_volumeOf (by rw [hfind]), ?_⟩
    rw [hfil, (openAt_fields _ _ _ _).1]
    exact ⟨rfl, rfl⟩
  · exact Or.inr hfailed

/-- An object whose volume has been taken away or mounted again is refused. -/
theorem validate_of_stale {v : Volumes} {obj : FfObjId}
    (h : ∀ p, obj.fs = some p → (v.fatfs p).fsType = 0 ∨ obj.id ≠ (v.fatfs p).id) :
    validate v obj = .invalidObject := by
  unfold validate
  split
  · rfl
  · rename_i p hp
    refine if_neg ?_
    rintro ⟨htype, hid, -⟩
    rcases h p hp with hzero | hne
    · exact htype hzero
    · exact hne hid

/-- **The numbers begin again**: an object that holds the number after the last one is taken for
one of the new mount. -/
theorem validate_of_wrap {v : Volumes} {p : FsPtr} {vol : Fin ffVolumes} {write : Bool}
    {io : MountIo} {obj : FfObjId} (hfs : obj.fs = some p) (hid : obj.id = v.fsid + 1#16)
    (hok : (mountVolume v p vol write io).1 = .ok) :
    validate (mountVolume v p vol write io).2.2 obj = .ok := by
  obtain ⟨hinit, hprotect, kind, hkind⟩ := mountVolume_ok_iff.mp hok
  simp [validate, hfs, hid, mountVolume, hinit, hprotect, hkind, Volumes.setFs,
    Function.update_self]

end FatFs

end BareMetal
