import BareMetal.FatFs.Outcomes
import BareMetal.FatFs.Seek

/-!
# How a seek ends

`BareMetal.FatFs.seekIo` follows `f_lseek` along the chain of a file with the answers of `create_chain` and
`get_fat` as an input. On the volume these answers are computed, and **a seek there is a seek with some
answers** (`BareMetal.FatFs.Stream.seekBody_ending`), in a volume of that geometry and from the cluster and
the sector where the file is (`BareMetal.FatFs.Stream.Meets`). So where a seek gets to, and when it fails, is
known on the volume as well (`BareMetal.FatFs.Stream.fLseek_ending`).

The answers are read off the run. The loop along the chain gives them from the state it starts in
(`BareMetal.FatFs.Stream.seekLoop_ends`); what is asked of the disk later, to write the buffer back and to
load it, does not disturb them, and is added at the end (`BareMetal.FatFs.Stream.seekTail_ending`). The two
loops run on different counters, both large enough (`BareMetal.FatFs.Stream.followChain_fuel`).
-/

namespace BareMetal

namespace FatFs

namespace Stream

variable {δ : Type} [DiskIo δ]

/-! ### Two seeks side by side -/

/-- What a seek meets is **of this volume**. -/
structure OfVolume (g : Geometry) (env : SeekEnv) : Prop where
  bcs : env.bcs = g.csize.toNat * 512
  nFatent : env.nFatent = g.nFatent
  clst2sect : ∀ c, env.clst2sect c = clst2sect g c

/-- The object is as it was, at another position, and the buffer holds the sector it held. -/
structure MovedTo (o : Fil) (sect : BitVec 32) (p : ℕ) (s : FileState δ) : Prop where
  obj : s.fil.obj = o.obj
  flag : s.fil.flag = o.flag
  err : s.fil.err = o.err
  fptr : s.fil.fptr = BitVec.ofNat 32 p
  sect : s.fil.sect = sect
  moved : s.moved = []

/-- The loop along the chain has ended the same way. -/
def SameEnd (o : Fil) (sect : BitVec 32) (r : Except InnerResult (ℕ × BitVec 32)) (s : FileState δ) :
    FollowEnd → Prop
  | .reached ofs p clst => r = .ok (ofs, clst) ∧ MovedTo o sect p s
  | .full p => r = .ok (0, 0#32) ∧ MovedTo o sect p s
  | .abort e p => r = .error e ∧ MovedTo o sect p s

/-- The seek has got to the same place. -/
def SamePlace (o : Fil) (sect : BitVec 32) (r : Except InnerResult (BitVec 32)) (s : FileState δ)
    (p : SeekPos) : Prop :=
  r = (match p.abort with
    | none => .ok p.nsect
    | some e => .error e) ∧
  MovedTo { o with obj := { o.obj with sclust := p.sclust } } sect p.fptr s

section Seek

variable {g : Geometry} {o : Fil} {sect : BitVec 32} {s : FileState δ}

omit [DiskIo δ] in
theorem MovedTo.toFil_eq {p : ℕ} (h : MovedTo o sect p s) :
    s.fil.toFil = ⟨o.obj, o.flag, o.err, BitVec.ofNat 32 p⟩ := by
  rw [← h.obj, ← h.flag, ← h.err, ← h.fptr]

omit [DiskIo δ] in
theorem MovedTo.step {p : ℕ} (h : MovedTo o sect p s) (n : ℕ) (vol : Vol δ) (clst : BitVec 32) :
    MovedTo o sect (p + n)
      { s with vol := vol, fil := { s.fil with fptr := s.fil.fptr + BitVec.ofNat 32 n, clust := clst } } :=
  ⟨h.obj, h.flag, h.err, by rw [BitVec.ofNat_add, ← h.fptr], h.sect, h.moved⟩

/-! ### The way along the chain -/

/-- A round of the loop: the position moves on, and the volume answers. -/
theorem seekLoop_succ (g : Geometry) (writable : Bool) (fuel : ℕ) {ofs : ℕ} (clst : BitVec 32)
    (s : FileState δ) (hlong : ofs > g.csize.toNat * 512) : ∃ x vol, ∀ Q E,
      Ends (seekLoop g writable (fuel + 1) ofs clst) s Q E ↔
        Ends (if writable = true ∧ x = 0#32 then pure (0, 0#32)
          else do
            failIf (x = 0xFFFFFFFF#32) .diskErr
            failIf (x ≤ 1#32 ∨ x ≥ g.nFatent) .intErr
            modifyFil fun f => { f with clust := x }
            seekLoop g writable fuel (ofs - g.csize.toNat * 512) x)
          { s with
            vol := vol
            fil := { s.fil with fptr := s.fil.fptr + BitVec.ofNat 32 (g.csize.toNat * 512) } } Q E := by
  cases writable with
  | true =>
    refine ⟨(createChain g s.vol clst).1, (createChain g s.vol clst).2, fun Q E => ?_⟩
    rw [seekLoop, if_pos hlong]
    exact Iff.rfl
  | false =>
    refine ⟨(getFat g s.vol.window clst).1, { s.vol with window := (getFat g s.vol.window clst).2 },
      fun Q E => ?_⟩
    rw [seekLoop, if_pos hlong]
    exact Iff.rfl

/-- **The loop along the chain** ends as the one that is given the answers, for the answers that the volume
gives. -/
theorem seekLoop_ends (g : Geometry) (writable : Bool) (fuel ofs : ℕ) {p : ℕ} (clst : BitVec 32)
    (h : MovedTo o sect p s) : ∃ next : ℕ → BitVec 32, ∀ env, OfVolume g env → ∀ i,
      (∀ j, env.next (i + j) = next j) →
        Ends (seekLoop g writable fuel ofs clst) s
          (fun r s' => SameEnd o sect (.ok r) s' (followChain env writable fuel i ofs p clst))
          fun e s' => SameEnd o sect (.error e) s' (followChain env writable fuel i ofs p clst) := by
  induction fuel generalizing ofs p clst s with
  | zero => exact ⟨fun _ => 0#32, fun env _ i _ => ⟨rfl, h⟩⟩
  | succ fuel ih =>
    by_cases hlong : ofs > g.csize.toNat * 512
    · obtain ⟨x, vol, hround⟩ := seekLoop_succ g writable fuel clst s hlong
      obtain ⟨next, hrest⟩ := ih (ofs - g.csize.toNat * 512) x (h.step (g.csize.toNat * 512) vol x)
      -- the first answer is that of this round
      refine ⟨fun j => j.casesOn x next, fun env henv i hnext => ?_⟩
      have hfirst : env.next i = x := hnext 0
      have hlater : ∀ j, env.next (i + 1 + j) = next j := by
        intro j
        rw [Nat.add_assoc, Nat.add_comm 1]
        exact hnext (j + 1)
      have hhere := h.step (g.csize.toNat * 512) vol s.fil.clust
      rw [hround, followChain, henv.bcs, if_pos hlong, hfirst, henv.nFatent]
      split
      · exact ⟨rfl, hhere⟩
      · simp only [ends_bind, ends_failIf, modifyFil, ends_modify]
        refine ⟨fun hbad => ?_, fun hgood => ⟨fun hbad => ?_, fun hin => ?_⟩⟩
        · rw [if_pos hbad]
          exact ⟨rfl, hhere⟩
        · rw [if_neg hgood, if_pos hbad]
          exact ⟨rfl, hhere⟩
        · rw [if_neg hgood, if_neg hin]
          exact hrest env henv (i + 1) hlater
    · refine ⟨fun _ => 0#32, fun env henv i _ => ?_⟩
      rw [seekLoop, if_neg hlong, followChain, henv.bcs, if_neg hlong]
      exact ⟨rfl, h⟩

/-- A counter that is large enough is as good as another. -/
theorem followChain_fuel (env : SeekEnv) (writable : Bool) {fuel fuel' : ℕ} (i : ℕ) {ofs : ℕ} (p : ℕ)
    (clst : BitVec 32) (hfuel : ofs ≤ (fuel + 1) * env.bcs) (hfuel' : ofs ≤ (fuel' + 1) * env.bcs) :
    followChain env writable fuel i ofs p clst = followChain env writable fuel' i ofs p clst := by
  induction fuel generalizing fuel' i ofs p clst with
  | zero =>
    have hshort : ¬ofs > env.bcs := by omega
    cases fuel' with
    | zero => rfl
    | succ fuel' => rw [followChain, followChain, if_neg hshort]
  | succ fuel ih =>
    cases fuel' with
    | zero =>
      have hshort : ¬ofs > env.bcs := by omega
      rw [followChain, followChain, if_neg hshort]
    | succ fuel' =>
      rw [Nat.succ_mul] at hfuel hfuel'
      have hrest : followChain env writable fuel (i + 1) (ofs - env.bcs) (p + env.bcs) (env.next i) =
          followChain env writable fuel' (i + 1) (ofs - env.bcs) (p + env.bcs) (env.next i) :=
        ih _ _ _ (by omega) (by omega)
      rw [followChain, followChain, hrest]

omit [DiskIo δ] in
/-- The rest of the way, inside a cluster. -/
theorem seekInside_ends {env : SeekEnv} (henv : OfVolume g env) {p : ℕ} (h : MovedTo o sect p s) (ofs : ℕ)
    (clst : BitVec 32) :
    let place : SeekPos :=
      if ofs % sectorSize = 0 then ⟨none, false, p + ofs, 0#32, o.obj.sclust⟩
      else if env.clst2sect clst = 0#32 then ⟨some .intErr, false, p + ofs, 0#32, o.obj.sclust⟩
      else ⟨none, false, p + ofs, env.clst2sect clst + BitVec.ofNat 32 (ofs / sectorSize), o.obj.sclust⟩
    Ends (seekInside g ofs clst) s (fun r s' => SamePlace o sect (.ok r) s' place)
      fun e s' => SamePlace o sect (.error e) s' place := by
  have hhere := h.step ofs s.vol s.fil.clust
  simp only [seekInside, modifyFil, ends_bind, ends_modify, henv.clst2sect]
  by_cases hboundary : ofs % 512 = 0
  · rw [if_neg (not_not_intro hboundary), if_pos hboundary]
    exact ⟨rfl, hhere⟩
  · rw [if_pos hboundary, if_neg hboundary]
    simp only [ends_bind, ends_failIf, ends_pure]
    refine ⟨fun hnone => ?_, fun hsome => ?_⟩
    · rw [if_pos hnone]
      exact ⟨rfl, hhere⟩
    · rw [if_neg hsome]
      exact ⟨rfl, hhere⟩

/-- **The way from a cluster on.** -/
theorem seekChain_ends (g : Geometry) (writable : Bool) {fuel ofs : ℕ} {p : ℕ} (clst : BitVec 32)
    (h : MovedTo o sect p s) (hfuel : ofs ≤ (fuel + 1) * (g.csize.toNat * 512)) :
    ∃ next : ℕ → BitVec 32, ∀ env, OfVolume g env → env.next = next →
      Ends (if clst ≠ 0#32 then do
          let stop ← seekLoop g writable fuel ofs clst
          seekInside g stop.1 stop.2
        else pure 0#32) s
        (fun r s' => SamePlace o sect (.ok r) s' (seekChain env writable o.obj.sclust ofs p clst))
        fun e s' => SamePlace o sect (.error e) s' (seekChain env writable o.obj.sclust ofs p clst) := by
  obtain ⟨next, hloop⟩ := seekLoop_ends g writable fuel ofs clst h
  refine ⟨next, fun env henv hnext => ?_⟩
  by_cases hclst : clst = 0#32
  · rw [if_neg (not_not_intro hclst), seekChain, if_pos hclst]
    exact ⟨rfl, h⟩
  · -- on the volume the counter is that of the whole way, here that of the rest
    have hdiv : ofs ≤ (ofs / env.bcs + 1) * env.bcs :=
      (Nat.lt_mul_div_succ ofs env.bcs_pos).le.trans_eq (Nat.mul_comm _ _)
    rw [if_pos hclst, seekChain, if_neg hclst,
      followChain_fuel env writable 0 p clst hdiv (henv.bcs ▸ hfuel)]
    refine (hloop env henv 0 fun j => by rw [hnext, Nat.zero_add]).bind (fun r s' hs' => ?_)
      fun e s' hs' => ?_
    · generalize followChain env writable fuel 0 ofs p clst = fe at hs'
      cases fe with
      | reached left q c =>
        obtain ⟨hr, hmoved⟩ := hs'
        cases hr
        exact seekInside_ends henv hmoved left c
      | full q =>
        -- nothing is left to go then
        obtain ⟨hr, hmoved⟩ := hs'
        cases hr
        exact ⟨rfl, hmoved.step 0 s'.vol s'.fil.clust⟩
      | abort e q => cases hs'.1
    · generalize followChain env writable fuel 0 ofs p clst = fe at hs'
      cases fe with
      | reached o' q c => cases hs'.1
      | full q => cases hs'.1
      | abort e' q =>
        obtain ⟨hr, hmoved⟩ := hs'
        cases hr
        exact ⟨rfl, hmoved⟩

/-- The position of the cluster that a position is in, or ends. -/
theorem clusterStart_eq (l : Layout) {fptr : BitVec 32} (hpos : fptr.toNat > 0) :
    (fptr - 1#32) &&& ~~~(BitVec.ofNat 32 (l.csize.toNat * 512) - 1#32) =
      BitVec.ofNat 32 ((fptr.toNat - 1) / (l.csize.toNat * 512) * (l.csize.toNat * 512)) := by
  have hlt := fptr.isLt
  have hsub : (fptr - 1#32).toNat = fptr.toNat - 1 := BitVec.toNat_sub_of_le (BitVec.le_def.mpr hpos)
  have hle := Nat.div_mul_le_self (fptr.toNat - 1) (l.csize.toNat * 512)
  apply BitVec.eq_of_toNat_eq
  rw [toNat_clusterStart, hsub, Nat.div_div_eq_div_mul, Nat.mul_comm 512, BitVec.toNat_ofNat,
    Nat.mod_eq_of_lt (by omega)]

/-- **The whole way** to a position, for the answers that the volume gives. -/
theorem seekAlong_ends (l : Layout) {ofs : ℕ} (h : MovedTo o sect 0 s) (hpos : 0 < ofs) :
    ∃ newChain next, ∀ env, OfVolume l.toGeometry env → env.clust = s.fil.clust → env.newChain = newChain →
      env.next = next → Ends (seekAlong l.toGeometry o.fptr ofs) s
        (fun r s' => SamePlace o sect (.ok r) s' (seekPos o env ofs))
        fun e s' => SamePlace o sect (.error e) s' (seekPos o env ofs) := by
  have hne : ¬ofs = 0 := by omega
  have hbytes : 0 < l.csize.toNat * 512 := Nat.mul_pos (csize_pos l) (by decide)
  have hfuel : ofs ≤ (ofs / (l.csize.toNat * 512) + 1) * (l.csize.toNat * 512) :=
    (Nat.lt_mul_div_succ ofs hbytes).le.trans_eq (Nat.mul_comm _ _)
  simp only [seekAlong, seekStart, ends_bind, ends_get, h.flag]
  by_cases hahead : o.fptr.toNat > 0 ∧
      (ofs - 1) / (l.csize.toNat * 512) ≥ (o.fptr.toNat - 1) / (l.csize.toNat * 512)
  · -- from the cluster of the old position
    have hlt := o.fptr.isLt
    have hle := Nat.div_mul_le_self (o.fptr.toNat - 1) (l.csize.toNat * 512)
    have hstart := clusterStart_eq l hahead.1
    have hnat := congrArg BitVec.toNat hstart
    rw [BitVec.toNat_ofNat, Nat.mod_eq_of_lt (by omega)] at hnat
    have hat : MovedTo o sect ((o.fptr.toNat - 1) / (l.csize.toNat * 512) * (l.csize.toNat * 512))
        { s with fil := { s.fil with
          fptr := (o.fptr - 1#32) &&& ~~~(BitVec.ofNat 32 (l.csize.toNat * 512) - 1#32) } } :=
      ⟨h.obj, h.flag, h.err, hstart, h.sect, h.moved⟩
    obtain ⟨next, hchain⟩ := seekChain_ends l.toGeometry (has o.flag faWrite) s.fil.clust hat
      ((Nat.sub_le ofs _).trans hfuel)
    refine ⟨0#32, next, fun env henv hclust _ hnext => ?_⟩
    rw [seekPos, if_neg hne, SeekEnv.clusterStart, henv.bcs, if_pos hahead, if_pos hahead, hclust]
    simp only [modifyFil, ends_bind, ends_modify, ends_pure, hnat]
    exact hchain env henv hnext
  · by_cases hfirst : s.fil.obj.sclust = 0#32
    · -- there is no first cluster yet
      have hat : ∀ clst : BitVec 32, MovedTo { o with obj := { o.obj with sclust := clst } } sect 0
          { s with
            vol := (createChain l.toGeometry s.vol 0#32).2
            fil := { s.fil with obj := { s.fil.obj with sclust := clst }, clust := clst } } :=
        fun clst => ⟨by rw [← h.obj], h.flag, h.err, h.fptr, h.sect, h.moved⟩
      obtain ⟨next, hchain⟩ := seekChain_ends l.toGeometry (has o.flag faWrite)
        (createChain l.toGeometry s.vol 0#32).1 (hat _) hfuel
      refine ⟨(createChain l.toGeometry s.vol 0#32).1, next, fun env henv _ hnew hnext => ?_⟩
      have hnone : ¬o.obj.sclust ≠ 0#32 := by
        rw [← h.obj]
        exact not_not_intro hfirst
      rw [seekPos, if_neg hne, henv.bcs, if_neg hahead, if_neg hnone, if_neg hahead, if_pos hfirst, hnew]
      simp only [newCluster, modifyFil, ends_bind, ends_get, ends_set, ends_pure, ends_failIf, ends_modify]
      refine ⟨fun hone => ?_, fun hone => ⟨fun hbad => ?_, fun hbad => ?_⟩⟩
      · rw [if_pos hone]
        exact ⟨rfl, h.obj, h.flag, h.err, h.fptr, h.sect, h.moved⟩
      · rw [if_neg hone, if_pos hbad]
        exact ⟨rfl, h.obj, h.flag, h.err, h.fptr, h.sect, h.moved⟩
      · rw [if_neg hone, if_neg hbad]
        exact hchain env henv hnext
    · have hat : MovedTo o sect 0 { s with fil := { s.fil with clust := s.fil.obj.sclust } } :=
        ⟨h.obj, h.flag, h.err, h.fptr, h.sect, h.moved⟩
      obtain ⟨next, hchain⟩ := seekChain_ends l.toGeometry (has o.flag faWrite) s.fil.obj.sclust hat hfuel
      refine ⟨0#32, next, fun env henv _ _ hnext => ?_⟩
      have hends := hchain env henv hnext
      rw [← h.obj] at hends
      rw [seekPos, if_neg hne, henv.bcs, if_neg hahead, ← h.obj, if_pos hfirst, if_neg hahead, if_neg hfirst]
      simp only [modifyFil, ends_bind, ends_modify, ends_pure]
      exact hends

/-! ### The end of a seek -/

/-- The size follows the position. -/
def grown (fil : Fil) : Fil :=
  if fil.fptr > fil.obj.objsize then
    { fil with obj := { fil.obj with objsize := fil.fptr }, flag := fil.flag ||| faModified }
  else fil

/-- What a seek leaves when the buffer has been loaded, if it had to be. -/
def reloaded (fil : Fil) (reload : Bool) (write read : DResult) : BodyIo :=
  if reload then
    if has fil.flag faDirty ∧ write ≠ .ok then
      ⟨0#32, some .diskErr, fil.flag, fil.obj.sclust, fil.obj.objsize, fil.fptr⟩
    else
      ⟨0#32, if read ≠ .ok then some .diskErr else none,
        if has fil.flag faDirty then fil.flag &&& ~~~faDirty else fil.flag, fil.obj.sclust,
        fil.obj.objsize, fil.fptr⟩
  else ⟨0#32, none, fil.flag, fil.obj.sclust, fil.obj.objsize, fil.fptr⟩

theorem reloaded_of_dirty {fil : Fil} (hdirty : has fil.flag faDirty = true) (read : DResult) :
    reloaded fil true .ok read = ⟨0#32, if read ≠ .ok then some .diskErr else none,
      fil.flag &&& ~~~faDirty, fil.obj.sclust, fil.obj.objsize, fil.fptr⟩ := by
  rw [reloaded, if_pos rfl, if_neg fun hcon => hcon.2 rfl, if_pos hdirty]

theorem reloaded_of_clean {fil : Fil} (hdirty : ¬has fil.flag faDirty = true) (write read : DResult) :
    reloaded fil true write read = ⟨0#32, if read ≠ .ok then some .diskErr else none, fil.flag,
      fil.obj.sclust, fil.obj.objsize, fil.fptr⟩ := by
  rw [reloaded, if_pos rfl, if_neg fun hcon => hdirty hcon.1, if_neg hdirty]

theorem seekIo_of_abort {fil : Fil} {env : SeekEnv} {ofs : BitVec 32} {e : InnerResult}
    (habort : (seekPos fil env (clipOfs fil ofs.toNat)).abort = some e) :
    let p := seekPos fil env (clipOfs fil ofs.toNat)
    seekIo fil env ofs =
      ⟨0#32, some e, fil.flag, p.sclust, fil.obj.objsize, BitVec.ofNat 32 p.fptr⟩ := by
  simp only [seekIo, habort]

/-- The input of `f_lseek` in these terms. -/
theorem seekIo_eq_reloaded {fil : Fil} {env : SeekEnv} {ofs : BitVec 32}
    (habort : (seekPos fil env (clipOfs fil ofs.toNat)).abort = none) :
    let p := seekPos fil env (clipOfs fil ofs.toNat)
    seekIo fil env ofs =
      reloaded (grown { fil with
        obj := { fil.obj with sclust := p.sclust }
        fptr := BitVec.ofNat 32 p.fptr }) (decide (p.fptr % 512 ≠ 0 ∧ p.nsect ≠ env.sect)) env.write
        env.read := by
  have hle : (seekPos fil env (clipOfs fil ofs.toNat)).fptr < 2 ^ 32 :=
    Nat.lt_of_le_of_lt ((seekPos_spec fil env _).1.trans (clipOfs_le fil _)) ofs.isLt
  have hgrows : BitVec.ofNat 32 (seekPos fil env (clipOfs fil ofs.toNat)).fptr > fil.obj.objsize ↔
      (seekPos fil env (clipOfs fil ofs.toNat)).fptr > fil.obj.objsize.toNat := by
    rw [gt_iff_lt, BitVec.lt_def, BitVec.toNat_ofNat, Nat.mod_eq_of_lt hle]
  simp only [seekIo, habort, grown, hgrows]
  by_cases hgrow : (seekPos fil env (clipOfs fil ofs.toNat)).fptr > fil.obj.objsize.toNat
  · simp only [if_pos hgrow, reloaded, decide_eq_true_eq]
  · simp only [if_neg hgrow, reloaded, decide_eq_true_eq]

/-- What is left when the buffer has been filled. -/
theorem load_ends (s : FileState δ) (nsect : BitVec 32) :
    let io : BodyIo := { leaves none s with
      abort := if (diskRead s.vol.window.disk nsect 1).1.1 ≠ .ok then some .diskErr else none }
    Ends (load nsect) s (fun _ s' => leaves none s' = io) fun e s' => leaves (some e) s' = io := by
  simp only [load, ends_bind, ends_get, ends_set, ends_failIf]
  refine ⟨fun hbad => ?_, fun hgood => ?_⟩
  · rw [if_pos hbad]
    rfl
  · rw [if_neg hgood]
    rfl

/-- A sector is brought into the buffer. -/
theorem seize_ends (s : FileState δ) (hmoved : s.moved = []) (nsect : BitVec 32) : ∃ write read,
    Ends (seize nsect) s
      (fun _ s' => leaves none s' = reloaded s.fil.toFil (decide (nsect ≠ s.fil.sect)) write read)
      fun e s' => leaves (some e) s' = reloaded s.fil.toFil (decide (nsect ≠ s.fil.sect)) write read := by
  simp only [seize, flush, modifyFil, ends_bind, ends_get, ends_onlyIf, ends_modify]
  by_cases hother : s.fil.sect ≠ nsect
  · by_cases hdirty : has s.fil.flag faDirty = true
    · refine ⟨(diskWrite s.vol.window.disk (fun _ => s.fil.buf) s.fil.sect 1).1,
        (diskRead (diskWrite s.vol.window.disk (fun _ => s.fil.buf) s.fil.sect 1).2 nsect 1).1.1,
        fun _ => ⟨fun _ => ?_, fun hcon => absurd hdirty hcon⟩, fun hcon => absurd hother hcon⟩
      simp only [writeBack, modifyFil, ends_bind, ends_get, ends_set, ends_failIf, ends_modify]
      refine ⟨fun hbad => ?_, fun hgood => ?_⟩
      · simp [reloaded, leaves, hmoved, hdirty, hother.symm, hbad]
      · have hload := load_ends { s with
          vol := setDisk s.vol (diskWrite s.vol.window.disk (fun _ => s.fil.buf) s.fil.sect 1).2
          fil := { s.fil with flag := s.fil.flag &&& ~~~faDirty } } nsect
        refine hload.mono (fun _ _ hs' => hs'.trans ?_) fun _ _ hs' => hs'.trans ?_
        all_goals
          rw [decide_eq_true hother.symm, not_not.mp hgood, reloaded_of_dirty hdirty, leaves, hmoved]
          rfl
    · refine ⟨.ok, (diskRead s.vol.window.disk nsect 1).1.1,
        fun _ => ⟨fun hcon => absurd hcon hdirty, fun _ => ?_⟩, fun hcon => absurd hother hcon⟩
      refine (load_ends s nsect).mono (fun _ _ hs' => hs'.trans ?_) fun _ _ hs' => hs'.trans ?_
      all_goals
        rw [decide_eq_true hother.symm, reloaded_of_clean hdirty, leaves, hmoved]
        rfl
  · refine ⟨.ok, .ok, fun hcon => absurd hcon hother, fun _ => ?_⟩
    simp [reloaded, leaves, hmoved, not_not.mp hother]

/-- The end of `f_lseek`, once the position and its sector are known. -/
def seekTail (nsect : BitVec 32) : FileM δ Unit := do
  modifyFil fun f =>
    if f.fptr > f.obj.objsize then
      { f with obj := { f.obj with objsize := f.fptr }, flag := f.flag ||| faModified }
    else f
  let s ← get
  onlyIf (s.fil.fptr.toNat % 512 ≠ 0) (seize nsect)

/-- The size follows the position, and the buffer does if that is inside a sector. -/
theorem seekTail_ends (s : FileState δ) (hmoved : s.moved = []) (nsect : BitVec 32) : ∃ write read,
    let io := reloaded (grown s.fil.toFil)
      (decide (s.fil.fptr.toNat % 512 ≠ 0 ∧ nsect ≠ s.fil.sect)) write read;
    Ends (seekTail nsect) s (fun _ s' => leaves none s' = io) fun e s' => leaves (some e) s' = io := by
  obtain ⟨f, hf⟩ : ∃ f, f = if s.fil.fptr > s.fil.obj.objsize then
      { s.fil with obj := { s.fil.obj with objsize := s.fil.fptr }, flag := s.fil.flag ||| faModified }
    else s.fil := ⟨_, rfl⟩
  have hstep : ∀ Q E, Ends (onlyIf (f.fptr.toNat % 512 ≠ 0) (seize nsect)) { s with fil := f } Q E →
      Ends (seekTail nsect) s Q E := by
    intro Q E h
    rw [hf] at h
    exact h
  have hfil : f.toFil = grown s.fil.toFil := by
    rw [hf, grown]
    split <;> rfl
  have hfptr : f.fptr = s.fil.fptr := by
    rw [hf]
    split <;> rfl
  have hsect : f.sect = s.fil.sect := by
    rw [hf]
    split <;> rfl
  obtain ⟨write, read, hseize⟩ := seize_ends { s with fil := f } hmoved nsect
  refine ⟨write, read, hstep _ _ ?_⟩
  rw [ends_onlyIf, hfptr]
  dsimp only at hseize
  rw [hfil, hsect] at hseize
  refine ⟨fun hinside => ?_, fun hboundary => ?_⟩
  · rw [show decide (s.fil.fptr.toNat % 512 ≠ 0 ∧ nsect ≠ s.fil.sect) = decide (nsect ≠ s.fil.sect) from
      decide_eq_decide.mpr (and_iff_right hinside)]
    exact hseize
  · rw [reloaded, if_neg fun hcon => hboundary (of_decide_eq_true hcon).1, leaves, ← hfil, hmoved]
    rfl

/-! ### The whole seek -/

/-- What a seek of a file meets on a volume, apart from its answers. -/
structure Meets (l : Layout) (f : OpenFil) (env : SeekEnv) : Prop extends OfVolume l.toGeometry env where
  clust : env.clust = f.clust
  sect : env.sect = f.sect

/-- Any answers can be met. -/
theorem exists_meets (l : Layout) (f : OpenFil) (newChain : BitVec 32) (next : ℕ → BitVec 32)
    (write read : DResult) : ∃ env, Meets l f env ∧ env.newChain = newChain ∧ env.next = next ∧
      env.write = write ∧ env.read = read := by
  obtain ⟨k, hk, hsize⟩ := l.csize_eq
  have hpow : 2 ^ k < 2 ^ 16 := Nat.pow_lt_pow_right (by decide) (by omega)
  have hnat : l.csize.toNat = 2 ^ k := by
    rw [hsize, BitVec.toNat_ofNat, Nat.mod_eq_of_lt hpow]
  refine ⟨⟨⟨k, hk⟩, l.nFatent, l.database, f.clust, f.sect, newChain, next, write, read⟩,
    ⟨⟨?_, rfl, fun c => ?_⟩, rfl, rfl⟩, rfl, rfl, rfl, rfl⟩
  · rw [SeekEnv.bcs, hnat]
  · have hwide : l.csize.setWidth 32 = BitVec.ofNat 32 (2 ^ k) := by
      rw [hsize, BitVec.setWidth_ofNat_of_le_of_lt (by decide) hpow]
    rw [SeekEnv.clst2sect, clst2sect, hwide]

omit [DiskIo δ] in
/-- A seek that is **stopped on the way** leaves what the one with these answers leaves. -/
theorem leaves_of_abort {f : OpenFil} {env : SeekEnv} {ofs : BitVec 32} {e : InnerResult}
    (hplace : SamePlace f.toFil f.sect (.error e) s (seekPos f.toFil env (clipOfs f.toFil ofs.toNat))) :
    leaves (some e) s = seekIo f.toFil env ofs := by
  obtain ⟨hr, hmoved⟩ := hplace
  cases habort : (seekPos f.toFil env (clipOfs f.toFil ofs.toNat)).abort with
  | none =>
    rw [habort] at hr
    cases hr
  | some e' =>
    rw [habort] at hr
    cases hr
    rw [seekIo_of_abort habort, leaves, hmoved.obj, hmoved.flag, hmoved.fptr, hmoved.moved]
    rfl

omit [DiskIo δ] in
/-- A seek that **has got somewhere** goes on as the one with these answers. -/
theorem reloaded_of_arrived {f : OpenFil} {env : SeekEnv} {ofs nsect : BitVec 32}
    (hplace : SamePlace f.toFil f.sect (.ok nsect) s (seekPos f.toFil env (clipOfs f.toFil ofs.toNat)))
    (hsect : env.sect = f.sect) :
    reloaded (grown s.fil.toFil) (decide (s.fil.fptr.toNat % 512 ≠ 0 ∧ nsect ≠ s.fil.sect)) env.write
      env.read = seekIo f.toFil env ofs := by
  obtain ⟨hr, hmoved⟩ := hplace
  have hlt : (seekPos f.toFil env (clipOfs f.toFil ofs.toNat)).fptr < 2 ^ 32 :=
    Nat.lt_of_le_of_lt ((seekPos_spec f.toFil env _).1.trans (clipOfs_le f.toFil _)) ofs.isLt
  cases habort : (seekPos f.toFil env (clipOfs f.toFil ofs.toNat)).abort with
  | some e =>
    rw [habort] at hr
    cases hr
  | none =>
    rw [habort] at hr
    cases hr
    have hnat : s.fil.fptr.toNat = (seekPos f.toFil env (clipOfs f.toFil ofs.toNat)).fptr := by
      rw [hmoved.fptr, BitVec.toNat_ofNat, Nat.mod_eq_of_lt hlt]
    rw [seekIo_eq_reloaded habort, hnat, hmoved.sect, hsect, hmoved.toFil_eq]

/-- The end of a seek, with the answers that are still missing. -/
theorem seekTail_ending {l : Layout} {f : OpenFil} {ofs nsect : BitVec 32} (newChain : BitVec 32)
    (next : ℕ → BitVec 32) (hs : ∀ env, Meets l f env → env.newChain = newChain →
      env.next = next →
        SamePlace f.toFil f.sect (.ok nsect) s (seekPos f.toFil env (clipOfs f.toFil ofs.toNat))) :
    Ends (seekTail nsect) s
      (fun _ s' => ∃ env : { env // Meets l f env }, leaves none s' = seekIo f.toFil env ofs)
      fun e s' => ∃ env : { env // Meets l f env }, leaves (some e) s' = seekIo f.toFil env ofs := by
  -- the state does not depend on the last two answers, so that they can be read off it
  obtain ⟨env₀, hmeets₀, hnew₀, hnext₀, -, -⟩ := exists_meets l f newChain next .ok .ok
  obtain ⟨write, read, htail⟩ := seekTail_ends s (hs env₀ hmeets₀ hnew₀ hnext₀).2.moved nsect
  obtain ⟨env, hmeets, hnew, hnext, rfl, rfl⟩ := exists_meets l f newChain next write read
  have hio := reloaded_of_arrived (hs env hmeets hnew hnext) hmeets.sect
  exact htail.mono (fun _ _ hs' => ⟨⟨env, hmeets⟩, hs'.trans hio⟩)
    fun _ _ hs' => ⟨⟨env, hmeets⟩, hs'.trans hio⟩

/-- A file that may not be written is not left. -/
theorem toNat_clip (f : OpenFil) (ofs : BitVec 32) : clipOfs f.toFil ofs.toNat =
    (if ofs > f.obj.objsize ∧ has f.flag faWrite = false then f.obj.objsize else ofs).toNat := by
  by_cases hbehind : ofs > f.obj.objsize ∧ has f.flag faWrite = false
  · rw [if_pos hbehind]
    exact if_pos hbehind
  · rw [if_neg hbehind]
    exact if_neg hbehind

/-- **`f_lseek` on the volume is a seek with some answers**, on that volume and from where the file is. -/
theorem seekBody_ending (l : Layout) (v : Vol δ) (f : OpenFil) (ofs : BitVec 32) :
    ∃ env, Meets l f env ∧ bodyIo (seekBody l.toGeometry ofs) v f = seekIo f.toFil env ofs := by
  have hends : Ends (seekBody l.toGeometry ofs) ⟨v, f, []⟩
      (fun _ s => ∃ env : { env // Meets l f env }, leaves none s = seekIo f.toFil env ofs)
      fun e s => ∃ env : { env // Meets l f env }, leaves (some e) s = seekIo f.toFil env ofs := by
    have hclip := toNat_clip f ofs
    have hstart : MovedTo f.toFil f.sect 0 (⟨v, { f with fptr := 0#32 }, []⟩ : FileState δ) :=
      ⟨rfl, rfl, rfl, rfl, rfl, rfl⟩
    simp only [seekBody, modifyFil, ends_bind, ends_get, ends_modify]
    generalize (if ofs > f.obj.objsize ∧ has f.flag faWrite = false then f.obj.objsize else ofs) = target
      at hclip
    by_cases hpos : target > 0#32
    · obtain ⟨newChain, next, halong⟩ := seekAlong_ends l hstart (show 0 < target.toNat from hpos)
      -- whatever else is met, the way is the same
      have hall := ends_forall fun env => ends_forall fun hmeets : Meets l f env => ends_forall
        fun hnew : env.newChain = newChain => ends_forall fun hnext : env.next = next =>
          halong env hmeets.toOfVolume hmeets.clust hnew hnext
      rw [← hclip] at hall
      rw [if_pos hpos, ← hclip]
      refine hall.bind (fun nsect s hs => seekTail_ending newChain next hs) fun e s hs => ?_
      obtain ⟨env, hmeets, hnew, hnext, -, -⟩ := exists_meets l f newChain next .ok .ok
      exact ⟨⟨env, hmeets⟩, leaves_of_abort (hs env hmeets hnew hnext)⟩
    · have hzero : clipOfs f.toFil ofs.toNat = 0 := by
        rw [hclip]
        exact Nat.eq_zero_of_not_pos hpos
      rw [if_neg hpos]
      refine seekTail_ending 0#32 (fun _ => 0#32) fun env _ _ _ => ?_
      rw [hzero, seekPos, if_pos rfl]
      exact ⟨rfl, hstart⟩
  obtain ⟨⟨env, hmeets⟩, henv⟩ := exists_bodyIo hends
  exact ⟨env, hmeets, henv⟩

/-- **`f_lseek`** on the object, with some answers, is `f_lseek` on the volume. -/
theorem fLseek_ending (vols : Volumes) (l : Layout) (v : Vol δ) (f : OpenFil) (ofs : BitVec 32) :
    ∃ env, Meets l f env ∧ FatFs.fLseek vols f.toFil (seekIo f.toFil env ofs) =
      ((fLseek vols l.toGeometry v f ofs).1.1, (fLseek vols l.toGeometry v f ofs).2.2.toFil) := by
  obtain ⟨env, hmeets, henv⟩ := seekBody_ending l v f ofs
  exact ⟨env, hmeets, by rw [← henv, fLseek_outcome]⟩

end Seek

end Stream

end FatFs

end BareMetal
