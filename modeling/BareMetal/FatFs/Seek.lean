import BareMetal.FatFs.File

/-!
# Seeking in a file

`BareMetal.FatFs.fLseek` takes what its loop leaves behind as an input. This file is the loop:
`f_lseek` follows the cluster chain of the file, from the cluster it is in if the target lies
behind it and from the first one otherwise, and stretches the chain on the way if the file is
open for writing. `BareMetal.FatFs.seekIo` computes the input of `fLseek` from the position,
the offset and what the disk answers. Every seek on a volume is one with some answers
(`BareMetal.FatFs.Stream.seekBody_ending`).

Where a seek ends is settled in `BareMetal.FatFs.seekPos_of_cut_eq_false` and
`BareMetal.FatFs.seekPos_lt_of_cut`: at the offset, unless the seek aborts or the chain is cut
short because the disk is full, and then before it. The offset has been clipped to the size of
the file if it may not be written (`BareMetal.FatFs.clipOfs`). The loop runs on a counter of
clusters, which is large enough (`BareMetal.FatFs.followChain_spec`).

What becomes of a seek depends on the answers of the disk only, and on the first one that is not a
cluster (`BareMetal.FatFs.seekPos_course`): it gets to the offset if and only if the answers let it
through (`BareMetal.FatFs.seek_arrives_iff`), and fails without having moved if and only if they
leave it where it is (`BareMetal.FatFs.seek_stuck_iff`).

Offsets are natural numbers: all that is computed stays below the offset, which is a 32-bit
number.
-/

namespace BareMetal

namespace FatFs

/-! ### The code -/

/-- What `f_lseek` meets: the geometry of the volume (a cluster is a power of two of sectors),
the cluster and the sector the object is at, what `create_chain` returns for a new chain, what
the `k`-th call of `create_chain` or `get_fat` in the loop returns, and how the write and the
read of the sector buffer end. -/
structure SeekEnv where
  logCsize : Fin 8
  nFatent : BitVec 32
  database : BitVec 32
  clust : BitVec 32
  sect : BitVec 32
  newChain : BitVec 32
  next : ℕ → BitVec 32
  write : DResult
  read : DResult

/-- `SS(fs)`, the size of a sector. -/
abbrev sectorSize : ℕ := 512

/-- `bcs`, the size of a cluster in bytes. -/
def SeekEnv.bcs (env : SeekEnv) : ℕ := 2 ^ (env.logCsize : ℕ) * sectorSize

/-- `clst2sect`; 0 if there is no such cluster. -/
def SeekEnv.clst2sect (env : SeekEnv) (clst : BitVec 32) : BitVec 32 :=
  if clst - 2#32 ≥ env.nFatent - 2#32 then 0#32
  else env.database + BitVec.ofNat 32 (2 ^ (env.logCsize : ℕ)) * (clst - 2#32)

/-- How the loop along the chain ends: at the cluster of the target, with what is left of the
offset; where no cluster is free; or with an error. -/
inductive FollowEnd where
  | reached (ofs fptr : ℕ) (clst : BitVec 32)
  | full (fptr : ℕ)
  | abort (res : InnerResult) (fptr : ℕ)
  deriving DecidableEq, Repr

/-- The loop of `f_lseek` along the chain, for at most so many clusters. -/
def followChain (env : SeekEnv) (writable : Bool) :
    ℕ → ℕ → ℕ → ℕ → BitVec 32 → FollowEnd
  | 0, _, ofs, fptr, clst => .reached ofs fptr clst
  | fuel + 1, k, ofs, fptr, clst =>
      if ofs > env.bcs then
        -- the position moves on before the next cluster is known
        if writable ∧ env.next k = 0#32 then .full (fptr + env.bcs)
        else if env.next k = 0xFFFFFFFF#32 then .abort .diskErr (fptr + env.bcs)
        else if env.next k ≤ 1#32 ∨ env.next k ≥ env.nFatent then .abort .intErr (fptr + env.bcs)
        else followChain env writable fuel (k + 1) (ofs - env.bcs) (fptr + env.bcs) (env.next k)
      else .reached ofs fptr clst

/-- Where a seek has got to: the error it aborts with, if it does; whether the chain was cut
short; the position; the sector there, if the position is inside one; and the first cluster of
the file. -/
structure SeekPos where
  abort : Option InnerResult
  cut : Bool
  fptr : ℕ
  nsect : BitVec 32
  sclust : BitVec 32
  deriving DecidableEq, Repr

/-- `f_lseek` from the cluster `clst` on, with `fptr` the position of that cluster and `ofs`
what is left to go. -/
def seekChain (env : SeekEnv) (writable : Bool) (sclust : BitVec 32) (ofs fptr : ℕ)
    (clst : BitVec 32) : SeekPos :=
  if clst = 0#32 then ⟨none, true, fptr, 0#32, sclust⟩
  else
    match followChain env writable (ofs / env.bcs) 0 ofs fptr clst with
    | .abort res f => ⟨some res, false, f, 0#32, sclust⟩
    | .full f => ⟨none, true, f, 0#32, sclust⟩
    | .reached o f c =>
        if o % sectorSize = 0 then ⟨none, false, f + o, 0#32, sclust⟩
        else if env.clst2sect c = 0#32 then ⟨some .intErr, false, f + o, 0#32, sclust⟩
        else ⟨none, false, f + o, env.clst2sect c + BitVec.ofNat 32 (o / sectorSize), sclust⟩

/-- The position of the cluster that `fptr` is in, or ends: `(fptr - 1) & ~(bcs - 1)`, where
`bcs` is a power of two. -/
def SeekEnv.clusterStart (env : SeekEnv) (fptr : ℕ) : ℕ := (fptr - 1) / env.bcs * env.bcs

/-- `f_lseek` up to the new position. -/
def seekPos (fil : Fil) (env : SeekEnv) (ofs : ℕ) : SeekPos :=
  if ofs = 0 then ⟨none, false, 0, 0#32, fil.obj.sclust⟩
  else if fil.fptr.toNat > 0 ∧ (ofs - 1) / env.bcs ≥ (fil.fptr.toNat - 1) / env.bcs then
    -- the same cluster or one behind it
    seekChain env (has fil.flag faWrite) fil.obj.sclust (ofs - env.clusterStart fil.fptr.toNat)
      (env.clusterStart fil.fptr.toNat) env.clust
  else if fil.obj.sclust ≠ 0#32 then
    seekChain env (has fil.flag faWrite) fil.obj.sclust ofs 0 fil.obj.sclust
  else if env.newChain = 1#32 then ⟨some .intErr, false, 0, 0#32, fil.obj.sclust⟩
  else if env.newChain = 0xFFFFFFFF#32 then ⟨some .diskErr, false, 0, 0#32, fil.obj.sclust⟩
  else seekChain env (has fil.flag faWrite) env.newChain ofs 0 env.newChain

/-- A file that may not be written is not left. -/
def clipOfs (fil : Fil) (ofs : ℕ) : ℕ :=
  if ofs > fil.obj.objsize.toNat ∧ has fil.flag faWrite = false then fil.obj.objsize.toNat else ofs

/-- What `f_lseek` leaves behind for an offset: it goes to the position, extends the file if
that lies behind its end, and loads the sector buffer if it holds another sector. -/
def seekIo (fil : Fil) (env : SeekEnv) (ofs : BitVec 32) : BodyIo :=
  let p := seekPos fil env (clipOfs fil ofs.toNat)
  match p.abort with
  | some res => ⟨0#32, some res, fil.flag, p.sclust, fil.obj.objsize, BitVec.ofNat 32 p.fptr⟩
  | none =>
      let grows := p.fptr > fil.obj.objsize.toNat
      let objsize := if grows then BitVec.ofNat 32 p.fptr else fil.obj.objsize
      let flag := if grows then fil.flag ||| faModified else fil.flag
      if p.fptr % sectorSize ≠ 0 ∧ p.nsect ≠ env.sect then
        if has flag faDirty ∧ env.write ≠ .ok then
          ⟨0#32, some .diskErr, flag, p.sclust, objsize, BitVec.ofNat 32 p.fptr⟩
        else
          let flag := if has flag faDirty then flag &&& ~~~faDirty else flag
          ⟨0#32, if env.read ≠ .ok then some .diskErr else none, flag, p.sclust, objsize,
            BitVec.ofNat 32 p.fptr⟩
      else ⟨0#32, none, flag, p.sclust, objsize, BitVec.ofNat 32 p.fptr⟩

/-! ### The loop -/

section Loop

variable (env : SeekEnv) (writable : Bool)

theorem SeekEnv.bcs_pos : 0 < env.bcs :=
  Nat.mul_pos (Nat.two_pow_pos _) (by decide)

/-- **Where the loop ends**, with a counter that is large enough: at the target, within one
cluster; or before it. -/
theorem followChain_spec {fuel : ℕ} (k : ℕ) {ofs : ℕ} (fptr : ℕ) (clst : BitVec 32)
    (hofs : 0 < ofs) (hfuel : ofs ≤ (fuel + 1) * env.bcs) :
    match followChain env writable fuel k ofs fptr clst with
    | .reached o f _ => f + o = fptr + ofs ∧ o ≤ env.bcs
    | .full f => f < fptr + ofs
    | .abort res f => f < fptr + ofs ∧ res ≠ .ok := by
  induction fuel generalizing k ofs fptr clst with
  | zero =>
    simp only [followChain, true_and]
    omega
  | succ fuel ih =>
    by_cases hlong : ofs > env.bcs
    · simp only [followChain, if_pos hlong]
      rw [Nat.succ_mul] at hfuel
      have hrest := ih (k + 1) (fptr + env.bcs) (env.next k) (show 0 < ofs - env.bcs by omega)
        (by omega)
      have hsum : fptr + env.bcs + (ofs - env.bcs) = fptr + ofs := by omega
      rw [hsum] at hrest
      split_ifs
      · simp only
        omega
      · exact ⟨by omega, by simp⟩
      · exact ⟨by omega, by simp⟩
      · exact hrest
    · simp only [followChain, if_neg hlong, true_and]
      omega

/-- Where a seek along the chain ends. -/
theorem seekChain_spec (sclust : BitVec 32) {ofs : ℕ} (fptr : ℕ) (clst : BitVec 32)
    (hofs : 0 < ofs) :
    let p := seekChain env writable sclust ofs fptr clst
    p.fptr ≤ fptr + ofs ∧ p.abort ≠ some .ok ∧
      (p.abort = none → (p.cut = false → p.fptr = fptr + ofs) ∧
        (p.cut = true → p.fptr < fptr + ofs)) := by
  have hfuel : ofs ≤ (ofs / env.bcs + 1) * env.bcs := by
    have := Nat.lt_div_mul_add (a := ofs) env.bcs_pos
    rw [Nat.succ_mul]
    omega
  have hspec := followChain_spec env writable 0 fptr clst hofs hfuel
  unfold seekChain
  split
  · exact ⟨Nat.le_add_right _ _, by simp, fun _ => ⟨by simp, fun _ => Nat.lt_add_of_pos_right hofs⟩⟩
  · split
    · rename_i res f heq
      rw [heq] at hspec
      exact ⟨hspec.1.le, by simpa using hspec.2, by simp⟩
    · rename_i f heq
      rw [heq] at hspec
      exact ⟨Nat.le_of_lt hspec, by simp, fun _ => ⟨by simp, fun _ => hspec⟩⟩
    · rename_i o f c heq
      rw [heq] at hspec
      simp only at hspec
      have hsum : f + o = fptr + ofs := hspec.1
      split_ifs
      · exact ⟨hsum.le, by simp, fun _ => ⟨fun _ => hsum, by simp⟩⟩
      · exact ⟨hsum.le, by simp, by simp⟩
      · exact ⟨hsum.le, by simp, fun _ => ⟨fun _ => hsum, by simp⟩⟩

end Loop

/-! ### Where a seek ends -/

section Ends

variable (fil : Fil) (env : SeekEnv) (ofs : ℕ)

/-- **Where a seek ends**: never behind the offset; at the offset unless the chain is cut short,
and then before it. -/
theorem seekPos_spec :
    let p := seekPos fil env ofs
    p.fptr ≤ ofs ∧ p.abort ≠ some .ok ∧
      (p.abort = none → (p.cut = false → p.fptr = ofs) ∧ (p.cut = true → p.fptr < ofs)) := by
  unfold seekPos
  split
  · rename_i hzero
    simp [hzero]
  rename_i hzero
  have hpos : 0 < ofs := Nat.pos_of_ne_zero hzero
  split
  · -- the start of the cluster does not lie behind the offset
    rename_i hahead
    have hstart : env.clusterStart fil.fptr.toNat ≤ ofs - 1 :=
      (Nat.mul_le_mul_right _ hahead.2).trans (Nat.div_mul_le_self _ _)
    have hspec := seekChain_spec env (has fil.flag faWrite) fil.obj.sclust
      (env.clusterStart fil.fptr.toNat) env.clust
      (show 0 < ofs - env.clusterStart fil.fptr.toNat by omega)
    rwa [show env.clusterStart fil.fptr.toNat + (ofs - env.clusterStart fil.fptr.toNat) = ofs by
      omega] at hspec
  split
  · have hspec := seekChain_spec env (has fil.flag faWrite) fil.obj.sclust
      0 fil.obj.sclust hpos
    rwa [Nat.zero_add] at hspec
  split
  · exact ⟨Nat.zero_le _, by simp, by simp⟩
  split
  · exact ⟨Nat.zero_le _, by simp, by simp⟩
  · have hspec := seekChain_spec env (has fil.flag faWrite) env.newChain
      0 env.newChain hpos
    rwa [Nat.zero_add] at hspec

theorem seekPos_of_cut_eq_false (habort : (seekPos fil env ofs).abort = none)
    (hcut : (seekPos fil env ofs).cut = false) : (seekPos fil env ofs).fptr = ofs :=
  ((seekPos_spec fil env ofs).2.2 habort).1 hcut

theorem seekPos_lt_of_cut (habort : (seekPos fil env ofs).abort = none)
    (hcut : (seekPos fil env ofs).cut = true) : (seekPos fil env ofs).fptr < ofs :=
  ((seekPos_spec fil env ofs).2.2 habort).2 hcut

theorem clipOfs_le : clipOfs fil ofs ≤ ofs := by
  unfold clipOfs
  split
  · omega
  · exact le_rfl

/-- An offset is kept if it lies in the file or the file may be written. -/
theorem clipOfs_eq_self_iff :
    clipOfs fil ofs = ofs ↔ ofs ≤ fil.obj.objsize.toNat ∨ has fil.flag faWrite = true := by
  unfold clipOfs
  cases has fil.flag faWrite with
  | true => simp
  | false =>
    split
    · rename_i hlt
      simp only [Bool.false_eq_true, or_false]
      omega
    · rename_i hle
      simp only [and_true, gt_iff_lt, Nat.not_lt] at hle
      simp [hle]

end Ends

/-! ### What a seek leaves behind -/

/-- A seek on an object that is not valid, or has failed before, is refused. -/
theorem fLseek_of_refused {v : Volumes} {fil : Fil}
    (h : validate v fil.obj ≠ .ok ∨ fil.err ≠ .ok) (io : BodyIo) :
    (fLseek v fil io).1 ≠ .ok ∧ (fLseek v fil io).2 = fil := by
  by_cases hvalid : validate v fil.obj = .ok
  · have herr : fil.err ≠ .ok := h.resolve_left (not_not.mpr hvalid)
    simp [fLseek, hvalid, herr]
  · simp [fLseek, hvalid]

section Leaves

variable (fil : Fil) (env : SeekEnv) (ofs : BitVec 32)

/-- The position a seek leaves, whether or not it aborts. -/
theorem seekIo_fptr :
    (seekIo fil env ofs).fptr.toNat = (seekPos fil env (clipOfs fil ofs.toNat)).fptr := by
  have hlt : (seekPos fil env (clipOfs fil ofs.toNat)).fptr < 2 ^ 32 :=
    ((seekPos_spec fil env _).1.trans (clipOfs_le fil _)).trans_lt ofs.isLt
  have hfptr : (seekIo fil env ofs).fptr =
      BitVec.ofNat 32 (seekPos fil env (clipOfs fil ofs.toNat)).fptr := by
    unfold seekIo
    dsimp only
    split
    · rfl
    · split_ifs <;> rfl
  rw [hfptr, BitVec.toNat_ofNat, Nat.mod_eq_of_lt hlt]

/-- A seek aborts with an error. -/
theorem seekIo_abort_ne_ok : (seekIo fil env ofs).abort ≠ some .ok := by
  have hne := (seekPos_spec fil env (clipOfs fil ofs.toNat)).2.1
  unfold seekIo
  dsimp only
  split
  · rename_i res hres
    rwa [hres] at hne
  · split_ifs <;> simp

/-- A seek that does not abort has found its way. -/
theorem seekPos_abort_of_seekIo (h : (seekIo fil env ofs).abort = none) :
    (seekPos fil env (clipOfs fil ofs.toNat)).abort = none := by
  unfold seekIo at h
  dsimp only at h
  split at h
  · simp at h
  · assumption

/-- A seek within the file does not extend it. -/
theorem seekIo_objsize_of_le (h : ofs.toNat ≤ fil.obj.objsize.toNat) :
    (seekIo fil env ofs).objsize = fil.obj.objsize := by
  have hle : (seekPos fil env (clipOfs fil ofs.toNat)).fptr ≤ fil.obj.objsize.toNat :=
    ((seekPos_spec fil env _).1.trans (clipOfs_le fil _)).trans h
  have hgrows : ¬(seekPos fil env (clipOfs fil ofs.toNat)).fptr > fil.obj.objsize.toNat := by
    omega
  unfold seekIo
  dsimp only
  split
  · rfl
  · simp only [if_neg hgrows]
    split_ifs <;> rfl

/-- A seek that gets behind the end of the file extends it. -/
theorem seekIo_objsize_of_gt
    (hfound : (seekPos fil env (clipOfs fil ofs.toNat)).abort = none)
    (h : fil.obj.objsize.toNat < (seekPos fil env (clipOfs fil ofs.toNat)).fptr) :
    (seekIo fil env ofs).objsize.toNat = (seekPos fil env (clipOfs fil ofs.toNat)).fptr := by
  rw [← seekIo_fptr]
  unfold seekIo
  dsimp only
  simp only [hfound, if_pos (show _ > _ from h)]
  split_ifs <;> rfl

end Leaves

/-! ### What the disk answers -/

section Answers

variable (fil : Fil) (env : SeekEnv) (ofs : ℕ)

/-- The number is that of a cluster. -/
def SeekEnv.IsCluster (clst : BitVec 32) : Prop := 1#32 < clst ∧ clst < env.nFatent

/-- The seek goes on from the cluster the object is at. -/
abbrev GoesOn : Prop :=
  fil.fptr.toNat > 0 ∧ (ofs - 1) / env.bcs ≥ (fil.fptr.toNat - 1) / env.bcs

/-- The place in the chain of the cluster a seek sets out from. -/
def seekFrom : ℕ := if GoesOn fil env ofs then (fil.fptr.toNat - 1) / env.bcs else 0

/-- The number of that cluster. -/
def seekFirst : BitVec 32 :=
  if GoesOn fil env ofs then env.clust
  else if fil.obj.sclust ≠ 0#32 then fil.obj.sclust else env.newChain

/-- How many clusters are still to be followed. -/
def seekSteps : ℕ := (ofs - 1) / env.bcs - seekFrom fil env ofs

/-- The cluster that is reached from `clst` by so many answers from the `k`-th on. -/
def SeekEnv.after (k : ℕ) (clst : BitVec 32) : ℕ → BitVec 32
  | 0 => clst
  | n + 1 => env.next (k + n)

/-- The cluster of the offset. -/
def seekLast : BitVec 32 := env.after 0 (seekFirst fil env ofs) (seekSteps fil env ofs)

/-- The offset in its cluster, of which it may be the end. -/
def SeekEnv.inCluster : ℕ := ofs - (ofs - 1) / env.bcs * env.bcs

/-- The sector of the offset. -/
def seekSector : BitVec 32 :=
  env.clst2sect (seekLast fil env ofs) + BitVec.ofNat 32 (env.inCluster ofs / sectorSize)

/-- A new chain is begun if it is needed. -/
def Begins : Prop := ¬GoesOn fil env ofs → fil.obj.sclust = 0#32 →
  env.newChain ≠ 1#32 ∧ env.newChain ≠ 0xFFFFFFFF#32

/-- The sector buffer is written back if it must be, and loaded. -/
def Loads : Prop := (has fil.flag faDirty = true → env.write = .ok) ∧ env.read = .ok

/-- **The disk lets a seek through** to an offset: a chain is begun if there is none, there is a
cluster to set out from, each answer on the way is a cluster, the last one has a sector for the
offset, and the buffer is loaded if it holds another. -/
structure Clear : Prop where
  begins : Begins fil env ofs
  first : seekFirst fil env ofs ≠ 0#32
  way : ∀ k < seekSteps fil env ofs, env.IsCluster (env.next k)
  inside : ofs % sectorSize ≠ 0 → env.clst2sect (seekLast fil env ofs) ≠ 0#32
  loads : ofs % sectorSize ≠ 0 → seekSector fil env ofs ≠ env.sect → Loads fil env

/-- **A seek is stuck where it is**: at the start of a file no chain can be begun; at the end of a
cluster the next one cannot be had, and the disk is not full; or it goes nowhere, and its sector
cannot be had. -/
inductive Stuck : Prop where
  | chain (hofs : 0 < ofs) (hstart : fil.fptr = 0#32) (hnone : fil.obj.sclust = 0#32)
      (hfail : env.newChain = 1#32 ∨ env.newChain = 0xFFFFFFFF#32)
  | cluster (hpos : 0 < fil.fptr.toNat) (hend : env.bcs ∣ fil.fptr.toNat)
      (hofs : fil.fptr.toNat < ofs) (hclust : env.clust ≠ 0#32)
      (hfail : ¬env.IsCluster (env.next 0))
      (hroom : ¬(has fil.flag faWrite = true ∧ env.next 0 = 0#32))
  | sector (hofs : ofs = fil.fptr.toNat) (hin : ofs % sectorSize ≠ 0) (hclust : env.clust ≠ 0#32)
      (hfail : env.clst2sect env.clust = 0#32)
  | buffer (hofs : ofs = fil.fptr.toNat) (hin : ofs % sectorSize ≠ 0) (hclust : env.clust ≠ 0#32)
      (hsize : ofs ≤ fil.obj.objsize.toNat) (hother : seekSector fil env ofs ≠ env.sect)
      (hfail : ¬Loads fil env)

/-- **What can become of a seek**, by the answers. -/
inductive Course : SeekPos → Prop where
  | noChain {p : SeekPos} (hon : ¬GoesOn fil env ofs) (hnone : fil.obj.sclust = 0#32)
      (hfail : env.newChain = 1#32 ∨ env.newChain = 0xFFFFFFFF#32) (habort : p.abort ≠ none)
      (hfptr : p.fptr = 0) : Course p
  | noCluster {p : SeekPos} (hbegins : Begins fil env ofs) (hfirst : seekFirst fil env ofs = 0#32)
      (habort : p.abort = none) (hcut : p.cut = true)
      (hfptr : p.fptr = seekFrom fil env ofs * env.bcs) : Course p
  | stops {p : SeekPos} (hbegins : Begins fil env ofs) (hfirst : seekFirst fil env ofs ≠ 0#32) (j : ℕ)
      (hj : j < seekSteps fil env ofs) (hway : ∀ k < j, env.IsCluster (env.next k))
      (hfail : ¬env.IsCluster (env.next j))
      (habort : p.abort = none ↔ has fil.flag faWrite = true ∧ env.next j = 0#32)
      (hcut : p.abort = none → p.cut = true)
      (hfptr : p.fptr = (seekFrom fil env ofs + j + 1) * env.bcs) : Course p
  | arrives {p : SeekPos} (hbegins : Begins fil env ofs) (hfirst : seekFirst fil env ofs ≠ 0#32)
      (hway : ∀ k < seekSteps fil env ofs, env.IsCluster (env.next k))
      (habort : p.abort = none ↔
        (ofs % sectorSize ≠ 0 → env.clst2sect (seekLast fil env ofs) ≠ 0#32))
      (hcut : p.cut = false) (hfptr : p.fptr = ofs)
      (hnsect : p.abort = none → ofs % sectorSize ≠ 0 → p.nsect = seekSector fil env ofs) : Course p

end Answers

/-! ### The loop, by the answers -/

section Answered

variable {env : SeekEnv} (writable : Bool)

theorem SeekEnv.IsCluster.ne_zero {clst : BitVec 32} (h : env.IsCluster clst) : clst ≠ 0#32 := by
  rintro rfl
  exact absurd h.1 (by decide)

theorem SeekEnv.IsCluster.ne_error {clst : BitVec 32} (h : env.IsCluster clst) :
    clst ≠ 0xFFFFFFFF#32 := by
  rintro rfl
  have hlt := BitVec.lt_def.mp h.2
  have hmax := env.nFatent.isLt
  simp only [BitVec.toNat_ofNat] at hlt
  omega

theorem SeekEnv.isCluster_iff {clst : BitVec 32} :
    env.IsCluster clst ↔ ¬(clst ≤ 1#32 ∨ clst ≥ env.nFatent) := by
  simp [SeekEnv.IsCluster, not_or, BitVec.not_le]

theorem SeekEnv.after_succ (k n : ℕ) (clst : BitVec 32) :
    env.after (k + 1) (env.next k) n = env.after k clst (n + 1) := by
  cases n with
  | zero => rfl
  | succ n => exact congrArg env.next (by omega)

/-- **The loop arrives** if all the answers are clusters. -/
theorem followChain_of_way {o : ℕ} (hpos : 0 < o) (hle : o ≤ env.bcs) {n fuel : ℕ} (hfuel : n ≤ fuel)
    (k fptr : ℕ) (clst : BitVec 32) (hway : ∀ j < n, env.IsCluster (env.next (k + j))) :
    followChain env writable fuel k (o + n * env.bcs) fptr clst =
      .reached o (fptr + n * env.bcs) (env.after k clst n) := by
  induction n generalizing fuel k fptr clst with
  | zero =>
    cases fuel with
    | zero => simp [followChain, SeekEnv.after]
    | succ fuel => simp [followChain, SeekEnv.after, hle]
  | succ n ih =>
    obtain ⟨fuel, rfl⟩ : ∃ f, fuel = f + 1 := ⟨fuel - 1, by omega⟩
    have hlong : o + (n + 1) * env.bcs > env.bcs := by
      rw [Nat.succ_mul]
      omega
    have hnext : env.IsCluster (env.next k) := hway 0 (Nat.succ_pos n)
    have hrest := ih (show n ≤ fuel by omega) (k + 1) (fptr + env.bcs) (env.next k) fun j hj => by
      have := hway (j + 1) (by omega)
      rwa [show k + (j + 1) = k + 1 + j by omega] at this
    simp only [followChain, if_pos hlong, if_neg hnext.ne_error, if_neg (SeekEnv.isCluster_iff.mp hnext),
      hnext.ne_zero, and_false, if_false]
    rw [show o + (n + 1) * env.bcs - env.bcs = o + n * env.bcs by rw [Nat.succ_mul]; omega, hrest,
      SeekEnv.after_succ k n clst,
      show fptr + env.bcs + n * env.bcs = fptr + (n + 1) * env.bcs by rw [Nat.succ_mul]; omega]

/-- **The loop stops** at the first answer that is no cluster. -/
theorem followChain_of_stop {o : ℕ} (hpos : 0 < o) {n j fuel : ℕ} (hj : j < n) (hfuel : n ≤ fuel)
    (k fptr : ℕ) (clst : BitVec 32) (hway : ∀ i < j, env.IsCluster (env.next (k + i)))
    (hfail : ¬env.IsCluster (env.next (k + j))) :
    ((writable = true ∧ env.next (k + j) = 0#32) ∧
      followChain env writable fuel k (o + n * env.bcs) fptr clst = .full (fptr + (j + 1) * env.bcs)) ∨
    (¬(writable = true ∧ env.next (k + j) = 0#32) ∧ ∃ res,
      followChain env writable fuel k (o + n * env.bcs) fptr clst =
        .abort res (fptr + (j + 1) * env.bcs)) := by
  induction j generalizing n fuel k fptr clst with
  | zero =>
    obtain ⟨n, rfl⟩ : ∃ m, n = m + 1 := ⟨n - 1, by omega⟩
    obtain ⟨fuel, rfl⟩ : ∃ f, fuel = f + 1 := ⟨fuel - 1, by omega⟩
    have hlong : o + (n + 1) * env.bcs > env.bcs := by
      rw [Nat.succ_mul]
      omega
    rw [Nat.add_zero, SeekEnv.isCluster_iff, not_not] at hfail
    simp only [followChain, if_pos hlong, Nat.add_zero, Nat.zero_add, Nat.one_mul]
    by_cases hfull : writable = true ∧ env.next k = 0#32
    · exact Or.inl ⟨hfull, by rw [if_pos hfull]⟩
    · refine Or.inr ⟨hfull, ?_⟩
      rw [if_neg hfull]
      by_cases herr : env.next k = 0xFFFFFFFF#32
      · exact ⟨_, if_pos herr⟩
      · exact ⟨_, by rw [if_neg herr, if_pos hfail]⟩
  | succ j ih =>
    obtain ⟨n, rfl⟩ : ∃ m, n = m + 1 := ⟨n - 1, by omega⟩
    obtain ⟨fuel, rfl⟩ : ∃ f, fuel = f + 1 := ⟨fuel - 1, by omega⟩
    have hlong : o + (n + 1) * env.bcs > env.bcs := by
      rw [Nat.succ_mul]
      omega
    have hnext : env.IsCluster (env.next k) := hway 0 (Nat.succ_pos j)
    have hrest := ih (show j < n by omega) (show n ≤ fuel by omega) (k + 1) (fptr + env.bcs)
      (env.next k) (fun i hi => by
        have := hway (i + 1) (by omega)
        rwa [show k + (i + 1) = k + 1 + i by omega] at this)
      (by rwa [show k + (j + 1) = k + 1 + j by omega] at hfail)
    simp only [followChain, if_pos hlong, if_neg hnext.ne_error, if_neg (SeekEnv.isCluster_iff.mp hnext),
      hnext.ne_zero, and_false, if_false]
    rwa [show o + (n + 1) * env.bcs - env.bcs = o + n * env.bcs by rw [Nat.succ_mul]; omega,
      show fptr + (j + 1 + 1) * env.bcs = fptr + env.bcs + (j + 1) * env.bcs by
        rw [Nat.succ_mul (j + 1)]; omega,
      show k + (j + 1) = k + 1 + j by omega]

end Answered

section Courses

variable (fil : Fil) (env : SeekEnv) (ofs : ℕ)

theorem seekFrom_le : seekFrom fil env ofs ≤ (ofs - 1) / env.bcs := by
  unfold seekFrom
  split
  · rename_i hon
    exact hon.2
  · exact Nat.zero_le _

theorem SeekEnv.inCluster_pos {ofs : ℕ} (hofs : 0 < ofs) : 0 < env.inCluster ofs := by
  have := Nat.div_mul_le_self (ofs - 1) env.bcs
  unfold SeekEnv.inCluster
  omega

theorem SeekEnv.inCluster_le : env.inCluster ofs ≤ env.bcs := by
  have := Nat.lt_div_mul_add (a := ofs - 1) env.bcs_pos
  unfold SeekEnv.inCluster
  omega

/-- A cluster is made of whole sectors. -/
theorem SeekEnv.mul_bcs_mod (n : ℕ) : n * env.bcs % sectorSize = 0 := by
  rw [SeekEnv.bcs, ← Nat.mul_assoc]
  exact Nat.mul_mod_left _ _

theorem SeekEnv.inCluster_mod {ofs : ℕ} (hofs : 0 < ofs) :
    env.inCluster ofs % sectorSize = ofs % sectorSize := by
  have hle := Nat.div_mul_le_self (ofs - 1) env.bcs
  have hsplit : ofs = env.inCluster ofs + (ofs - 1) / env.bcs * env.bcs := by
    unfold SeekEnv.inCluster
    omega
  conv_rhs => rw [hsplit, Nat.add_mod, SeekEnv.mul_bcs_mod, Nat.add_zero, Nat.mod_mod]

/-- The way from the cluster a seek sets out from. -/
theorem sub_seekFrom_mul {ofs : ℕ} (hofs : 0 < ofs) :
    ofs - seekFrom fil env ofs * env.bcs =
      env.inCluster ofs + seekSteps fil env ofs * env.bcs := by
  have hle := Nat.div_mul_le_self (ofs - 1) env.bcs
  have hfrom := Nat.mul_le_mul_right env.bcs (seekFrom_le fil env ofs)
  rw [SeekEnv.inCluster, seekSteps, Nat.sub_mul]
  omega

variable {fil env ofs}

/-- **What becomes of a seek** along a chain. -/
theorem seekChain_course (hofs : 0 < ofs) (hbegins : Begins fil env ofs) (sclust : BitVec 32) :
    Course fil env ofs (seekChain env (has fil.flag faWrite) sclust
      (ofs - seekFrom fil env ofs * env.bcs) (seekFrom fil env ofs * env.bcs)
      (seekFirst fil env ofs)) := by
  have hpos := SeekEnv.inCluster_pos env hofs
  have hmod := SeekEnv.inCluster_mod env hofs
  have hfuel : seekSteps fil env ofs ≤
      (env.inCluster ofs + seekSteps fil env ofs * env.bcs) / env.bcs := by
    rw [Nat.le_div_iff_mul_le env.bcs_pos]
    exact Nat.le_add_left _ _
  rw [sub_seekFrom_mul fil env hofs, seekChain]
  by_cases hfirst : seekFirst fil env ofs = 0#32
  · rw [if_pos hfirst]
    exact .noCluster hbegins hfirst rfl rfl rfl
  rw [if_neg hfirst]
  by_cases hway : ∀ k < seekSteps fil env ofs, env.IsCluster (env.next k)
  · -- every answer is a cluster
    have hend : seekFrom fil env ofs * env.bcs + seekSteps fil env ofs * env.bcs +
        env.inCluster ofs = ofs := by
      have := sub_seekFrom_mul fil env hofs
      omega
    rw [followChain_of_way _ hpos (SeekEnv.inCluster_le env ofs) hfuel 0 _ _
      (by simpa only [Nat.zero_add] using hway)]
    simp only [hmod, hend]
    by_cases hzero : ofs % sectorSize = 0
    · rw [if_pos hzero]
      exact .arrives hbegins hfirst hway (by simp [hzero]) rfl rfl fun _ hne => absurd hzero hne
    · rw [if_neg hzero, ← seekLast]
      by_cases hsect : env.clst2sect (seekLast fil env ofs) = 0#32
      · rw [if_pos hsect]
        exact .arrives hbegins hfirst hway (by simp [hzero, hsect]) rfl rfl fun hcon => by simp at hcon
      · rw [if_neg hsect]
        exact .arrives hbegins hfirst hway (by simp [hsect]) rfl rfl fun _ _ => rfl
  · -- one is not, and the first of these ends the loop
    classical
    have hex : ∃ j, j < seekSteps fil env ofs ∧ ¬env.IsCluster (env.next j) := by
      simpa using hway
    obtain ⟨hj, hfail⟩ := Nat.find_spec hex
    have hbefore : ∀ k < Nat.find hex, env.IsCluster (env.next k) := by
      intro k hk
      by_contra hcon
      exact Nat.find_min hex hk ⟨hk.trans hj, hcon⟩
    have hplace : seekFrom fil env ofs * env.bcs + (Nat.find hex + 1) * env.bcs =
        (seekFrom fil env ofs + Nat.find hex + 1) * env.bcs := by
      rw [← Nat.add_mul, Nat.add_assoc]
    rcases followChain_of_stop (has fil.flag faWrite) hpos hj hfuel 0
      (seekFrom fil env ofs * env.bcs) (seekFirst fil env ofs)
      (by simpa only [Nat.zero_add] using hbefore) (by simpa only [Nat.zero_add] using hfail) with
      ⟨hfull, heq⟩ | ⟨hroom, res, heq⟩
    · rw [Nat.zero_add] at hfull
      rw [heq]
      exact .stops hbegins hfirst _ hj hbefore hfail (by simp [hfull]) (fun _ => rfl) hplace
    · rw [Nat.zero_add] at hroom
      rw [heq]
      exact .stops hbegins hfirst _ hj hbefore hfail (by simpa using hroom)
        (fun hcon => by simp at hcon) hplace

/-- **What becomes of a seek.** -/
theorem seekPos_course (fil : Fil) (env : SeekEnv) (hofs : 0 < ofs) :
    Course fil env ofs (seekPos fil env ofs) := by
  have hchain := fun hbegins : Begins fil env ofs => seekChain_course hofs hbegins
  unfold seekPos
  rw [if_neg (Nat.pos_iff_ne_zero.mp hofs)]
  by_cases hon : GoesOn fil env ofs
  · rw [if_pos hon]
    have hcourse := hchain (fun hcon => absurd hon hcon) fil.obj.sclust
    rw [seekFrom, seekFirst, if_pos hon, if_pos hon] at hcourse
    exact hcourse
  · rw [if_neg hon]
    rw [seekFrom, seekFirst, if_neg hon, if_neg hon] at hchain
    simp only [Nat.zero_mul, Nat.sub_zero] at hchain
    by_cases hnone : fil.obj.sclust = 0#32
    · rw [if_neg (not_not.mpr hnone)]
      by_cases hone : env.newChain = 1#32
      · rw [if_pos hone]
        exact .noChain hon hnone (Or.inl hone) (by simp) rfl
      · by_cases herr : env.newChain = 0xFFFFFFFF#32
        · rw [if_neg hone, if_pos herr]
          exact .noChain hon hnone (Or.inr herr) (by simp) rfl
        · rw [if_neg hone, if_neg herr]
          have hcourse := hchain (fun _ _ => ⟨hone, herr⟩) env.newChain
          rwa [if_neg (not_not.mpr hnone)] at hcourse
    · rw [if_pos hnone]
      have hcourse := hchain (fun _ hcon => absurd hcon hnone) fil.obj.sclust
      rwa [if_pos hnone] at hcourse

end Courses

/-! ### Where a seek ends, by the answers -/

section Outcome

variable (fil : Fil) (env : SeekEnv) (ofs : BitVec 32)

/-- The flag of a file that grows says the same of its buffer. -/
theorem has_modified_faDirty :
    ∀ flag : BitVec 8, has (flag ||| faModified) faDirty = has flag faDirty := by decide

theorem seekIo_abort_eq_none_iff :
    (seekIo fil env ofs).abort = none ↔
      (seekPos fil env (clipOfs fil ofs.toNat)).abort = none ∧
        ((seekPos fil env (clipOfs fil ofs.toNat)).fptr % sectorSize ≠ 0 →
          (seekPos fil env (clipOfs fil ofs.toNat)).nsect ≠ env.sect → Loads fil env) := by
  unfold seekIo
  generalize seekPos fil env (clipOfs fil ofs.toNat) = p
  cases habort : p.abort with
  | some res => simp [habort]
  | none =>
    have hdirty : has (if p.fptr > fil.obj.objsize.toNat then fil.flag ||| faModified else fil.flag)
        faDirty = has fil.flag faDirty := by
      split
      · exact has_modified_faDirty fil.flag
      · rfl
    simp only [habort, hdirty, true_and]
    by_cases hload : p.fptr % sectorSize ≠ 0 ∧ p.nsect ≠ env.sect
    · rw [if_pos hload]
      by_cases hwrite : has fil.flag faDirty = true ∧ env.write ≠ .ok
      · rw [if_pos hwrite]
        refine iff_of_false (by simp) fun hcon => hwrite.2 ?_
        exact (hcon hload.1 hload.2).1 hwrite.1
      · rw [if_neg hwrite]
        have hwritten : has fil.flag faDirty = true → env.write = .ok := by
          simpa using hwrite
        have hloads : Loads fil env ↔ env.read = .ok := and_iff_right hwritten
        simp only [hload.1, hload.2, ne_eq, not_false_eq_true, forall_const, hloads]
        by_cases hread : env.read = .ok
        · simp [hread]
        · simp [hread]
    · rw [if_neg hload]
      exact iff_of_true rfl fun hin hother => absurd ⟨hin, hother⟩ hload

theorem seekIo_objsize_eq_iff :
    (seekIo fil env ofs).objsize = fil.obj.objsize ↔
      ((seekPos fil env (clipOfs fil ofs.toNat)).abort = none →
        (seekPos fil env (clipOfs fil ofs.toNat)).fptr ≤ fil.obj.objsize.toNat) := by
  by_cases hfound : (seekPos fil env (clipOfs fil ofs.toNat)).abort = none
  · by_cases hgrows : fil.obj.objsize.toNat < (seekPos fil env (clipOfs fil ofs.toNat)).fptr
    · refine iff_of_false (fun hsame => ?_) fun hcon => absurd (hcon hfound) (by omega)
      have hsize := seekIo_objsize_of_gt fil env ofs hfound hgrows
      rw [hsame] at hsize
      omega
    · refine iff_of_true ?_ fun _ => by omega
      unfold seekIo
      dsimp only
      simp only [hfound, if_neg (show ¬_ > _ from hgrows)]
      split_ifs <;> rfl
  · refine iff_of_true ?_ fun hcon => absurd hcon hfound
    unfold seekIo
    dsimp only
    split
    · rfl
    · rename_i hnone
      exact absurd hnone hfound

theorem goesOn_of_le {fil : Fil} {env : SeekEnv} {ofs : ℕ} (hpos : 0 < fil.fptr.toNat)
    (hle : fil.fptr.toNat ≤ ofs) : GoesOn fil env ofs :=
  ⟨hpos, Nat.div_le_div_right (by omega)⟩

theorem SeekEnv.pred_mul_bcs_div (k : ℕ) : ((k + 1) * env.bcs - 1) / env.bcs = k := by
  have hpos := env.bcs_pos
  refine Nat.div_eq_of_lt_le ?_ ?_
  · rw [Nat.succ_mul]
    omega
  · exact Nat.sub_lt (Nat.mul_pos (Nat.succ_pos k) hpos) Nat.one_pos

theorem SeekEnv.exists_succ_mul_bcs {n : ℕ} (hpos : 0 < n) (h : env.bcs ∣ n) :
    ∃ k, n = (k + 1) * env.bcs := by
  obtain ⟨k, rfl⟩ := h
  obtain ⟨k, rfl⟩ := Nat.exists_eq_succ_of_ne_zero (Nat.pos_of_mul_pos_left hpos).ne'
  exact ⟨k, Nat.mul_comm _ _⟩

/-- **A seek gets to the offset** exactly if the disk lets it through. -/
theorem seek_arrives_iff :
    (seekIo fil env ofs).abort = none ∧ (seekPos fil env (clipOfs fil ofs.toNat)).cut = false ↔
      (0 < clipOfs fil ofs.toNat → Clear fil env (clipOfs fil ofs.toNat)) := by
  rw [seekIo_abort_eq_none_iff]
  generalize clipOfs fil ofs.toNat = o
  rcases Nat.eq_zero_or_pos o with rfl | hpos
  · simp [seekPos]
  rw [forall_prop_of_true hpos]
  cases seekPos_course fil env hpos with
  | noChain hon hnone hfail habort hfptr =>
    refine iff_of_false (fun h => habort h.1.1) fun hclear => ?_
    exact hfail.elim (hclear.begins hon hnone).1 (hclear.begins hon hnone).2
  | noCluster hbegins hfirst habort hcut hfptr =>
    exact iff_of_false (fun h => by simp [hcut] at h) fun hclear => hclear.first hfirst
  | stops hbegins hfirst j hj hway hfail habort hcut hfptr =>
    exact iff_of_false (fun h => by simp [hcut h.1.1] at h) fun hclear => hfail (hclear.way j hj)
  | arrives hbegins hfirst hway habort hcut hfptr hnsect =>
    constructor
    · rintro ⟨⟨hnone, hloads⟩, -⟩
      refine ⟨hbegins, hfirst, hway, habort.mp hnone, fun hin hother => hloads ?_ ?_⟩
      · rwa [hfptr]
      · rwa [hnsect hnone hin]
    · intro hclear
      have hnone := habort.mpr hclear.inside
      refine ⟨⟨hnone, fun hin hother => ?_⟩, hcut⟩
      rw [hfptr] at hin
      rw [hnsect hnone hin] at hother
      exact hclear.loads hin hother

/-- A seek on from where the object is. -/
theorem seekFirst_of_goesOn {fil : Fil} {env : SeekEnv} {o : ℕ} (hon : GoesOn fil env o) :
    seekFirst fil env o = env.clust := if_pos hon

theorem seekFrom_of_goesOn {fil : Fil} {env : SeekEnv} {o : ℕ} (hon : GoesOn fil env o) :
    seekFrom fil env o = (fil.fptr.toNat - 1) / env.bcs := if_pos hon

/-- A seek to where the object is follows no cluster. -/
theorem seekSteps_self {fil : Fil} {env : SeekEnv} (hpos : 0 < fil.fptr.toNat) :
    seekSteps fil env fil.fptr.toNat = 0 := by
  rw [seekSteps, seekFrom_of_goesOn (goesOn_of_le hpos le_rfl), Nat.sub_self]

theorem seekLast_self {fil : Fil} {env : SeekEnv} (hpos : 0 < fil.fptr.toNat) :
    seekLast fil env fil.fptr.toNat = env.clust := by
  rw [seekLast, seekSteps_self hpos, seekFirst_of_goesOn (goesOn_of_le hpos le_rfl)]
  rfl

/-- A seek from the end of a cluster follows one at least. -/
theorem seekSteps_pos {fil : Fil} {env : SeekEnv} {o : ℕ} (hpos : 0 < fil.fptr.toNat)
    (hend : env.bcs ∣ fil.fptr.toNat) (hlt : fil.fptr.toNat < o) : 0 < seekSteps fil env o := by
  obtain ⟨k, hk⟩ := SeekEnv.exists_succ_mul_bcs env hpos hend
  have hle : k + 1 ≤ (o - 1) / env.bcs := by
    rw [Nat.le_div_iff_mul_le env.bcs_pos]
    omega
  rw [seekSteps, seekFrom_of_goesOn (goesOn_of_le hpos hlt.le), hk, SeekEnv.pred_mul_bcs_div]
  omega

/-- A seek that stops where it was: it has set out from the end of a cluster, and the first answer
has stopped it. -/
theorem stops_self {fil : Fil} {env : SeekEnv} {o j : ℕ} (hj : j < seekSteps fil env o)
    (hself : (seekFrom fil env o + j + 1) * env.bcs = fil.fptr.toNat) :
    0 < fil.fptr.toNat ∧ env.bcs ∣ fil.fptr.toNat ∧ fil.fptr.toNat < o ∧ j = 0 := by
  have hpos : 0 < fil.fptr.toNat := by
    rw [← hself]
    exact Nat.mul_pos (Nat.succ_pos _) env.bcs_pos
  have hplace : (fil.fptr.toNat - 1) / env.bcs = seekFrom fil env o + j := by
    rw [← hself, SeekEnv.pred_mul_bcs_div]
  have hlt : fil.fptr.toNat < o := by
    have hmul : (seekFrom fil env o + j + 1) * env.bcs ≤ (o - 1) / env.bcs * env.bcs := by
      refine Nat.mul_le_mul_right _ ?_
      unfold seekSteps at hj
      omega
    have := Nat.div_mul_le_self (o - 1) env.bcs
    omega
  refine ⟨hpos, ⟨_, by rw [← hself, Nat.mul_comm]⟩, hlt, ?_⟩
  have hfrom := seekFrom_of_goesOn (show GoesOn fil env o from goesOn_of_le hpos hlt.le)
  omega

/-- **A seek fails where it is**, with the position and the size as they were, exactly if it is
stuck there. -/
theorem seek_stuck_iff :
    ((seekIo fil env ofs).abort ≠ none ∧ (seekIo fil env ofs).fptr = fil.fptr ∧
        (seekIo fil env ofs).objsize = fil.obj.objsize) ↔
      Stuck fil env (clipOfs fil ofs.toNat) := by
  have hfptr : (seekIo fil env ofs).fptr = fil.fptr ↔
      (seekPos fil env (clipOfs fil ofs.toNat)).fptr = fil.fptr.toNat := by
    rw [← seekIo_fptr, BitVec.toNat_inj]
  rw [ne_eq, seekIo_abort_eq_none_iff, hfptr, seekIo_objsize_eq_iff]
  generalize clipOfs fil ofs.toNat = o
  rcases Nat.eq_zero_or_pos o with rfl | hpos
  · -- a seek to the start does not fail
    refine iff_of_false (by simp [seekPos]) ?_
    rintro (⟨hofs, -, -, -⟩ | ⟨-, -, hofs, -, -, -⟩ | ⟨-, hin, -, -⟩ | ⟨-, hin, -, -, -, -⟩)
    · omega
    · omega
    · exact hin rfl
    · exact hin rfl
  have hnew : fil.fptr = 0#32 → ¬GoesOn fil env o := by
    rintro hzero ⟨hgt, -⟩
    simp [hzero] at hgt
  cases seekPos_course fil env hpos with
  | noChain hon hnone hfail habort hat =>
    constructor
    · rintro ⟨-, hself, -⟩
      refine .chain hpos (BitVec.eq_of_toNat_eq ?_) hnone hfail
      rw [← hself, hat]
      rfl
    · rintro (⟨-, hstart, -, -⟩ | ⟨hgt, -, hlt, -, -, -⟩ | ⟨rfl, -, -, -⟩ | ⟨rfl, -, -, -, -, -⟩)
      · exact ⟨fun hcon => habort hcon.1, by rw [hat, hstart]; rfl, fun hcon => absurd hcon habort⟩
      · exact absurd (goesOn_of_le hgt hlt.le) hon
      · exact absurd (goesOn_of_le hpos le_rfl) hon
      · exact absurd (goesOn_of_le hpos le_rfl) hon
  | noCluster hbegins hfirst habort hcut hat =>
    refine iff_of_false (fun h => h.1 ⟨habort, fun hin => ?_⟩) ?_
    · rw [hat] at hin
      exact absurd (SeekEnv.mul_bcs_mod env _) hin
    · rintro (⟨-, hstart, hnone, hfail⟩ | ⟨hgt, -, hlt, hclust, -, -⟩ | ⟨rfl, -, hclust, -⟩ |
        ⟨rfl, -, hclust, -, -, -⟩)
      · exact hfail.elim (hbegins (hnew hstart) hnone).1 (hbegins (hnew hstart) hnone).2
      · exact hclust (by rw [← seekFirst_of_goesOn (goesOn_of_le hgt hlt.le), hfirst])
      · exact hclust (by rw [← seekFirst_of_goesOn (goesOn_of_le hpos le_rfl), hfirst])
      · exact hclust (by rw [← seekFirst_of_goesOn (goesOn_of_le hpos le_rfl), hfirst])
  | stops hbegins hfirst j hj hway hfail habort hcut hat =>
    have hsector : (seekPos fil env o).fptr % sectorSize = 0 := by
      rw [hat]
      exact SeekEnv.mul_bcs_mod env _
    constructor
    · rintro ⟨hfails, hself, -⟩
      obtain ⟨hgt, hend, hlt, rfl⟩ := stops_self hj (hat.symm.trans hself)
      refine .cluster hgt hend hlt ?_ hfail fun hfull => hfails ⟨habort.mpr hfull, fun hin => ?_⟩
      · rwa [← seekFirst_of_goesOn (goesOn_of_le hgt hlt.le)]
      · exact absurd hsector hin
    · rintro (⟨-, hstart, hnone, hcon⟩ | ⟨hgt, hend, hlt, -, hbad, hroom⟩ | ⟨rfl, -, -, -⟩ |
        ⟨rfl, -, -, -, -, -⟩)
      · exact (hcon.elim (hbegins (hnew hstart) hnone).1 (hbegins (hnew hstart) hnone).2).elim
      · obtain rfl : j = 0 := by
          by_contra hne
          exact hbad (hway 0 (Nat.pos_of_ne_zero hne))
        have hsome : ¬(seekPos fil env o).abort = none := fun hcon => hroom (habort.mp hcon)
        refine ⟨fun hcon => hsome hcon.1, ?_, fun hcon => absurd hcon hsome⟩
        obtain ⟨k, hk⟩ := SeekEnv.exists_succ_mul_bcs env hgt hend
        rw [hat, seekFrom_of_goesOn (goesOn_of_le hgt hlt.le), hk, SeekEnv.pred_mul_bcs_div]
      · rw [seekSteps_self hpos] at hj
        omega
      · rw [seekSteps_self hpos] at hj
        omega
  | arrives hbegins hfirst hway habort hcut hat hnsect =>
    constructor
    · rintro ⟨hfails, hself, hsize⟩
      rw [hat] at hself
      subst hself
      rw [seekFirst_of_goesOn (goesOn_of_le hpos le_rfl)] at hfirst
      by_cases hnone : (seekPos fil env fil.fptr.toNat).abort = none
      · -- the sector is known, and cannot be loaded
        have hload : ¬(fil.fptr.toNat % sectorSize ≠ 0 →
            seekSector fil env fil.fptr.toNat ≠ env.sect → Loads fil env) := by
          intro hloads
          refine hfails ⟨hnone, fun hin hother => ?_⟩
          rw [hat] at hin
          rw [hnsect hnone hin] at hother
          exact hloads hin hother
        simp only [Classical.not_imp] at hload
        have hle := hsize hnone
        rw [hat] at hle
        exact .buffer rfl hload.1 hfirst hle hload.2.1 hload.2.2
      · rw [habort, seekLast_self hpos] at hnone
        simp only [Classical.not_imp, not_not] at hnone
        exact .sector rfl hnone.1 hfirst hnone.2
    · rintro (⟨-, hstart, hnone, hcon⟩ | ⟨hgt, hend, hlt, -, hbad, -⟩ | ⟨rfl, hin, -, hzero⟩ |
        ⟨rfl, hin, -, hsize, hother, hloads⟩)
      · exact (hcon.elim (hbegins (hnew hstart) hnone).1 (hbegins (hnew hstart) hnone).2).elim
      · exact absurd (hway 0 (seekSteps_pos hgt hend hlt)) hbad
      · have hsome : ¬(seekPos fil env fil.fptr.toNat).abort = none := by
          rw [habort, seekLast_self hpos]
          exact fun hcon => hcon hin hzero
        exact ⟨fun hcon => hsome hcon.1, hat, fun hcon => absurd hcon hsome⟩
      · refine ⟨fun hcon => hloads (hcon.2 ?_ ?_), hat, fun _ => ?_⟩
        · rwa [hat]
        · rwa [hnsect hcon.1 hin]
        · rwa [hat]

end Outcome

end FatFs

end BareMetal
