import BareMetal.Fallible
import BareMetal.FatFs.File
import BareMetal.FatFs.Sectors

/-!
# The calls on an open file

`f_read`, `f_write`, `f_lseek` and `f_truncate`, as they go through the sectors of a file: along the chain,
which writing and seeking stretch, through the buffer of the object for parts of sectors, and past it for
whole ones. An error that one of the parts finds ends the call and is left in the object (`ABORT`); a full
volume ends the loop of `f_write` and of `f_lseek` without one.

The calls are programs that may fail (`BareMetal.Fallible`) on the volume, the object and the bytes moved so
far. The loops are given as many rounds as there are bytes or clusters, which is never too few.
-/

namespace BareMetal

namespace FatFs

variable {δ : Type} [DiskIo δ]

/-- `FIL` with the fields that say where its data is: the cluster of the last byte before the
position, the sector in the private buffer, and where the directory entry is. -/
structure OpenFil extends Fil where
  clust : BitVec 32
  sect : BitVec 32
  buf : Sector
  dirSect : BitVec 32
  dirPtr : ℕ

/-- What a call on a file works on: the volume, the file, and the bytes that it has moved. -/
structure FileState (δ : Type) where
  vol : Vol δ
  fil : OpenFil
  moved : List (BitVec 8)

/-- The code of a call, which may leave with an error. -/
abbrev FileM (δ : Type) := Fallible (FileState δ) InnerResult

namespace Stream

/-! ### The parts -/

def modifyFil (h : OpenFil → OpenFil) : FileM δ Unit := modify fun s => { s with fil := h s.fil }

/-- The disk under the window, after a transfer that goes past the window. -/
def setDisk (v : Vol δ) (d : δ) : Vol δ := { v with window := { v.window with disk := d } }

/-- A call of `get_fat`. -/
def readFat (g : Geometry) (clst : BitVec 32) : FileM δ (BitVec 32) := do
  let s ← get
  set { s with vol := { s.vol with window := (getFat g s.vol.window clst).2 } }
  pure (getFat g s.vol.window clst).1

/-- A call of `create_chain`. -/
def newCluster (g : Geometry) (clst : BitVec 32) : FileM δ (BitVec 32) := do
  let s ← get
  set { s with vol := (createChain g s.vol clst).2 }
  pure (createChain g s.vol clst).1

/-- The buffer is written back. -/
def writeBack : FileM δ Unit := do
  let s ← get
  let r := diskWrite s.vol.window.disk (fun _ => s.fil.buf) s.fil.sect 1
  set { s with vol := setDisk s.vol r.2 }
  failIf (r.1 ≠ .ok) .diskErr
  modifyFil fun f => { f with flag := f.flag &&& ~~~faDirty }

/-- The buffer is written back if it has been changed. -/
def flush : FileM δ Unit := do
  let s ← get
  onlyIf (has s.fil.flag faDirty = true) writeBack

/-- The buffer is filled. -/
def load (sect : BitVec 32) : FileM δ Unit := do
  let s ← get
  let r := diskRead s.vol.window.disk sect 1
  set { s with vol := setDisk s.vol r.2, fil := { s.fil with buf := r.1.2 0 } }
  failIf (r.1.1 ≠ .ok) .diskErr

/-- A sector is brought into the buffer. -/
def seize (sect : BitVec 32) : FileM δ Unit := do
  let s ← get
  onlyIf (s.fil.sect ≠ sect) (do
    flush
    load sect)
  modifyFil fun f => { f with sect := sect }

/-- `csect`, the number of a sector in its cluster. -/
def csect (g : Geometry) (fptr : BitVec 32) : BitVec 32 :=
  fptr / 512#32 &&& (g.csize.setWidth 32 - 1#32)

/-- The sector at the position, which is on a sector boundary. -/
def sectorHere (g : Geometry) : FileM δ (BitVec 32) := do
  let s ← get
  failIf (clst2sect g s.fil.clust = 0#32) .intErr
  pure (clst2sect g s.fil.clust + csect g s.fil.fptr)

/-- `cc`: the whole sectors that are left of the cluster and of so many bytes. -/
def sectorsAhead (g : Geometry) (csect : BitVec 32) (bytes : ℕ) : ℕ :=
  if csect.toNat + bytes / 512 > g.csize.toNat then g.csize.toNat - csect.toNat else bytes / 512

/-! ### Reading -/

/-- A cluster that has been followed is checked and taken. -/
def takeCluster (clst : BitVec 32) : FileM δ Unit := do
  failIf (clst < 2#32) .intErr
  failIf (clst = 0xFFFFFFFF#32) .diskErr
  modifyFil fun f => { f with clust := clst }

/-- The next cluster is followed. -/
def readCluster (g : Geometry) : FileM δ Unit := do
  let s ← get
  let clst ← if s.fil.fptr = 0#32 then pure s.fil.obj.sclust else readFat g s.fil.clust
  takeCluster clst

/-- Whole sectors are read directly, one of which may be in the buffer. -/
def readDirect (sect : BitVec 32) (cc : ℕ) : FileM δ (List (BitVec 8)) := do
  let s ← get
  let r := diskRead s.vol.window.disk sect cc
  set { s with vol := setDisk s.vol r.2 }
  failIf (r.1.1 ≠ .ok) .diskErr
  let b := if has s.fil.flag faDirty = true ∧ (s.fil.sect - sect).toNat < cc then
    Function.update r.1.2 (s.fil.sect - sect).toNat s.fil.buf else r.1.2
  pure ((List.range (512 * cc)).map fun i => peek (b (i / 512)) i)

/-- A part of the sector in the buffer. -/
def readPart (btr : ℕ) : FileM δ (List (BitVec 8)) := do
  let s ← get
  let ofs := s.fil.fptr.toNat % 512
  pure ((List.range (min (512 - ofs) btr)).map fun i => peek s.fil.buf (ofs + i))

/-- One round of the loop of `f_read`. -/
def readStep (g : Geometry) (btr : ℕ) : FileM δ (List (BitVec 8)) := do
  let s ← get
  if s.fil.fptr.toNat % 512 = 0 then do
    onlyIf (csect g s.fil.fptr = 0#32) (readCluster g)
    let sect ← sectorHere g
    if btr / 512 > 0 then readDirect sect (sectorsAhead g (csect g s.fil.fptr) btr)
    else do
      seize sect
      readPart btr
  else readPart btr

/-- The loop of `f_read`, for at most so many rounds. -/
def readLoop (g : Geometry) : ℕ → ℕ → FileM δ Unit
  | 0, _ => pure ()
  | fuel + 1, btr =>
      if btr = 0 then pure ()
      else do
        let bytes ← readStep g btr
        modify fun s => { s with
          fil := { s.fil with fptr := s.fil.fptr + BitVec.ofNat 32 bytes.length }
          moved := s.moved ++ bytes }
        readLoop g fuel (btr - bytes.length)

/-- `f_read` behind its checks. -/
def readBody (g : Geometry) (btr : BitVec 32) : FileM δ Unit := do
  let s ← get
  let remain := s.fil.obj.objsize - s.fil.fptr
  let btr := if btr > remain then remain else btr
  readLoop g btr.toNat btr.toNat

/-! ### Writing -/

/-- A cluster that has been followed or created is checked and taken; `false` if there is none. -/
def keepCluster (clst : BitVec 32) : FileM δ Bool :=
  if clst = 0#32 then pure false
  else do
    failIf (clst = 1#32) .intErr
    failIf (clst = 0xFFFFFFFF#32) .diskErr
    modifyFil fun f => { f with
      clust := clst
      obj := { f.obj with sclust := if f.obj.sclust = 0#32 then clst else f.obj.sclust } }
    pure true

/-- The next cluster is followed, or the chain stretched; `false` if the volume is full. -/
def writeCluster (g : Geometry) : FileM δ Bool := do
  let s ← get
  let clst ←
    if s.fil.fptr = 0#32 then
      if s.fil.obj.sclust = 0#32 then newCluster g 0#32 else pure s.fil.obj.sclust
    else newCluster g s.fil.clust
  keepCluster clst

/-- A sector of the caller's data. -/
def sectorFrom (data : List (BitVec 8)) (j : ℕ) : Sector := fun i => data.getD (512 * j + i) 0#8

/-- Whole sectors are written directly, one of which may be in the buffer. -/
def writeDirect (data : List (BitVec 8)) (sect : BitVec 32) (cc : ℕ) : FileM δ ℕ := do
  let s ← get
  let r := diskWrite s.vol.window.disk (sectorFrom data) sect cc
  set { s with vol := setDisk s.vol r.2 }
  failIf (r.1 ≠ .ok) .diskErr
  onlyIf ((s.fil.sect - sect).toNat < cc) (modifyFil fun f => { f with
    buf := sectorFrom data (s.fil.sect - sect).toNat
    flag := f.flag &&& ~~~faDirty })
  pure (512 * cc)

/-- A part of the sector in the buffer. -/
def writePart (data : List (BitVec 8)) : FileM δ ℕ := do
  let s ← get
  let ofs := s.fil.fptr.toNat % 512
  let wcnt := min (512 - ofs) data.length
  modifyFil fun f => { f with
    buf := fun i => if ofs ≤ i ∧ i < ofs + wcnt then data.getD (i - ofs) 0#8 else f.buf i
    flag := f.flag ||| faDirty }
  pure wcnt

/-- A sector is brought into the buffer, unless it is behind the end of the file. -/
def seizeGrowing (sect : BitVec 32) : FileM δ Unit := do
  let s ← get
  onlyIf (s.fil.sect ≠ sect ∧ s.fil.fptr < s.fil.obj.objsize) (load sect)
  modifyFil fun f => { f with sect := sect }

/-- The part of a round of the loop of `f_write` on a sector boundary. -/
def writeSector (g : Geometry) (data : List (BitVec 8)) : FileM δ ℕ := do
  flush
  let s ← get
  let sect ← sectorHere g
  if data.length / 512 > 0 then
    writeDirect data sect (sectorsAhead g (csect g s.fil.fptr) data.length)
  else do
    seizeGrowing sect
    writePart data

/-- One round of the loop of `f_write`: how much it has written, nothing if the volume is full. -/
def writeStep (g : Geometry) (data : List (BitVec 8)) : FileM δ (Option ℕ) := do
  let s ← get
  if s.fil.fptr.toNat % 512 = 0 then do
    let room ← if csect g s.fil.fptr = 0#32 then writeCluster g else pure true
    if room then some <$> writeSector g data else pure none
  else some <$> writePart data

/-- The loop of `f_write`, for at most so many rounds. -/
def writeLoop (g : Geometry) : ℕ → List (BitVec 8) → FileM δ Unit
  | 0, _ => pure ()
  | fuel + 1, data =>
      if data = [] then pure ()
      else do
        let wcnt ← writeStep g data
        match wcnt with
        | none => pure ()
        | some wcnt => do
            modify fun s =>
              let fptr := s.fil.fptr + BitVec.ofNat 32 wcnt
              { s with
                fil := { s.fil with
                  fptr := fptr
                  obj := { s.fil.obj with
                    objsize := if fptr > s.fil.obj.objsize then fptr else s.fil.obj.objsize } }
                moved := s.moved ++ data.take wcnt }
            writeLoop g fuel (data.drop wcnt)

/-- `f_write` behind its checks. -/
def writeBody (g : Geometry) (data : List (BitVec 8)) : FileM δ Unit := do
  let s ← get
  let btw := BitVec.ofNat 32 data.length
  let btw := if s.fil.fptr + btw < s.fil.fptr then 0xFFFFFFFF#32 - s.fil.fptr else btw
  writeLoop g btw.toNat (data.take btw.toNat)
  modifyFil fun f => { f with flag := f.flag ||| faModified }

/-! ### Seeking -/

/-- The cluster to start from: that of the position if the target is not before it, or else the
first one, which may have to be created. With it comes what is left of the offset. -/
def seekStart (g : Geometry) (ifptr : BitVec 32) (ofs : ℕ) : FileM δ (ℕ × BitVec 32) := do
  let s ← get
  let bcs := g.csize.toNat * 512
  if ifptr.toNat > 0 ∧ (ofs - 1) / bcs ≥ (ifptr.toNat - 1) / bcs then do
    let fptr := (ifptr - 1#32) &&& ~~~(BitVec.ofNat 32 bcs - 1#32)
    modifyFil fun f => { f with fptr := fptr }
    pure (ofs - fptr.toNat, s.fil.clust)
  else if s.fil.obj.sclust = 0#32 then do
    let clst ← newCluster g 0#32
    failIf (clst = 1#32) .intErr
    failIf (clst = 0xFFFFFFFF#32) .diskErr
    modifyFil fun f => { f with obj := { f.obj with sclust := clst }, clust := clst }
    pure (ofs, clst)
  else do
    modifyFil fun f => { f with clust := s.fil.obj.sclust }
    pure (ofs, s.fil.obj.sclust)

/-- The loop of `f_lseek` along the chain, for at most so many clusters: what is left of the
offset, and the cluster; both are 0 if the volume is full. -/
def seekLoop (g : Geometry) (writable : Bool) : ℕ → ℕ → BitVec 32 → FileM δ (ℕ × BitVec 32)
  | 0, ofs, clst => pure (ofs, clst)
  | fuel + 1, ofs, clst =>
      if ofs > g.csize.toNat * 512 then do
        modifyFil fun f => { f with fptr := f.fptr + BitVec.ofNat 32 (g.csize.toNat * 512) }
        let next ← if writable then newCluster g clst else readFat g clst
        if writable = true ∧ next = 0#32 then pure (0, 0#32)
        else do
          failIf (next = 0xFFFFFFFF#32) .diskErr
          failIf (next ≤ 1#32 ∨ next ≥ g.nFatent) .intErr
          modifyFil fun f => { f with clust := next }
          seekLoop g writable fuel (ofs - g.csize.toNat * 512) next
      else pure (ofs, clst)

/-- The rest of the way inside a cluster, and the sector there if the position is inside one. -/
def seekInside (g : Geometry) (ofs : ℕ) (clst : BitVec 32) : FileM δ (BitVec 32) := do
  modifyFil fun f => { f with fptr := f.fptr + BitVec.ofNat 32 ofs }
  if ofs % 512 ≠ 0 then do
    failIf (clst2sect g clst = 0#32) .intErr
    pure (clst2sect g clst + BitVec.ofNat 32 (ofs / 512))
  else pure 0#32

/-- The way along the chain. -/
def seekAlong (g : Geometry) (ifptr : BitVec 32) (ofs : ℕ) : FileM δ (BitVec 32) := do
  let s ← get
  let start ← seekStart g ifptr ofs
  if start.2 ≠ 0#32 then do
    let stop ← seekLoop g (has s.fil.flag faWrite) (ofs / (g.csize.toNat * 512)) start.1 start.2
    seekInside g stop.1 stop.2
  else pure 0#32

/-- `f_lseek` behind its checks. -/
def seekBody (g : Geometry) (ofs : BitVec 32) : FileM δ Unit := do
  let s ← get
  let ofs := if ofs > s.fil.obj.objsize ∧ has s.fil.flag faWrite = false then s.fil.obj.objsize
    else ofs
  modifyFil fun f => { f with fptr := 0#32 }
  let nsect ← if ofs > 0#32 then seekAlong g s.fil.fptr ofs.toNat else pure 0#32
  modifyFil fun f =>
    if f.fptr > f.obj.objsize then
      { f with obj := { f.obj with objsize := f.fptr }, flag := f.flag ||| faModified }
    else f
  let s ← get
  onlyIf (s.fil.fptr.toNat % 512 ≠ 0) (seize nsect)

/-! ### Truncating -/

/-- A call of `remove_chain`. -/
def dropChain (g : Geometry) (clst pclst : BitVec 32) : FileM δ FResult := do
  let s ← get
  set { s with vol := (removeChain g s.vol clst pclst).2 }
  pure (removeChain g s.vol clst pclst).1

/-- The clusters behind the position are removed. -/
def cutBehind (g : Geometry) : FileM δ FResult := do
  let s ← get
  if s.fil.fptr = 0#32 then do
    let res ← dropChain g s.fil.obj.sclust 0#32
    modifyFil fun f => { f with obj := { f.obj with sclust := 0#32 } }
    pure res
  else do
    let ncl ← readFat g s.fil.clust
    if ncl = 0xFFFFFFFF#32 then pure .diskErr
    else if ncl = 1#32 then pure .intErr
    else if ncl < g.nFatent then dropChain g ncl s.fil.clust
    else pure .ok

/-- `f_truncate` behind its checks. -/
def truncateBody (g : Geometry) : FileM δ Unit := do
  let s ← get
  onlyIf (s.fil.fptr < s.fil.obj.objsize) (do
    let res ← cutBehind g
    modifyFil fun f => { f with
      obj := { f.obj with objsize := f.fptr }
      flag := f.flag ||| faModified }
    if res = .ok then flush
    else throw (if res = .diskErr then .diskErr else .intErr))

/-! ### The calls -/

/-- What a call returns and leaves; `ABORT` keeps the error in the object. -/
def run (m : FileM δ Unit) (v : Vol δ) (f : OpenFil) : (FResult × List (BitVec 8)) × (Vol δ × OpenFil) :=
  match m.from ⟨v, f, []⟩ with
  | (.ok _, s) => ((.ok, s.moved), s.vol, s.fil)
  | (.error e, s) => ((e.toFResult, s.moved), s.vol, { s.fil with err := e.toFResult })

/-- The checks at the head of a call: the object is valid, has not failed before and, if the call
asks for that, was opened for the access. -/
def refusal (vols : Volumes) (f : Fil) (access : Option (BitVec 8)) : Option FResult :=
  if validate vols f.obj ≠ .ok then some (validate vols f.obj)
  else if f.err ≠ .ok then some f.err
  else
    match access with
    | some a => if has f.flag a = false then some .denied else none
    | none => none

/-- A call on a file. -/
def call (vols : Volumes) (access : Option (BitVec 8)) (m : FileM δ Unit) (v : Vol δ) (f : OpenFil) :
    (FResult × List (BitVec 8)) × (Vol δ × OpenFil) :=
  match refusal vols f.toFil access with
  | some res => ((res, []), v, f)
  | none => run m v f

/-- `f_read`, with the bytes it delivers. -/
def fRead (vols : Volumes) (g : Geometry) (v : Vol δ) (f : OpenFil) (btr : BitVec 32) :
    (FResult × List (BitVec 8)) × (Vol δ × OpenFil) :=
  call vols (some faRead) (readBody g btr) v f

/-- `f_write`, with the bytes it has taken. -/
def fWrite (vols : Volumes) (g : Geometry) (v : Vol δ) (f : OpenFil) (data : List (BitVec 8)) :
    (FResult × List (BitVec 8)) × (Vol δ × OpenFil) :=
  call vols (some faWrite) (writeBody g data) v f

/-- `f_lseek`. -/
def fLseek (vols : Volumes) (g : Geometry) (v : Vol δ) (f : OpenFil) (ofs : BitVec 32) :
    (FResult × List (BitVec 8)) × (Vol δ × OpenFil) :=
  call vols none (seekBody g ofs) v f

/-- `f_truncate`. -/
def fTruncate (vols : Volumes) (g : Geometry) (v : Vol δ) (f : OpenFil) :
    (FResult × List (BitVec 8)) × (Vol δ × OpenFil) :=
  call vols (some faWrite) (truncateBody g) v f

end Stream

end FatFs

end BareMetal
