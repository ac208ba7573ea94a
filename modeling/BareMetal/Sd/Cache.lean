import BareMetal.Runs
import BareMetal.DirectMapped
import BareMetal.FatFs.Defs

/-!
# The sector cache of the card driver

The card driver reads single sectors through a direct-mapped cache of 8192 sectors and
everything else straight from the card. A miss reads **into the cache entry** and sets its
tag when the read has succeeded; a write goes to the card first and refreshes the cache when
all of it has succeeded. Both orders leave a window: a read that fails half way has already
overwritten the sector the old tag still names, and a write that fails half way has already
changed sectors the cache still holds. And the tag of an empty entry, all ones, is a sector
number like any other.

How a transfer of the card ends is an input of the model: a failed read says what it left in
its destination, a failed write how many sectors had reached the card. A transfer is of at
most `2 ^ 23` sectors, since its buffer lies in a 32-bit address space, so that the
conversions of a count to `int` and back are exact.

The cache is an instance of `BareMetal.DirectMapped`, and what the card driver is for is
`BareMetal.Sd.Delivers`: a read that succeeds delivers the sectors that are on the card. It
holds in every run that keeps out of the three windows (`BareMetal.Sd.delivers_of_sdOk`).
-/

namespace BareMetal

namespace Sd

open FatFs (DResult DStatus staNoinit has)

/-! ### The code -/

/-- The card and its driver: `diskio_status`, `cached_blocks` with `cache_buffer`, and the
sectors on the card. A sector's content is a value of `B`. -/
structure Driver (B : Type) where
  status : DStatus
  cache : DirectMapped (Fin 8192) (BitVec 32) B
  card : BitVec 32 → B

/-- How `mmc_read_blocks` ends. -/
inductive CardRead (B : Type) where
  | ok
  /-- It fails, and has left this in the first sector of its destination. -/
  | fail (left : B)

/-- How `mmc_write_blocks` ends. -/
inductive CardWrite where
  | ok
  /-- It fails after so many sectors. -/
  | fail (written : ℕ)

/-- `(uint32_t) ~0`, the tag of an empty entry. -/
def emptyTag : BitVec 32 := BitVec.allOnes 32

/-- `sector & CACHE_MASK`. -/
def cacheIndex (sector : BitVec 32) : Fin 8192 :=
  ⟨(sector &&& 0x1FFF#32).toNat, by
    rw [BitVec.toNat_and]
    exact Nat.and_lt_two_pow _ (by decide : 0x1FFF < 2 ^ 13)⟩

variable {B : Type}

/-- The `count` sectors from `sector` on. -/
def readBlocks (card : BitVec 32 → B) (sector : BitVec 32) (count : ℕ) : List B :=
  (List.range count).map fun i => card (sector + BitVec.ofNat 32 i)

/-- Write sectors to the card, from `sector` on. -/
def writeBlocks (card : BitVec 32 → B) (sector : BitVec 32) : List B → BitVec 32 → B
  | [] => card
  | b :: data => writeBlocks (Function.update card sector b) (sector + 1#32) data

/-- The loop of `sdcard_write` that refreshes the cache. -/
def cacheBlocks (c : DirectMapped (Fin 8192) (BitVec 32) B) (sector : BitVec 32) :
    List B → DirectMapped (Fin 8192) (BitVec 32) B
  | [] => c
  | b :: data => cacheBlocks (c.install (cacheIndex sector) sector b) (sector + 1#32) data

/-- `sdcard_init`, given whether `sunxi_mmc_init` succeeds. -/
def sdcardInit (s : Driver B) (mmcInit : Bool) : DResult × Driver B :=
  if mmcInit then
    (.ok, { s with cache := { s.cache with tag := fun _ => emptyTag } })
  else
    (.error, s)

/-- `sdcard_read`, with what it delivers. -/
def sdcardRead (s : Driver B) (sector : BitVec 32) (count : ℕ) (r : CardRead B) :
    (DResult × List B) × Driver B :=
  if count = 1 then
    let index := cacheIndex sector
    if s.cache.tag index ≠ sector then
      match r with
      | .fail left => ((.error, []), { s with cache := s.cache.scribble index left })
      | .ok =>
          let c := s.cache.install index sector (s.card sector)
          ((.ok, [c.buf index]), { s with cache := c })
    else
      ((.ok, [s.cache.buf index]), s)
  else
    match r with
    | .fail _ => ((.error, []), s)
    | .ok => ((.ok, readBlocks s.card sector count), s)

/-- `sdcard_write`. -/
def sdcardWrite (s : Driver B) (sector : BitVec 32) (data : List B) (w : CardWrite) :
    DResult × Driver B :=
  match w with
  | .fail n => (.error, { s with card := writeBlocks s.card sector (data.take n) })
  | .ok =>
      (.ok, { s with card := writeBlocks s.card sector data,
                     cache := cacheBlocks s.cache sector data })

/-- `mmc_disk_initialize`. -/
def mmcDiskInitialize (s : Driver B) (drv : BitVec 8) (mmcInit : Bool) : DStatus × Driver B :=
  if drv = 0#8 then
    match sdcardInit s mmcInit with
    | (.ok, s) => (s.status &&& ~~~staNoinit, { s with status := s.status &&& ~~~staNoinit })
    | (_, s) => (s.status, s)
  else
    (s.status, s)

/-- `mmc_disk_read`. -/
def mmcDiskRead (s : Driver B) (drv : BitVec 8) (sector : BitVec 32) (count : ℕ)
    (r : CardRead B) : (DResult × List B) × Driver B :=
  if drv ≠ 0#8 ∨ count = 0 then
    ((.parerr, []), s)
  else if has s.status staNoinit then
    ((.notrdy, []), s)
  else
    sdcardRead s sector count r

/-- `mmc_disk_write`. -/
def mmcDiskWrite (s : Driver B) (drv : BitVec 8) (sector : BitVec 32) (data : List B)
    (w : CardWrite) : DResult × Driver B :=
  if drv ≠ 0#8 ∨ data.length = 0 then
    (.parerr, s)
  else if has s.status staNoinit then
    (.notrdy, s)
  else
    sdcardWrite s sector data w

/-- A call of the driver, and how the card behaves in it. -/
inductive Call (B : Type) where
  | read (drv : BitVec 8) (sector : BitVec 32) (count : ℕ) (r : CardRead B)
  | write (drv : BitVec 8) (sector : BitVec 32) (data : List B) (w : CardWrite)

/-- One call: its result and, for a read, what it delivers. -/
def sdStep (s : Driver B) : Call B → (DResult × List B) × Driver B
  | .read drv sector count r => mmcDiskRead s drv sector count r
  | .write drv sector data w =>
      (((mmcDiskWrite s drv sector data w).1, []), (mmcDiskWrite s drv sector data w).2)

/-! ### What the cache is for -/

/-- **A read that succeeds delivers what is on the card.** -/
def Delivers (s : Driver B) (e : Call B) (o : DResult × List B) : Prop :=
  match e with
  | .read _ sector count _ => o.1 = .ok → o.2 = readBlocks s.card sector count
  | .write .. => True

/-- Keeping out of the windows of the driver: no single sector is read under the number that
tags an empty entry, a single-sector read that misses fails only over an empty entry or
before it has changed it, and a write fails only before it has reached a cached sector. -/
def SdOk (s : Driver B) : Call B → Prop
  | .read drv sector count r =>
      drv = 0#8 → count = 1 → sector ≠ emptyTag ∧
        ∀ left, r = .fail left → s.cache.tag (cacheIndex sector) ≠ sector →
          s.cache.tag (cacheIndex sector) = emptyTag ∨ left = s.cache.buf (cacheIndex sector)
  | .write drv sector data w =>
      drv = 0#8 → ∀ n, w = .fail n → ∀ i < n, i < data.length →
        s.cache.tag (cacheIndex (sector + BitVec.ofNat 32 i)) ≠ sector + BitVec.ofNat 32 i

/-- The cache agrees with the card. -/
def Coherent (s : Driver B) : Prop :=
  DirectMapped.Coherent cacheIndex emptyTag s.cache s.card

theorem coherent_init (s : Driver B) : Coherent (mmcDiskInitialize s 0#8 true).2 :=
  DirectMapped.coherent_empty fun _ => rfl

/-! ### The transfers -/

theorem add_one_add (sector : BitVec 32) (i : ℕ) :
    sector + 1#32 + BitVec.ofNat 32 i = sector + BitVec.ofNat 32 (i + 1) := by
  rw [BitVec.add_assoc, BitVec.ofNat_add, BitVec.add_comm (BitVec.ofNat 32 i)]

/-- A write that succeeds goes to the card and to the cache, sector by sector. -/
theorem coherent_blocks {c : DirectMapped (Fin 8192) (BitVec 32) B} {card : BitVec 32 → B}
    (h : DirectMapped.Coherent cacheIndex emptyTag c card) (sector : BitVec 32) (data : List B) :
    DirectMapped.Coherent cacheIndex emptyTag (cacheBlocks c sector data)
      (writeBlocks card sector data) := by
  induction data generalizing c card sector with
  | nil => exact h
  | cons b data ih => exact ih (h.store sector b) (sector + 1#32)

/-- A write of sectors that are not cached keeps the cache coherent. -/
theorem coherent_uncached {c : DirectMapped (Fin 8192) (BitVec 32) B} {card : BitVec 32 → B}
    (h : DirectMapped.Coherent cacheIndex emptyTag c card) (sector : BitVec 32) (data : List B)
    (hout : ∀ i < data.length,
      c.tag (cacheIndex (sector + BitVec.ofNat 32 i)) ≠ sector + BitVec.ofNat 32 i) :
    DirectMapped.Coherent cacheIndex emptyTag c (writeBlocks card sector data) := by
  induction data generalizing card sector with
  | nil => exact h
  | cons b data ih =>
    have hhead : c.tag (cacheIndex sector) ≠ sector := by
      have := hout 0 (by simp)
      rwa [BitVec.add_zero] at this
    refine ih (h.bypass hhead b) (sector + 1#32) fun i hi => ?_
    rw [add_one_add]
    exact hout (i + 1) (by simpa using hi)

/-! ### One call -/

theorem sdcardRead_hit {s : Driver B} {sector : BitVec 32}
    (htag : s.cache.tag (cacheIndex sector) = sector) (r : CardRead B) :
    sdcardRead s sector 1 r = ((.ok, [s.cache.buf (cacheIndex sector)]), s) := by
  simp [sdcardRead, htag]

theorem sdcardRead_miss_ok {s : Driver B} {sector : BitVec 32}
    (htag : s.cache.tag (cacheIndex sector) ≠ sector) :
    sdcardRead s sector 1 .ok = ((.ok, [s.card sector]),
      { s with cache := s.cache.install (cacheIndex sector) sector (s.card sector) }) := by
  simp [sdcardRead, htag, DirectMapped.install]

theorem sdcardRead_miss_fail {s : Driver B} {sector : BitVec 32}
    (htag : s.cache.tag (cacheIndex sector) ≠ sector) (left : B) :
    sdcardRead s sector 1 (.fail left) =
      ((.error, []), { s with cache := s.cache.scribble (cacheIndex sector) left }) := by
  simp [sdcardRead, htag]

/-- **What a read can do**: deliver nothing, and perhaps overwrite an entry of the cache; fetch the
sector into the cache; find it there; or read past the cache. -/
theorem mmcDiskRead_inv (s : Driver B) (drv : BitVec 8) (sector : BitVec 32) (count : ℕ)
    (r : CardRead B) :
    let o := mmcDiskRead s drv sector count r
    (o.1.2 = [] ∧ o.2 = s) ∨
    (∃ left, r = .fail left ∧ o.1.2 = [] ∧
      o.2 = { s with cache := s.cache.scribble (cacheIndex sector) left }) ∨
    (o.1.2 = [s.card sector] ∧
      o.2 = { s with cache := s.cache.install (cacheIndex sector) sector (s.card sector) }) ∨
    ((drv = 0#8 ∧ has s.status staNoinit = false ∧ count = 1) ∧
      s.cache.tag (cacheIndex sector) = sector ∧
      o.1.2 = [s.cache.buf (cacheIndex sector)] ∧ o.2 = s) ∨
    (o.1.2 = readBlocks s.card sector count ∧ o.2 = s) := by
  unfold mmcDiskRead
  split
  · exact Or.inl ⟨rfl, rfl⟩
  · rename_i hdrv
    split
    · exact Or.inl ⟨rfl, rfl⟩
    · rename_i hready
      unfold sdcardRead
      split
      · rename_i hone
        dsimp only
        split
        · cases r with
          | ok => exact Or.inr (Or.inr (Or.inl ⟨by simp [DirectMapped.install], rfl⟩))
          | fail left => exact Or.inr (Or.inl ⟨left, rfl, rfl, rfl⟩)
        · rename_i hhit
          rw [not_or, not_not] at hdrv
          exact Or.inr (Or.inr (Or.inr (Or.inl
            ⟨⟨hdrv.1, by simpa using hready, hone⟩, not_not.mp hhit, rfl, rfl⟩)))
      · cases r with
        | ok => exact Or.inr (Or.inr (Or.inr (Or.inr ⟨rfl, rfl⟩)))
        | fail left => exact Or.inl ⟨rfl, rfl⟩

/-- **What a write can do**: nothing; write some sectors of the card; or all of them, and the
cache. -/
theorem mmcDiskWrite_inv (s : Driver B) (drv : BitVec 8) (sector : BitVec 32)
    (data : List B) (w : CardWrite) :
    let t := (mmcDiskWrite s drv sector data w).2
    t = s ∨ (∃ n, t = { s with card := writeBlocks s.card sector (data.take n) }) ∨
      t = { s with
        card := writeBlocks s.card sector data, cache := cacheBlocks s.cache sector data } := by
  unfold mmcDiskWrite
  split
  · exact Or.inl rfl
  · split
    · exact Or.inl rfl
    · cases w with
      | ok => exact Or.inr (Or.inr rfl)
      | fail n => exact Or.inr (Or.inl ⟨n, rfl⟩)

/-- **A single-sector read**, hit or miss, keeps the cache coherent and delivers the sector
on the card. -/
theorem sdcardRead_one {s : Driver B} (hs : Coherent s) {sector : BitVec 32} {r : CardRead B}
    (hsector : sector ≠ emptyTag)
    (hfail : ∀ left, r = .fail left → s.cache.tag (cacheIndex sector) ≠ sector →
      s.cache.tag (cacheIndex sector) = emptyTag ∨ left = s.cache.buf (cacheIndex sector)) :
    Coherent (sdcardRead s sector 1 r).2 ∧
      ((sdcardRead s sector 1 r).1.1 = .ok →
        (sdcardRead s sector 1 r).1.2 = [s.card sector]) := by
  by_cases htag : s.cache.tag (cacheIndex sector) = sector
  · rw [sdcardRead_hit htag]
    exact ⟨hs, fun _ => by rw [hs.hit hsector htag]⟩
  · cases r with
    | ok =>
      rw [sdcardRead_miss_ok htag]
      exact ⟨hs.load sector, fun _ => rfl⟩
    | fail left =>
      rw [sdcardRead_miss_fail htag]
      refine ⟨?_, fun h => by simp at h⟩
      -- the entry was empty, or nothing has been overwritten yet
      rcases hfail left rfl htag with hempty | rfl
      · exact DirectMapped.Coherent.scribble hs hempty left
      · rw [Coherent, DirectMapped.scribble_self]
        exact hs

theorem sdcardRead_many (s : Driver B) (sector : BitVec 32) {count : ℕ} (hcount : count ≠ 1)
    (r : CardRead B) : (sdcardRead s sector count r).2 = s ∧
      ((sdcardRead s sector count r).1.1 = .ok →
        (sdcardRead s sector count r).1.2 = readBlocks s.card sector count) := by
  cases r <;> simp [sdcardRead, hcount]

/-- **A read** keeps the cache coherent and delivers what is on the card. -/
theorem mmcDiskRead_spec {s : Driver B} (hs : Coherent s) {drv : BitVec 8} {sector : BitVec 32}
    {count : ℕ} {r : CardRead B} (hok : SdOk s (.read drv sector count r)) :
    Coherent (mmcDiskRead s drv sector count r).2 ∧
      Delivers s (.read drv sector count r) (mmcDiskRead s drv sector count r).1 := by
  unfold mmcDiskRead Delivers
  split
  · exact ⟨hs, fun h => by simp at h⟩
  · rename_i hparam
    split
    · exact ⟨hs, fun h => by simp at h⟩
    · by_cases hcount : count = 1
      · subst hcount
        obtain ⟨hsector, hfail⟩ := hok (by tauto) rfl
        obtain ⟨hcoh, hdel⟩ := sdcardRead_one hs hsector hfail
        refine ⟨hcoh, fun h => ?_⟩
        rw [hdel h]
        simp [readBlocks]
      · obtain ⟨hsame, hdel⟩ := sdcardRead_many s sector hcount r
        exact ⟨by rw [hsame]; exact hs, hdel⟩

/-- **A write** keeps the cache coherent. -/
theorem coherent_mmcDiskWrite {s : Driver B} (hs : Coherent s) {drv : BitVec 8}
    {sector : BitVec 32} {data : List B} {w : CardWrite}
    (hok : SdOk s (.write drv sector data w)) :
    Coherent (mmcDiskWrite s drv sector data w).2 := by
  unfold mmcDiskWrite
  split
  · exact hs
  · rename_i hparam
    split
    · exact hs
    · cases w with
      | ok => exact coherent_blocks hs sector data
      | fail n =>
        refine coherent_uncached hs sector (data.take n) fun i hi => ?_
        rw [List.length_take] at hi
        exact hok (by tauto) n rfl i (by omega) (by omega)

theorem coherent_sdStep {s t : Driver B} (hs : Coherent s) {e : Call B} (hok : SdOk s e)
    {o : DResult × List B} (hstep : sdStep s e = (o, t)) : Coherent t := by
  cases e with
  | read drv sector count r =>
    have := (mmcDiskRead_spec hs hok).1
    rw [sdStep] at hstep
    rwa [hstep] at this
  | write drv sector data w =>
    obtain ⟨-, rfl⟩ := Prod.mk.inj hstep
    exact coherent_mmcDiskWrite hs hok

/-! ### Every run -/

/-- **The cache is transparent** along every run that keeps out of the windows of the
driver: after a successful initialization, every read that succeeds delivers what is on the
card. -/
theorem delivers_of_sdOk {s₀ s : Driver B} {h : List (Call B × DResult × List B)}
    (hr : Reach (fnStep sdStep) SdOk (mmcDiskInitialize s₀ 0#8 true).2 h s)
    {e : Call B} (hok : SdOk s e) {o : DResult × List B} {t : Driver B}
    (hstep : sdStep s e = (o, t)) : Delivers s e o := by
  have hs : Coherent s := by
    refine hr.invariant (fun _ => Coherent) (coherent_init s₀) ?_
    intro h s e o t hs hok hstep
    exact coherent_sdStep hs hok hstep
  cases e with
  | read drv sector count r =>
    have := (mmcDiskRead_spec hs hok).2
    rw [sdStep] at hstep
    rwa [hstep] at this
  | write drv sector data w => trivial

/-- The content of a sector. -/
abbrev SectorData := Fin 512 → BitVec 8

/-- A card of zeros, as the driver finds it at power-on. -/
def zeroCard : Driver SectorData := ⟨staNoinit, ⟨fun _ => 0#32, fun _ _ => 0#8⟩, fun _ _ => 0#8⟩

/-- Two sectors that share a cache entry are read in turn, a sector is written, and the read
that follows delivers what was written. -/
theorem delivers_of_sdOk_written :
    let r := runFn sdStep [] (mmcDiskInitialize zeroCard 0#8 true).2
      [.read 0#8 5#32 1 .ok, .read 0#8 8197#32 1 .ok, .write 0#8 8197#32 [fun _ => 1#8] .ok]
    Delivers r.2 (.read 0#8 8197#32 1 .ok) (sdStep r.2 (.read 0#8 8197#32 1 .ok)).1 := by
  intro r
  have hread : ∀ sector (s : Driver SectorData), sector ≠ emptyTag →
      SdOk s (.read 0#8 sector 1 .ok) :=
    fun _ _ hsector _ _ => ⟨hsector, fun _ hfail => by cases hfail⟩
  have hwrite : ∀ s : Driver SectorData, SdOk s (.write 0#8 8197#32 [fun _ => 1#8] .ok) :=
    fun _ _ _ hfail => by cases hfail
  have hreach : Reach (fnStep sdStep) SdOk (mmcDiskInitialize zeroCard 0#8 true).2 r.1 r.2 :=
    reach_runFn ⟨hread _ _ (by decide), hread _ _ (by decide), hwrite _, trivial⟩
  exact delivers_of_sdOk hreach (hread 8197#32 _ (by decide)) rfl

/-- **A failed read of one sector spoils another**: sector 8197 shares the entry of sector 5,
its read fails after it has overwritten the entry, and the next read of sector 5 delivers
what it left there. -/
theorem not_delivers_failedMiss :
    let r := runFn sdStep [] (mmcDiskInitialize zeroCard 0#8 true).2
      [.read 0#8 5#32 1 .ok, .read 0#8 8197#32 1 (.fail fun _ => 1#8)]
    Reach (fnStep sdStep) Always (mmcDiskInitialize zeroCard 0#8 true).2 r.1 r.2 ∧
      ¬Delivers r.2 (.read 0#8 5#32 1 .ok) (sdStep r.2 (.read 0#8 5#32 1 .ok)).1 := by
  refine ⟨reach_runFn okAlong_always, fun h => ?_⟩
  have hsector : (fun _ => 1#8 : SectorData) = fun _ => 0#8 := List.head_eq_of_cons_eq (h rfl)
  exact absurd (congrFun hsector 0) (by decide)

end Sd

end BareMetal
