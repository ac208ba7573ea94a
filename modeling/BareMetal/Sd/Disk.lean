import BareMetal.Sd.Cache
import BareMetal.FatFs.Disk

/-!
# The card as a disk of the file system

What `ff.c` asks of a disk is the contract `BareMetal.FatFs.DiskIo`, and `fs.c` hands the transfers of
the first drive to the driver of the card. The driver keeps the contract once the card has been
initialized, **as long as a transfer that fails has moved nothing** (`BareMetal.Sd.CardDisk`): then the cache
stays in step with the card, and a read out of the cache delivers what is on the card.

The condition cannot be dropped. A read that fails half way has overwritten a cache entry that another
sector is still found under, and a write that fails half way has changed sectors that are still cached:
after either a read succeeds and delivers something else. These are the runs that `BareMetal.Sd.SdOk` keeps
out of.
-/

namespace BareMetal

namespace Sd

open FatFs (DResult DiskIo Works diskWrite staNoinit has has_and_not_self noSector storeSectors)

/-! ### Sectors on the card -/

section Blocks

variable {B : Type}

/-- The distance from a sector to one that is not the first. -/
theorem toNat_sub_succ {t sector : BitVec 32} (h : t ≠ sector) :
    (t - sector).toNat = (t - (sector + 1#32)).toNat + 1 := by
  have hne : t.toNat ≠ sector.toNat := fun heq => h (BitVec.eq_of_toNat_eq heq)
  bv_omega

/-- What a write leaves in the sectors of the card. -/
theorem writeBlocks_apply (card : BitVec 32 → B) (sector : BitVec 32) {data : List B}
    (hlen : data.length ≤ 2 ^ 32) (t : BitVec 32) :
    writeBlocks card sector data t = (data[(t - sector).toNat]?).getD (card t) := by
  induction data generalizing card sector with
  | nil => rfl
  | cons b data ih =>
    rw [List.length_cons] at hlen
    rw [writeBlocks, ih _ _ (by omega)]
    by_cases ht : t = sector
    · subst ht
      have hlast : data.length ≤ (t - (t + 1#32)).toNat := by
        have hall : (t - (t + 1#32)).toNat = 2 ^ 32 - 1 := by bv_omega
        omega
      rw [List.getElem?_eq_none hlast, Option.getD_none, Function.update_self, BitVec.sub_self]
      rfl
    · rw [Function.update_of_ne ht, toNat_sub_succ ht, List.getElem?_cons_succ]

end Blocks

/-- The sectors of a buffer are on the card. -/
theorem writeBlocks_buffer (card : BitVec 32 → FatFs.Sector) (sector : BitVec 32) {count : ℕ}
    (hcount : count < 2 ^ 32) (buff : ℕ → FatFs.Sector) :
    writeBlocks card sector ((List.range count).map buff) = storeSectors card sector count buff := by
  funext t
  rw [writeBlocks_apply card sector (by simpa using hcount.le), storeSectors]
  split
  · rename_i hlt
    rw [List.getElem?_map, List.getElem?_range hlt, Option.map_some, Option.getD_some]
  · rename_i hge
    rw [List.getElem?_eq_none (by simpa using hge), Option.getD_none]

/-! ### The driver in service -/

/-- **The card in service**: its driver after the card has been initialized, with a cache that agrees
with the card, and which of the transfers to come fail. A transfer that fails has moved nothing. -/
structure CardDisk where
  driver : Driver FatFs.Sector
  fails : ℕ → Bool
  ready : has driver.status staNoinit = false
  coherent : Coherent driver

namespace CardDisk

variable (d : CardDisk) (sector : BitVec 32) (count : ℕ) (buff : ℕ → FatFs.Sector)

/-- How the next read of the card ends: if it fails, the cache entry is still as it was. -/
def cardRead : CardRead FatFs.Sector :=
  if d.fails 0 then .fail (d.driver.cache.buf (cacheIndex sector)) else .ok

/-- How the next write of the card ends. -/
def cardWrite : CardWrite := if d.fails 0 then .fail 0 else .ok

/-- `disk_read` of the first drive. -/
def read : (DResult × List FatFs.Sector) × Driver FatFs.Sector :=
  mmcDiskRead d.driver 0#8 sector count (d.cardRead sector)

/-- `disk_write` of the first drive. -/
def write : DResult × Driver FatFs.Sector :=
  mmcDiskWrite d.driver 0#8 sector ((List.range count).map buff) d.cardWrite

/-- What a read leaves of the driver. -/
theorem read_inv : (d.read sector count).2 = d.driver ∨ (d.read sector count).2 = { d.driver with
    cache := d.driver.cache.install (cacheIndex sector) sector (d.driver.card sector) } := by
  rcases mmcDiskRead_inv d.driver 0#8 sector count (d.cardRead sector) with
    ⟨-, h⟩ | ⟨left, hleft, -, h⟩ | ⟨-, h⟩ | ⟨-, -, -, h⟩ | ⟨-, h⟩
  · exact Or.inl h
  · -- the entry is overwritten with itself
    have hself : left = d.driver.cache.buf (cacheIndex sector) := by
      unfold cardRead at hleft
      split at hleft
      · exact (CardRead.fail.inj hleft).symm
      · cases hleft
    rw [hself, DirectMapped.scribble_self] at h
    exact Or.inl h
  · exact Or.inr h
  · exact Or.inl h
  · exact Or.inl h

theorem coherent_read : Coherent (d.read sector count).2 := by
  rcases d.read_inv sector count with h | h <;> rw [h]
  · exact d.coherent
  · exact d.coherent.load sector

/-- What a write leaves of the driver: nothing has changed, or everything has been written. -/
theorem write_inv : (d.write sector count buff).2 = d.driver ∧ (d.write sector count buff).1 ≠ .ok ∨
    (d.write sector count buff).2 = { d.driver with
      card := writeBlocks d.driver.card sector ((List.range count).map buff)
      cache := cacheBlocks d.driver.cache sector ((List.range count).map buff) } := by
  unfold write mmcDiskWrite
  split
  · exact Or.inl ⟨rfl, by simp⟩
  · rw [if_neg (by simp [d.ready])]
    unfold cardWrite
    split
    · exact Or.inl ⟨rfl, by simp [sdcardWrite]⟩
    · exact Or.inr rfl

theorem coherent_write : Coherent (d.write sector count buff).2 := by
  rcases d.write_inv sector count buff with ⟨h, -⟩ | h <;> rw [h]
  · exact d.coherent
  · exact coherent_blocks d.coherent sector _

theorem emptyTag_eq : emptyTag = noSector := by decide

/-- A read that succeeds delivers what is on the card, unless the sector number is that of an empty
entry. -/
theorem read_ok (hok : (d.read sector count).1.1 = .ok) {i : ℕ} (hi : i < count)
    (hne : sector + BitVec.ofNat 32 i ≠ noSector) :
    (d.read sector count).1.2[i]? = some (d.driver.card (sector + BitVec.ofNat 32 i)) := by
  have hsd : SdOk d.driver (.read 0#8 sector count (d.cardRead sector)) := by
    rintro - rfl
    obtain rfl : i = 0 := Nat.lt_one_iff.mp hi
    refine ⟨by simpa [emptyTag_eq] using hne, fun left hleft _ => Or.inr ?_⟩
    unfold cardRead at hleft
    split at hleft
    · exact (CardRead.fail.inj hleft).symm
    · cases hleft
  rw [read, (mmcDiskRead_spec d.coherent hsd).2 hok, readBlocks, List.getElem?_map,
    List.getElem?_range hi, Option.map_some]

end CardDisk

/-- **The driver of the card keeps the contract** of a disk, as long as a transfer that fails has moved
nothing. -/
instance : DiskIo CardDisk where
  sectors d := d.driver.card
  diskRead d sector count :=
    (((d.read sector count).1.1, fun i => (d.read sector count).1.2.getD i fun _ => 0#8),
      { driver := (d.read sector count).2
        fails := fun k => d.fails (k + 1)
        ready := by rcases d.read_inv sector count with h | h <;> rw [h] <;> exact d.ready
        coherent := d.coherent_read sector count })
  diskWrite d buff sector count :=
    ((d.write sector count buff).1,
      { driver := (d.write sector count buff).2
        fails := fun k => d.fails (k + 1)
        ready := by
          rcases d.write_inv sector count buff with ⟨h, -⟩ | h <;> rw [h] <;> exact d.ready
        coherent := d.coherent_write sector count buff })
  -- there is nothing to wait for
  diskSync d := (.ok, d)
  sectors_diskRead d sector count := by
    rcases d.read_inv sector count with h | h <;> simp only [h]
  diskRead_ok d sector count hok i hi hne := by
    simp only [List.getD_eq_getElem?_getD, d.read_ok sector count hok hi hne, Option.getD_some]
  diskWrite_ok d buff sector count hcount hok := by
    rcases d.write_inv sector count buff with ⟨-, hfail⟩ | h
    · exact absurd hok hfail
    · simp only [h, writeBlocks_buffer _ _ hcount]
  diskWrite_rest d buff sector count t ht := by
    rcases d.write_inv sector count buff with ⟨h, -⟩ | h
    · simp only [h]
    · have hcount : count < 2 ^ 32 := lt_of_le_of_lt (Nat.le_of_not_lt ht) (t - sector).isLt
      simp only [h, writeBlocks_buffer _ _ hcount, storeSectors, if_neg ht]
  sectors_diskSync _ := rfl

/-- The card after its initialization. -/
def CardDisk.initialized (s : Driver FatFs.Sector) (fails : ℕ → Bool) : CardDisk where
  driver := (mmcDiskInitialize s 0#8 true).2
  fails := fails
  ready := has_and_not_self _ _
  coherent := coherent_init s

/-- It works if none of the transfers to come fails. -/
theorem CardDisk.works {d : CardDisk} (h : ∀ k, d.fails k = false) : Works d := by
  refine ⟨fun d => ∀ k, d.fails k = false, ⟨?_, ?_, ?_⟩, h⟩
  · refine fun d hd sector count hcount => ⟨?_, fun k => hd (k + 1)⟩
    have hcond : ¬(0#8 ≠ 0#8 ∨ count = 0) := by simp [hcount.ne']
    change (d.read sector count).1.1 = .ok
    rw [read, mmcDiskRead, if_neg hcond, if_neg (by simp [d.ready]), cardRead, hd 0]
    unfold sdcardRead
    split
    · dsimp only
      split <;> rfl
    · rfl
  · refine fun d hd buff sector count hcount => ⟨?_, fun k => hd (k + 1)⟩
    simp [diskWrite, write, mmcDiskWrite, sdcardWrite, cardWrite, hd 0, d.ready, hcount.ne']
  · exact fun d hd => ⟨rfl, hd⟩

end Sd

end BareMetal
