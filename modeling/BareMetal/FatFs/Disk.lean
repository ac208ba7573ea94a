import BareMetal.FatFs.Defs
import BareMetal.FatFs.Words

/-!
# The disk under a volume

`ff.c` reaches its medium through `disk_read`, `disk_write` and `disk_ioctl` alone, and `fs.c` hands
these to the driver of the card or of the USB host. The file system is verified over **any** device
that keeps a contract, `BareMetal.FatFs.DiskIo`:

* a read changes nothing on the medium, and if it succeeds delivers what is there;
* a write that succeeds stores its sectors, and a write that fails leaves anything in the sectors it
  was for – the others stay in any case;
* a synchronization changes nothing.

Nothing is asked of a transfer that fails beyond that, nor of a read of the last sector number, under
which the driver of the card may answer out of an empty cache entry.

The contract is what `ff.c` takes for granted, not what the drivers have been shown to do. A driver with
a cache breaks it if a transfer that fails leaves the cache and the medium at odds, so that later
reads deliver something else and yet succeed; the driver of the card keeps it as long as a transfer that
fails has moved nothing (`BareMetal.Sd.CardDisk`).
-/

namespace BareMetal

namespace FatFs

/-- `0xFFFFFFFF`, the sector of a window that holds none. -/
def noSector : BitVec 32 := 0xFFFFFFFF#32

/-- `count` sectors are stored from a number on. -/
def storeSectors (σ : BitVec 32 → Sector) (sector : BitVec 32) (count : ℕ) (buff : ℕ → Sector) :
    BitVec 32 → Sector :=
  fun t => if (t - sector).toNat < count then buff (t - sector).toNat else σ t

/-! ### The contract -/

/-- **The contract of a disk**: `disk_read`, which delivers its sectors in order, `disk_write` and
`disk_ioctl` with `CTRL_SYNC` on a device of type `δ`, and how what is on the medium goes through
them. -/
class DiskIo (δ : Type) where
  /-- What is on the medium. -/
  sectors : δ → BitVec 32 → Sector
  diskRead : δ → BitVec 32 → ℕ → (DResult × (ℕ → Sector)) × δ
  diskWrite : δ → (ℕ → Sector) → BitVec 32 → ℕ → DResult × δ
  diskSync : δ → DResult × δ
  sectors_diskRead (d : δ) (sector : BitVec 32) (count : ℕ) :
    sectors (diskRead d sector count).2 = sectors d
  diskRead_ok (d : δ) (sector : BitVec 32) (count : ℕ) (h : (diskRead d sector count).1.1 = .ok)
    (i : ℕ) (hi : i < count) (hne : sector + BitVec.ofNat 32 i ≠ noSector) :
    (diskRead d sector count).1.2 i = sectors d (sector + BitVec.ofNat 32 i)
  diskWrite_ok (d : δ) (buff : ℕ → Sector) (sector : BitVec 32) (count : ℕ) (hcount : count < 2 ^ 32)
    (h : (diskWrite d buff sector count).1 = .ok) :
    sectors (diskWrite d buff sector count).2 = storeSectors (sectors d) sector count buff
  diskWrite_rest (d : δ) (buff : ℕ → Sector) (sector : BitVec 32) (count : ℕ) (t : BitVec 32)
    (ht : ¬(t - sector).toNat < count) :
    sectors (diskWrite d buff sector count).2 t = sectors d t
  sectors_diskSync (d : δ) : sectors (diskSync d).2 = sectors d

export DiskIo (sectors diskRead diskWrite diskSync)

variable {δ : Type} [DiskIo δ]

/-- What a device keeps as long as it is only asked to move sectors. -/
structure KeepsWorking (P : δ → Prop) : Prop where
  read : ∀ d, P d → ∀ sector count, 0 < count →
    (diskRead d sector count).1.1 = .ok ∧ P (diskRead d sector count).2
  write : ∀ d, P d → ∀ buff sector count, 0 < count →
    (diskWrite d buff sector count).1 = .ok ∧ P (diskWrite d buff sector count).2
  sync : ∀ d, P d → (diskSync d).1 = .ok ∧ P (diskSync d).2

/-- **A disk that works**: no transfer will fail, whatever is asked for from now on. -/
def Works (d : δ) : Prop := ∃ P, KeepsWorking P ∧ P d

/-! ### What a transfer can do -/

/-- What a transfer has made of a disk: this is on the medium now, and a disk that works goes on
working. -/
structure Becomes (d d' : δ) (σ : BitVec 32 → Sector) : Prop where
  stored : sectors d' = σ
  works : Works d → Works d'

section Transfers

variable (d : δ) (buff : ℕ → Sector) (sector : BitVec 32)

theorem keepsWorking_works : KeepsWorking (Works : δ → Prop) where
  read := fun d ⟨P, hP, hd⟩ sector count hcount =>
    ⟨(hP.read d hd sector count hcount).1, P, hP, (hP.read d hd sector count hcount).2⟩
  write := fun d ⟨P, hP, hd⟩ buff sector count hcount =>
    ⟨(hP.write d hd buff sector count hcount).1, P, hP, (hP.write d hd buff sector count hcount).2⟩
  sync := fun d ⟨P, hP, hd⟩ => ⟨(hP.sync d hd).1, P, hP, (hP.sync d hd).2⟩

theorem storeSectors_one (σ : BitVec 32 → Sector) :
    storeSectors σ sector 1 buff = Function.update σ sector (buff 0) := by
  funext t
  by_cases ht : t = sector
  · subst ht
    simp [storeSectors]
  · have hne : ¬(t - sector).toNat < 1 := by
      intro hlt
      refine ht ?_
      have hzero : t - sector = 0#32 := BitVec.eq_of_toNat_eq (by simpa using Nat.lt_one_iff.mp hlt)
      rw [← BitVec.sub_add_cancel t sector, hzero, BitVec.zero_add]
    rw [storeSectors, if_neg hne, Function.update_of_ne ht]

/-- A write that fails has stored something in the sectors it was for. -/
theorem sectors_diskWrite (count : ℕ) :
    ∃ left, sectors (diskWrite d buff sector count).2 = storeSectors (sectors d) sector count left := by
  refine ⟨fun i => sectors (diskWrite d buff sector count).2 (sector + BitVec.ofNat 32 i), ?_⟩
  funext t
  unfold storeSectors
  split
  · beta_reduce
    rw [BitVec.ofNat_toNat, BitVec.setWidth_eq, BitVec.add_comm, BitVec.sub_add_cancel]
  · next hout => exact DiskIo.diskWrite_rest d buff sector count t hout

/-- **What a write can do**: it ends well and the sectors are stored, or it fails and something else
is. -/
theorem diskWrite_inv {count : ℕ} (hpos : 0 < count) (hcount : count < 2 ^ 32) :
    ∃ res d', diskWrite d buff sector count = (res, d') ∧
      (res = .ok ∧ Becomes d d' (storeSectors (sectors d) sector count buff) ∨
        res ≠ .ok ∧ ¬Works d ∧ ∃ left, Becomes d d' (storeSectors (sectors d) sector count left)) := by
  have hworks := fun h => keepsWorking_works.write d h buff sector count hpos
  refine ⟨_, _, rfl, ?_⟩
  by_cases hok : (diskWrite d buff sector count).1 = .ok
  · exact Or.inl ⟨hok, DiskIo.diskWrite_ok d buff sector count hcount hok, fun h => (hworks h).2⟩
  · obtain ⟨left, hd⟩ := sectors_diskWrite d buff sector count
    exact Or.inr ⟨hok, fun h => hok (hworks h).1, left, hd, fun h => (hworks h).2⟩

/-- The write of one sector. -/
theorem diskWrite_one (b : Sector) :
    ∃ res d', diskWrite d (fun _ => b) sector 1 = (res, d') ∧
      (res = .ok ∧ Becomes d d' (Function.update (sectors d) sector b) ∨
        res ≠ .ok ∧ ¬Works d ∧ ∃ left, Becomes d d' (Function.update (sectors d) sector left)) := by
  obtain ⟨res, d', heq, hres⟩ := diskWrite_inv d (fun _ => b) sector Nat.one_pos (by decide)
  refine ⟨res, d', heq, hres.imp ?_ ?_⟩
  · rintro ⟨hok, hd⟩
    exact ⟨hok, by rwa [storeSectors_one] at hd⟩
  · rintro ⟨hne, hfail, left, hd⟩
    exact ⟨hne, hfail, left 0, by rwa [storeSectors_one] at hd⟩

/-- **What a read can do**: the medium stays, and the sectors are delivered or the read fails. -/
theorem diskRead_inv {count : ℕ} (hpos : 0 < count) :
    ∃ res b d', diskRead d sector count = ((res, b), d') ∧ Becomes d d' (sectors d) ∧
      (res = .ok ∧ (∀ i < count, sector + BitVec.ofNat 32 i ≠ noSector →
          b i = sectors d (sector + BitVec.ofNat 32 i)) ∨ res ≠ .ok ∧ ¬Works d) := by
  have hworks := fun h => keepsWorking_works.read d h sector count hpos
  refine ⟨_, _, _, rfl, ⟨DiskIo.sectors_diskRead d sector count, fun h => (hworks h).2⟩, ?_⟩
  by_cases hok : (diskRead d sector count).1.1 = .ok
  · exact Or.inl ⟨hok, DiskIo.diskRead_ok d sector count hok⟩
  · exact Or.inr ⟨hok, fun h => hok (hworks h).1⟩

/-- The read of one sector. -/
theorem diskRead_one :
    ∃ res b d', diskRead d sector 1 = ((res, b), d') ∧ Becomes d d' (sectors d) ∧
      (res = .ok ∧ (sector ≠ noSector → b 0 = sectors d sector) ∨ res ≠ .ok ∧ ¬Works d) := by
  obtain ⟨res, b, d', heq, hd, hres⟩ := diskRead_inv d sector Nat.one_pos
  refine ⟨res, b, d', heq, hd, hres.imp_left ?_⟩
  rintro ⟨hok, hb⟩
  refine ⟨hok, fun hne => ?_⟩
  simpa using hb 0 Nat.one_pos (by simpa using hne)

/-- **What a synchronization can do.** -/
theorem diskSync_inv :
    ∃ res d', diskSync d = (res, d') ∧ Becomes d d' (sectors d) ∧ (res = .ok ∨ res ≠ .ok ∧ ¬Works d) := by
  have hworks := keepsWorking_works.sync d
  refine ⟨_, _, rfl, ⟨DiskIo.sectors_diskSync d, fun h => (hworks h).2⟩, ?_⟩
  by_cases hok : (diskSync d).1 = .ok
  · exact Or.inl hok
  · exact Or.inr ⟨hok, fun h => hok (hworks h).1⟩

end Transfers

/-! ### A disk that fails on its own account -/

/-- A disk in memory: what its sectors hold, and how the transfers to come will end – well, or with
an error and with something else in place of each sector that was to be moved. -/
structure Disk where
  stored : BitVec 32 → Sector
  coming : ℕ → Option (ℕ → Sector)

/-- The disk when the next transfer is over. -/
def Disk.next (d : Disk) (stored : BitVec 32 → Sector) : Disk :=
  ⟨stored, fun k => d.coming (k + 1)⟩

instance : DiskIo Disk where
  sectors := Disk.stored
  diskRead d sector _ :=
    match d.coming 0 with
    | none => ((.ok, fun i => d.stored (sector + BitVec.ofNat 32 i)), d.next d.stored)
    | some left => ((.error, left), d.next d.stored)
  diskWrite d buff sector count :=
    match d.coming 0 with
    | none => (.ok, d.next (storeSectors d.stored sector count buff))
    | some left => (.error, d.next (storeSectors d.stored sector count left))
  diskSync d :=
    match d.coming 0 with
    | none => (.ok, d.next d.stored)
    | some _ => (.error, d.next d.stored)
  sectors_diskRead d sector _ := by
    cases d.coming 0 <;> rfl
  diskRead_ok d sector _ h i _ _ := by
    cases hnext : d.coming 0 with
    | none => simp only
    | some left => simp [hnext] at h
  diskWrite_ok d buff sector count _ h := by
    cases hnext : d.coming 0 with
    | none => simp only [Disk.next]
    | some left => simp [hnext] at h
  diskWrite_rest d buff sector count t ht := by
    cases d.coming 0 <;> simp only [Disk.next, storeSectors, if_neg ht]
  sectors_diskSync d := by
    cases d.coming 0 <;> rfl

/-- It works if none of the transfers to come fails. -/
theorem Disk.works {d : Disk} (h : ∀ k, d.coming k = none) : Works d := by
  refine ⟨fun d => ∀ k, d.coming k = none, ⟨?_, ?_, ?_⟩, h⟩
  · intro d hd sector count _
    simp only [diskRead, hd 0]
    exact ⟨trivial, fun k => hd (k + 1)⟩
  · intro d hd buff sector count _
    simp only [diskWrite, hd 0]
    exact ⟨trivial, fun k => hd (k + 1)⟩
  · intro d hd
    simp only [diskSync, hd 0]
    exact ⟨trivial, fun k => hd (k + 1)⟩

end FatFs

end BareMetal
