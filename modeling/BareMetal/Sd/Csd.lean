import BareMetal.BitField
import BareMetal.Sd.Sunxi

/-!
# The capacity of a card

A card describes itself in a register of 128 bits, the CSD, which the driver gets as 16 bytes
with the highest first. How many sectors it has is spread over bit fields, in two layouts, and
`GET_SECTOR_COUNT` puts the fields together from pieces of bytes.

The fields are taken from the register as a whole (`BareMetal.Sunxi.csdField`), and each is a
piece of a few bytes (`BareMetal.Sunxi.csdField_eq`). In the older layout the pieces are put
together as they belong (`BareMetal.Sunxi.sectorCount_v1`). In the newer one the six highest
bits of `C_SIZE`, those in byte 7, are shifted by 8 where they belong at 16, so that they are
added to byte 8: a card that uses them, one of more than 32 GiB, is reported too small
(`BareMetal.Sunxi.sectorCount_v2`).
-/

namespace BareMetal

namespace Sunxi

open FatFs

/-! ### The fields of the register -/

/-- The register that the bytes of a CSD make. -/
def csdRegister (csd : Fin 16 → BitVec 8) : BitVec 128 :=
  BitVec.ofNat 128 ((List.finRange 16).foldl (fun v i => v * 256 + (csd i).toNat) 0)

/-- The field of `k` bits at bit `s` of the register. -/
def csdField (csd : Fin 16 → BitVec 8) (s k : ℕ) : ℕ := (fieldAt (csdRegister csd) s k).toNat

/-- `CSD_STRUCTURE`, bits 127..126: `0` is version 1, and `1` is version 2. -/
def csdStructure (csd : Fin 16 → BitVec 8) : ℕ := csdField csd 126 2

/-- `READ_BL_LEN`, bits 83..80. -/
def readBlLen (csd : Fin 16 → BitVec 8) : ℕ := csdField csd 80 4

/-- The number of sectors by a CSD of version 2: `C_SIZE` is bits 69..48. -/
def trueCount2 (csd : Fin 16 → BitVec 8) : ℕ := (csdField csd 48 22 + 1) * 1024

/-- The number of sectors by a CSD of version 1: `C_SIZE` is bits 73..62, and `C_SIZE_MULT` is
bits 49..47. -/
def trueCount1 (csd : Fin 16 → BitVec 8) : ℕ :=
  (csdField csd 62 12 + 1) * 2 ^ (csdField csd 47 3 + 2) * 2 ^ (readBlLen csd - 9)

/-! ### The property -/

/-- The FIFO delivers the bytes of a CSD. -/
def Bus.Delivers (b : Bus) (csd : Fin 16 → BitVec 8) : Prop := csdBytes b.fifo = csd

/-- What `GET_SECTOR_COUNT` stores. -/
def storedCount (s : Driver) : Option (BitVec 32) := (mmcDiskIoctl s cardDrive getSectorCount).2.1

/-- A stored value is a number in 32-bit arithmetic, without loss if the number is below
`2 ^ 32`. -/
def Stores (v : Option (BitVec 32)) (n : ℕ) : Prop :=
  v = some (BitVec.ofNat 32 n) ∧ (n < 2 ^ 32 → v.map BitVec.toNat = some n)

/-- **The capacity is decoded exactly**, by any driver that has been initialized. -/
def CapacityExact (csd : Fin 16 → BitVec 8) : Prop :=
  ∀ s : Driver, has s.stat staNoinit = false → s.bus.Delivers csd →
    (csdStructure csd = 1 → Stores (storedCount s) (trueCount2 csd)) ∧
    (csdStructure csd = 0 → 9 ≤ readBlLen csd → Stores (storedCount s) (trueCount1 csd))

/-! ### The fields in the bytes -/

section Fields

variable (csd : Fin 16 → BitVec 8)

/-- The register as a number. -/
theorem csdField_eq (s k : ℕ) :
    csdField csd s k = ((List.finRange 16).foldl (fun v i => v * 256 + (csd i).toNat) 0)
      % 2 ^ 128 / 2 ^ s % 2 ^ k := by
  simp [csdField, fieldAt, csdRegister, BitVec.extractLsb'_toNat, Nat.shiftRight_eq_div_pow]

theorem foldl_finRange (f : Fin 16 → ℕ) :
    (List.finRange 16).foldl (fun v i => v * 256 + f i) 0 =
      f 0 * 256 ^ 15 + f 1 * 256 ^ 14 + f 2 * 256 ^ 13 + f 3 * 256 ^ 12 + f 4 * 256 ^ 11 +
      f 5 * 256 ^ 10 + f 6 * 256 ^ 9 + f 7 * 256 ^ 8 + f 8 * 256 ^ 7 + f 9 * 256 ^ 6 +
      f 10 * 256 ^ 5 + f 11 * 256 ^ 4 + f 12 * 256 ^ 3 + f 13 * 256 ^ 2 + f 14 * 256 + f 15 := by
  have hlist : List.finRange 16 = [0, 1, 2, 3, 4, 5, 6, 7, 8, 9, 10, 11, 12, 13, 14, 15] := by
    decide
  rw [hlist]
  simp only [List.foldl]
  omega

/-- **Where the fields are in the bytes.** -/
theorem csdField_bytes :
    csdField csd 126 2 = (csd 0).toNat / 64 ∧
    csdField csd 80 4 = (csd 5).toNat % 16 ∧
    csdField csd 48 22 = (csd 7).toNat % 64 * 65536 + (csd 8).toNat * 256 + (csd 9).toNat ∧
    csdField csd 62 12 = (csd 6).toNat % 4 * 1024 + (csd 7).toNat * 4 + (csd 8).toNat / 64 ∧
    csdField csd 47 3 = (csd 9).toNat % 4 * 2 + (csd 10).toNat / 128 := by
  have hb : ∀ i, (csd i).toNat < 256 := fun i => (csd i).isLt
  have h0 := hb 0
  have h1 := hb 1
  have h2 := hb 2
  have h3 := hb 3
  have h4 := hb 4
  have h5 := hb 5
  have h6 := hb 6
  have h7 := hb 7
  have h8 := hb 8
  have h9 := hb 9
  have h10 := hb 10
  have h11 := hb 11
  have h12 := hb 12
  have h13 := hb 13
  have h14 := hb 14
  have h15 := hb 15
  simp only [csdField_eq, foldl_finRange]
  refine ⟨by omega, by omega, by omega, by omega, by omega⟩

end Fields

/-! ### What is stored -/

section Stored

variable {csd : Fin 16 → BitVec 8}

/-- The driver decodes what the FIFO delivers. -/
theorem storedCount_eq {s : Driver} (hs : has s.stat staNoinit = false)
    (hcsd : s.bus.Delivers csd) : storedCount s = sectorCount csd := by
  have hstatus : (mmcDiskStatus s 0).1 = s.stat ∧ (mmcDiskStatus s 0).2.bus.fifo = s.bus.fifo := by
    rw [mmcDiskStatus, if_neg (by simp), if_neg (by simp [hs])]
    simp only [sendCmd_fst, ne_eq, not_true_eq_false, if_false]
    rw [sendCmd_snd cmd13 (by decide) (by decide)]
    exact ⟨trivial, rfl⟩
  have hread : ∀ b : Bus, sendCmdData b cmd9 0#32 (some ⟨fun _ => 0#32, 16#32⟩) =
      transfer b cmd9 false 0#32 (some ⟨fun _ => 0#32, 16#32⟩) := fun b => rfl
  simp only [storedCount, cardDrive, mmcDiskIoctl, hstatus.1, hs, Bool.false_eq_true, if_false, hread]
  have hcmd : ¬getSectorCount = ctrlSync := by decide
  simp only [hcmd, if_false, if_true, transfer, Bus.issue, hstatus.2]
  rw [← hcsd]
  -- the first four words are all that is decoded
  refine congrArg sectorCount (funext fun i => ?_)
  have hcount : ((i : ℕ) / 4 < (Buffer.mk (fun _ => 0#32) 16#32).count) := by
    have : (Buffer.mk (fun _ => 0#32) 16#32).count = 4 := by decide
    omega
  simp [csdBytes, hcount]

/-- Version 2: the six bits of byte 7 are added to byte 8. -/
theorem sectorCount_v2 (hv : csdStructure csd = 1) :
    sectorCount csd = some (BitVec.ofNat 32
      (((csd 7).toNat % 64 * 256 + (csd 8).toNat * 256 + (csd 9).toNat + 1) * 1024)) := by
  rw [csdStructure, (csdField_bytes csd).1] at hv
  have hbranch : csd 0 >>> 6 = 1#8 := by
    apply BitVec.eq_of_toNat_eq
    simpa [Nat.shiftRight_eq_div_pow] using hv
  have h7 := (csd 7).isLt
  have h8 := (csd 8).isLt
  have h9 := (csd 9).isLt
  have hand : (csd 7).toNat &&& 63 = (csd 7).toNat % 64 := Nat.and_two_pow_sub_one_eq_mod _ 6
  rw [sectorCount, if_pos hbranch]
  refine congrArg some (BitVec.eq_of_toNat_eq ?_)
  have hmod : (csd 7).toNat % 2 ^ 32 &&& 63 % 2 ^ 32 = (csd 7).toNat % 64 := by
    rw [Nat.mod_eq_of_lt (by omega)]
    exact hand
  simp only [BitVec.toNat_shiftLeft, BitVec.toNat_add, BitVec.toNat_and, BitVec.toNat_setWidth,
    BitVec.toNat_ofNat, Nat.shiftLeft_eq, hmod]
  omega

/-- Version 1: the fields are put together as they belong. -/
theorem sectorCount_v1 (hv : csdStructure csd = 0) (hlen : 9 ≤ readBlLen csd) :
    sectorCount csd = some (BitVec.ofNat 32 (trueCount1 csd)) := by
  obtain ⟨hstruct, hbl, -, hsize, hmult⟩ := csdField_bytes csd
  rw [csdStructure, hstruct] at hv
  have hbranch : csd 0 >>> 6 ≠ 1#8 := by
    intro h
    have := congrArg BitVec.toNat h
    simp [Nat.shiftRight_eq_div_pow] at this
    omega
  have h5 := (csd 5).isLt
  have h6 := (csd 6).isLt
  have h7 := (csd 7).isLt
  have h8 := (csd 8).isLt
  have h9 := (csd 9).isLt
  have h10 := (csd 10).isLt
  have hn : ((csd 5 &&& 15#8) + ((csd 10 &&& 128#8) >>> 7) + ((csd 9 &&& 3#8) <<< 1) + 2#8).toNat =
      readBlLen csd + (csdField csd 47 3 + 2) := by
    have hbit : ∀ x : BitVec 8, (x &&& 128#8) >>> 7 = x >>> 7 := by decide
    have h15 : (csd 5).toNat &&& 15 = (csd 5).toNat % 16 := Nat.and_two_pow_sub_one_eq_mod _ 4
    have h3 : (csd 9).toNat &&& 3 = (csd 9).toNat % 4 := Nat.and_two_pow_sub_one_eq_mod _ 2
    rw [hbit, readBlLen, hbl, hmult]
    simp only [BitVec.toNat_add, BitVec.toNat_and, BitVec.toNat_shiftLeft, BitVec.toNat_ushiftRight,
      BitVec.toNat_ofNat, Nat.shiftLeft_eq, Nat.shiftRight_eq_div_pow, h15, h3]
    omega
  rw [sectorCount, if_neg hbranch]
  simp only [hn]
  rw [if_neg (by omega)]
  refine congrArg some (BitVec.eq_of_toNat_eq ?_)
  have hcs : ((csd 8).setWidth 32 >>> 6 + (csd 7).setWidth 32 <<< 2 +
      ((csd 6).setWidth 32 &&& 3#32) <<< 10 + 1#32).toNat = csdField csd 62 12 + 1 := by
    have h3 : (csd 6).toNat % 2 ^ 32 &&& 3 = (csd 6).toNat % 4 := by
      rw [Nat.mod_eq_of_lt (by omega)]
      exact Nat.and_two_pow_sub_one_eq_mod _ 2
    rw [hsize]
    simp only [BitVec.toNat_add, BitVec.toNat_and, BitVec.toNat_shiftLeft, BitVec.toNat_ushiftRight,
      BitVec.toNat_setWidth, BitVec.toNat_ofNat, Nat.shiftLeft_eq, Nat.shiftRight_eq_div_pow, h3]
    omega
  have hexp : readBlLen csd + (csdField csd 47 3 + 2) - 9 =
      csdField csd 47 3 + 2 + (readBlLen csd - 9) := by omega
  rw [BitVec.toNat_shiftLeft, hcs, BitVec.toNat_ofNat, Nat.shiftLeft_eq, trueCount1, Nat.mul_assoc,
    ← Nat.pow_add, hexp]

end Stored

/-! ### When the capacity is exact -/

section Verdict

variable {csd : Fin 16 → BitVec 8}

theorem stores_ofNat (n : ℕ) : Stores (some (BitVec.ofNat 32 n)) n := by
  refine ⟨rfl, fun hn => ?_⟩
  rw [Option.map_some, BitVec.toNat_ofNat, Nat.mod_eq_of_lt hn]

/-- A word of the FIFO, with its first byte lowest. -/
def fifoWord (csd : Fin 16 → BitVec 8) (j : ℕ) : BitVec 32 :=
  let byte (k : ℕ) : ℕ := (csd (Fin.ofNat 16 (4 * j + k))).toNat
  BitVec.ofNat 32 (byte 0 + byte 1 * 256 + byte 2 * 65536 + byte 3 * 16777216)

/-- The bytes of a number of four. -/
theorem byte_of_word {a b c d : ℕ} (ha : a < 256) (hb : b < 256) (hc : c < 256) (hd : d < 256)
    {k : ℕ} (hk : k < 4) :
    (a + b * 256 + c * 65536 + d * 16777216) % 2 ^ 32 / 2 ^ (8 * k) % 2 ^ 8 =
      if k = 0 then a else if k = 1 then b else if k = 2 then c else d := by
  rcases (by omega : k = 0 ∨ k = 1 ∨ k = 2 ∨ k = 3) with rfl | rfl | rfl | rfl
  · simp only [Nat.reduceMul, Nat.reducePow, if_true]
    omega
  · simp only [Nat.reduceMul, Nat.reducePow, Nat.reduceEqDiff, if_false, if_true]
    omega
  · simp only [Nat.reduceMul, Nat.reducePow, Nat.reduceEqDiff, if_false, if_true]
    omega
  · simp only [Nat.reduceMul, Nat.reducePow, Nat.reduceEqDiff, if_false]
    omega

theorem extractLsb'_fifoWord (csd : Fin 16 → BitVec 8) (j : ℕ) {k : ℕ} (hk : k < 4) :
    (fifoWord csd j).extractLsb' (8 * k) 8 = csd (Fin.ofNat 16 (4 * j + k)) := by
  refine BitVec.eq_of_toNat_eq ?_
  rw [fifoWord, BitVec.extractLsb'_toNat, BitVec.toNat_ofNat, Nat.shiftRight_eq_div_pow,
    byte_of_word (csd _).isLt (csd _).isLt (csd _).isLt (csd _).isLt hk]
  rcases (by omega : k = 0 ∨ k = 1 ∨ k = 2 ∨ k = 3) with rfl | rfl | rfl | rfl <;> rfl

/-- An initialized driver whose card has a CSD. -/
def driverOf (csd : Fin 16 → BitVec 8) : Driver :=
  ⟨0#8, ctSd2 ||| ctBlock, ⟨0#32, fun _ => 0#32, fifoWord csd, [], []⟩⟩

theorem noinit_driverOf (csd : Fin 16 → BitVec 8) : has (driverOf csd).stat staNoinit = false := by
  have hzero : has 0#8 staNoinit = false := by decide
  exact hzero

theorem delivers_driverOf (csd : Fin 16 → BitVec 8) : (driverOf csd).bus.Delivers csd := by
  refine funext fun i => ?_
  have hi : Fin.ofNat 16 (4 * ((i : ℕ) / 4) + (i : ℕ) % 4) = i := by
    refine Fin.ext ?_
    rw [Fin.val_ofNat, Nat.div_add_mod, Nat.mod_eq_of_lt i.isLt]
  rw [driverOf, csdBytes, extractLsb'_fifoWord csd _ (Nat.mod_lt _ (by omega)), hi]

/-- **A card of version 2 with more than 16 bits of `C_SIZE` is misreported.** -/
theorem not_stores_of_large (hv : csdStructure csd = 1) (hsize : ¬csdField csd 48 22 < 2 ^ 16) :
    ¬Stores (sectorCount csd) (trueCount2 csd) := by
  have h7 := (csd 7).isLt
  have h8 := (csd 8).isLt
  have h9 := (csd 9).isLt
  rw [(csdField_bytes csd).2.2.1] at hsize
  rw [sectorCount_v2 hv, trueCount2, (csdField_bytes csd).2.2.1]
  rintro ⟨hstored, -⟩
  have := congrArg BitVec.toNat (Option.some.inj hstored)
  simp only [BitVec.toNat_ofNat] at this
  omega

/-- **When the capacity is exact**: unless the CSD is of version 2 and `C_SIZE` has more than 16
bits, which is so for a card of more than 32 GiB. -/
theorem capacityExact_iff (csd : Fin 16 → BitVec 8) :
    CapacityExact csd ↔ (csdStructure csd = 1 → csdField csd 48 22 < 2 ^ 16) := by
  constructor
  · intro hexact hv
    by_contra hsize
    have hstores := (hexact (driverOf csd) (noinit_driverOf csd) (delivers_driverOf csd)).1 hv
    rw [storedCount_eq (noinit_driverOf csd) (delivers_driverOf csd)] at hstores
    exact not_stores_of_large hv hsize hstores
  · intro hsmall s hs hcsd
    rw [storedCount_eq hs hcsd]
    refine ⟨fun hv => ?_, fun hv hlen => ?_⟩
    · have hsize := hsmall hv
      have hfields := (csdField_bytes csd).2.2.1
      have h7 : (csd 7).toNat % 64 = 0 := by omega
      have h8 := (csd 8).isLt
      rw [sectorCount_v2 hv, trueCount2, hfields, h7]
      simpa using stores_ofNat _
    · rw [sectorCount_v1 hv hlen]
      exact stores_ofNat _

/-- The CSD of a card of 64 GiB: version 2, with a `C_SIZE` of `0x1FFFF`. -/
def csd64G : Fin 16 → BitVec 8 :=
  fun i => if i = 0 then 0x40#8 else if i = 7 then 0x01#8 else if i = 8 ∨ i = 9 then 0xFF#8 else 0#8

/-- **A card of 64 GiB is taken for one of 32 GiB and a bit**: it has `2 ^ 27` sectors. -/
theorem not_capacityExact_csd64G :
    csdStructure csd64G = 1 ∧ trueCount2 csd64G = 2 ^ 27 ∧
      storedCount (driverOf csd64G) = some 67371008#32 ∧ ¬CapacityExact csd64G := by
  have hv : csdStructure csd64G = 1 := by decide
  have hstored := storedCount_eq (noinit_driverOf csd64G) (delivers_driverOf csd64G)
  refine ⟨hv, by decide, hstored.trans (by decide), fun hexact => ?_⟩
  have hstores := (hexact _ (noinit_driverOf csd64G) (delivers_driverOf csd64G)).1 hv
  rw [hstored] at hstores
  exact not_stores_of_large hv (by decide) hstores

end Verdict

end Sunxi

end BareMetal
