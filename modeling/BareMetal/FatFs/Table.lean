import BareMetal.BitField
import BareMetal.Packed
import BareMetal.FatFs.Window

/-!
# The allocation table

The table is an array of entries of twelve, sixteen or thirty-two bits. Those of twelve bits are packed:
two entries share a byte, and an entry may be half in one sector and half in the next, so that `get_fat`
and `put_fat` move the window twice for it. An entry of a FAT32 table has a value of twenty-eight bits, and
`put_fat` keeps the four bits above.

What an entry is worth is said on the bytes of the table, one after the other
(`BareMetal.FatFs.fatEntry`), for the three widths at once: an entry is a slot of a stream of bits
(`BareMetal.slotAt`). `get_fat` reads it (`BareMetal.FatFs.getFat_spec`), and `put_fat` replaces its bits
and no others (`BareMetal.FatFs.putFat_spec`), or a transfer fails. A store of twelve bits that fails half
way has written one of the two bytes: then its own entry is not known any more, and that is all.

In every run an entry is what was last stored in it, clipped to its width
(`BareMetal.FatFs.tableStored`).
-/

namespace BareMetal

namespace FatFs

variable {δ : Type} [DiskIo δ]

/-! ### The code -/

/-- `get_fat`: the value of an entry, 1 for a cluster that does not exist, `0xFFFFFFFF` after a disk
error. -/
def getFat (g : Geometry) (w : Window δ) (clst : BitVec 32) : BitVec 32 × Window δ :=
  if clst < 2#32 ∨ clst ≥ g.nFatent then (1#32, w)
  else
    match g.fsType with
    | .fat12 =>
        let bc := clst + clst / 2#32
        match moveWindow g w (g.fatbase + bc / 512#32) with
        | (.ok, w) =>
            let wc := (peek w.win bc.toNat).setWidth 32
            -- the second byte may be in the next sector
            let bc := bc + 1#32
            match moveWindow g w (g.fatbase + bc / 512#32) with
            | (.ok, w) =>
                let wc := wc ||| (peek w.win bc.toNat).setWidth 32 <<< 8
                (if clst &&& 1#32 ≠ 0#32 then wc >>> 4 else wc &&& 0xFFF#32, w)
            | (_, w) => (0xFFFFFFFF#32, w)
        | (_, w) => (0xFFFFFFFF#32, w)
    | .fat16 =>
        match moveWindow g w (g.fatbase + clst / 256#32) with
        | (.ok, w) => ((ldWord w.win ((clst * 2#32).toNat % 512)).setWidth 32, w)
        | (_, w) => (0xFFFFFFFF#32, w)
    | .fat32 =>
        match moveWindow g w (g.fatbase + clst / 128#32) with
        | (.ok, w) => (ldDword w.win ((clst * 4#32).toNat % 512) &&& 0x0FFFFFFF#32, w)
        | (_, w) => (0xFFFFFFFF#32, w)

/-- `put_fat`. -/
def putFat (g : Geometry) (w : Window δ) (clst val : BitVec 32) : FResult × Window δ :=
  if clst ≥ 2#32 ∧ clst < g.nFatent then
    match g.fsType with
    | .fat12 =>
        let bc := clst + clst / 2#32
        match editWindow g w (g.fatbase + bc / 512#32) fun win => poke win bc.toNat
            (if clst &&& 1#32 ≠ 0#32 then
              (peek win bc.toNat &&& 0x0F#8) ||| (val.setWidth 8 <<< 4)
            else val.setWidth 8) with
        | (.ok, w) =>
            let bc := bc + 1#32
            editWindow g w (g.fatbase + bc / 512#32) fun win => poke win bc.toNat
              (if clst &&& 1#32 ≠ 0#32 then (val >>> 4).setWidth 8
              else (peek win bc.toNat &&& 0xF0#8) ||| ((val >>> 8).setWidth 8 &&& 0x0F#8))
        | (res, w) => (res, w)
    | .fat16 =>
        editWindow g w (g.fatbase + clst / 256#32) fun win =>
          stWord win ((clst * 2#32).toNat % 512) (val.setWidth 16)
    | .fat32 =>
        editWindow g w (g.fatbase + clst / 128#32) fun win =>
          stDword win ((clst * 4#32).toNat % 512) ((val &&& 0x0FFFFFFF#32) |||
            (ldDword win ((clst * 4#32).toNat % 512) &&& 0xF0000000#32))
  else (.intErr, w)

/-! ### What the table holds -/

/-- The bits of an entry that count. -/
def FatType.width : FatType → ℕ
  | .fat12 => 12
  | .fat16 => 16
  | .fat32 => 28

theorem FatType.width_le_stride (t : FatType) : t.width ≤ t.stride := by
  cases t <;> decide

/-- The bytes of the table, as far as it reaches. -/
def fatBytes (g : Geometry) (σ : BitVec 32 → Sector) (i : ℕ) : BitVec 8 :=
  if i / 512 < g.fsize.toNat then peek (σ (g.fatbase + BitVec.ofNat 32 (i / 512))) i else 0#8

/-- **An entry of the table.** -/
def fatEntry (g : Geometry) (σ : BitVec 32 → Sector) (c : BitVec 32) : BitVec 32 :=
  (slotAt (fatBytes g σ) g.fsType.stride g.fsType.width c.toNat).setWidth 32

/-- A value as an entry can hold it. -/
def FatType.clip (t : FatType) (val : BitVec 32) : BitVec 32 := (val.setWidth t.width).setWidth 32

/-! ### Words and bits -/

section Bits

variable {n : ℕ} [NeZero n] (B : ℕ → BitVec 8)

/-- The bits of a word that is loaded. -/
theorem getLsbD_ldWord (w : Block n) (o : ℕ) {m : ℕ} (hm : m < 16) :
    (ldWord w o).getLsbD m = bitAt (fun k => peek w (o + k)) m := by
  rw [ldWord, getLsbD_shift_or_byte _ _ hm, bitAt_cons]
  split
  · rfl
  · rw [bitAt_cons, if_pos (by omega), BitVec.getLsbD_setWidth, decide_eq_true (by omega),
      Bool.true_and]

theorem getLsbD_ldDword (w : Block n) (o : ℕ) {m : ℕ} (hm : m < 32) :
    (ldDword w o).getLsbD m = bitAt (fun k => peek w (o + k)) m := by
  rw [ldDword, getLsbD_shift_or_byte _ _ hm, bitAt_cons]
  split
  · rfl
  · rw [getLsbD_shift_or_byte _ _ (by omega), bitAt_cons]
    split
    · rfl
    · rw [getLsbD_shift_or_byte _ _ (by omega), bitAt_cons]
      split
      · rfl
      · rw [bitAt_cons, if_pos (by omega), BitVec.getLsbD_setWidth, decide_eq_true (by omega),
          Bool.true_and]

/-- The bits of two bytes that are merged. -/
theorem getLsbD_merge (i : ℕ) {m : ℕ} (hm : m < 32) :
    ((B i).setWidth 32 ||| (B (i + 1)).setWidth 32 <<< 8).getLsbD m =
      (decide (m < 16) && bitAt B (8 * i + m)) := by
  rw [BitVec.or_comm, getLsbD_shift_or_byte _ _ hm, ← bitAt_shift, bitAt_cons]
  split
  · rw [decide_eq_true (by omega), Bool.true_and]
    rfl
  · rw [BitVec.getLsbD_setWidth, decide_eq_true (by omega : m - 8 < 32), Bool.true_and, bitAt_cons]
    by_cases h : m < 16
    · rw [decide_eq_true h, Bool.true_and, if_pos (by omega)]
    · rw [decide_eq_false h, Bool.false_and, BitVec.getLsbD_of_ge _ _ (by omega)]

/-- A word is an entry of sixteen bits. -/
theorem ldWord_eq_slotAt {w : Block n} {o c : ℕ} (h : ∀ k < 2, peek w (o + k) = B (2 * c + k)) :
    ldWord w o = slotAt B 16 16 c := by
  refine BitVec.eq_of_getLsbD_eq fun m hm => ?_
  rw [getLsbD_ldWord w o hm, getLsbD_slotAt B 16 c hm, show 16 * c = 8 * (2 * c) by omega,
    ← bitAt_shift]
  exact bitAt_congr (h _ (by omega))

/-- A double word is an entry of thirty-two bits. -/
theorem ldDword_eq_slotAt {w : Block n} {o c : ℕ} (h : ∀ k < 4, peek w (o + k) = B (4 * c + k)) :
    ldDword w o = slotAt B 32 32 c := by
  refine BitVec.eq_of_getLsbD_eq fun m hm => ?_
  rw [getLsbD_ldDword w o hm, getLsbD_slotAt B 32 c hm, show 32 * c = 8 * (4 * c) by omega,
    ← bitAt_shift]
  exact bitAt_congr (h _ (by omega))

/-- The bits of an entry of thirty-two bits that count. -/
theorem slotAt_and_mask (c : ℕ) :
    slotAt B 32 32 c &&& 0x0FFFFFFF#32 = (slotAt B 32 28 c).setWidth 32 := by
  refine BitVec.eq_of_getLsbD_eq fun m hm => ?_
  rw [show 0x0FFFFFFF#32 = placed 32 0 (BitVec.allOnes 28) from rfl, getLsbD_and_mask _ _ _ hm,
    BitVec.getLsbD_setWidth, decide_eq_true hm, Bool.true_and]
  by_cases h : m < 28
  · rw [if_pos (by omega), getLsbD_slotAt B 32 c hm, getLsbD_slotAt B 32 c h]
  · rw [if_neg (by omega), BitVec.getLsbD_of_ge _ _ (by omega)]

/-- An odd entry of twelve bits begins in the middle of a byte. -/
theorem and_one_ne_zero_iff (clst : BitVec 32) : clst &&& 1#32 ≠ 0#32 ↔ clst.toNat % 2 = 1 := by
  rw [ne_eq, ← BitVec.toNat_inj, BitVec.toNat_and, show (1#32).toNat = 1 from rfl,
    Nat.and_one_is_mod, show (0#32).toNat = 0 from rfl]
  omega

/-- **Reading an entry of twelve bits** from the two bytes it is in. -/
theorem merge_eq_slotAt (clst : BitVec 32) :
    (if clst &&& 1#32 ≠ 0#32 then
        ((B (clst.toNat + clst.toNat / 2)).setWidth 32 |||
          (B (clst.toNat + clst.toNat / 2 + 1)).setWidth 32 <<< 8) >>> 4
      else ((B (clst.toNat + clst.toNat / 2)).setWidth 32 |||
          (B (clst.toNat + clst.toNat / 2 + 1)).setWidth 32 <<< 8) &&& 0xFFF#32) =
      (slotAt B 12 12 clst.toNat).setWidth 32 := by
  refine BitVec.eq_of_getLsbD_eq fun m hm => ?_
  rw [BitVec.getLsbD_setWidth, decide_eq_true hm, Bool.true_and]
  have hslot : (slotAt B 12 12 clst.toNat).getLsbD m =
      (decide (m < 12) && bitAt B (12 * clst.toNat + m)) := by
    by_cases h : m < 12
    · rw [getLsbD_slotAt B 12 _ h, decide_eq_true h, Bool.true_and]
    · rw [BitVec.getLsbD_of_ge _ _ (by omega), decide_eq_false h, Bool.false_and]
  rw [hslot]
  split
  · rename_i hodd
    rw [and_one_ne_zero_iff] at hodd
    rw [BitVec.getLsbD_ushiftRight]
    by_cases h : m < 12
    · rw [getLsbD_merge B _ (by omega), decide_eq_true (by omega : 4 + m < 16), decide_eq_true h,
        show 8 * (clst.toNat + clst.toNat / 2) + (4 + m) = 12 * clst.toNat + m by omega]
    · rw [decide_eq_false h, Bool.false_and]
      by_cases h' : 4 + m < 32
      · rw [getLsbD_merge B _ h', decide_eq_false (by omega), Bool.false_and]
      · exact BitVec.getLsbD_of_ge _ _ (by omega)
  · rename_i heven
    rw [and_one_ne_zero_iff] at heven
    rw [show 0xFFF#32 = placed 32 0 (BitVec.allOnes 12) from rfl, getLsbD_and_mask _ _ _ hm,
      getLsbD_merge B _ hm, show 8 * (clst.toNat + clst.toNat / 2) = 12 * clst.toNat by omega]
    by_cases h : m < 12
    · rw [if_pos (by omega), decide_eq_true (by omega : m < 16), decide_eq_true h]
    · rw [if_neg (by omega), decide_eq_false h, Bool.false_and]

/-- **Writing an entry of twelve bits** to the two bytes it is in. -/
theorem putsBits_merge (clst val : BitVec 32) :
    PutsBits B
      (Function.update (Function.update B (clst.toNat + clst.toNat / 2)
          (if clst &&& 1#32 ≠ 0#32 then
            (B (clst.toNat + clst.toNat / 2) &&& 0x0F#8) ||| (val.setWidth 8 <<< 4)
          else val.setWidth 8)) (clst.toNat + clst.toNat / 2 + 1)
        (if clst &&& 1#32 ≠ 0#32 then (val >>> 4).setWidth 8
        else (B (clst.toNat + clst.toNat / 2 + 1) &&& 0xF0#8) |||
          ((val >>> 8).setWidth 8 &&& 0x0F#8)))
      (12 * clst.toNat) (val.setWidth 12) := by
  intro i
  have hr : i % 8 < 8 := Nat.mod_lt _ (by decide)
  have hi : 8 * (i / 8) + i % 8 = i := Nat.div_add_mod i 8
  have hval : ∀ j < 12, (val.setWidth 12).getLsbD j = val.getLsbD j := fun j hj => by
    rw [BitVec.getLsbD_setWidth, decide_eq_true hj, Bool.true_and]
  have hlow : ∀ x : BitVec 8, (x &&& 0x0F#8).getLsbD (i % 8) =
      if i % 8 < 4 then x.getLsbD (i % 8) else false := fun x => by
    rw [show 0x0F#8 = placed 8 0 (BitVec.allOnes 4) from rfl, getLsbD_and_mask _ _ _ hr]
    simp
  have hhigh : ∀ x : BitVec 8, (x &&& 0xF0#8).getLsbD (i % 8) =
      if 4 ≤ i % 8 then x.getLsbD (i % 8) else false := fun x => by
    rw [show 0xF0#8 = placed 8 4 (BitVec.allOnes 4) from rfl, getLsbD_and_mask _ _ _ hr]
    simp [hr]
  have hkeep : ∀ k, i / 8 = k → (B k).getLsbD (i % 8) = bitAt B i := fun k hk => by
    rw [← hk, bitAt]
  rw [bitAt_update, bitAt_update]
  -- a bit of the second byte, of the first, or of another; an even entry begins with a byte, an odd one
  -- in the middle of one
  by_cases hsecond : i / 8 = clst.toNat + clst.toNat / 2 + 1
  · rw [if_pos hsecond]
    split
    · rename_i hodd
      rw [and_one_ne_zero_iff] at hodd
      rw [if_pos (by omega), hval _ (by omega), BitVec.getLsbD_setWidth, decide_eq_true hr,
        Bool.true_and, BitVec.getLsbD_ushiftRight,
        show 4 + i % 8 = i - 12 * clst.toNat by omega]
    · rename_i heven
      rw [and_one_ne_zero_iff] at heven
      rw [BitVec.getLsbD_or, hlow, hhigh]
      by_cases h : i % 8 < 4
      · rw [if_neg (by omega), if_pos h, if_pos (by omega), Bool.false_or, hval _ (by omega),
          BitVec.getLsbD_setWidth, decide_eq_true hr, Bool.true_and, BitVec.getLsbD_ushiftRight,
          show 8 + i % 8 = i - 12 * clst.toNat by omega]
      · rw [if_pos (by omega), if_neg h, if_neg (by omega), Bool.or_false, hkeep _ hsecond]
  · rw [if_neg hsecond]
    by_cases hfirst : i / 8 = clst.toNat + clst.toNat / 2
    · rw [if_pos hfirst]
      split
      · rename_i hodd
        rw [and_one_ne_zero_iff] at hodd
        rw [BitVec.getLsbD_or, hlow, BitVec.getLsbD_shiftLeft, decide_eq_true hr, Bool.true_and]
        by_cases h : i % 8 < 4
        · rw [if_pos h, if_neg (by omega), decide_eq_true h, Bool.not_true, Bool.false_and,
            Bool.or_false, hkeep _ hfirst]
        · rw [if_neg h, if_pos (by omega), decide_eq_false h, Bool.not_false, Bool.true_and,
            Bool.false_or, hval _ (by omega), BitVec.getLsbD_setWidth, decide_eq_true (by omega),
            Bool.true_and, show i % 8 - 4 = i - 12 * clst.toNat by omega]
      · rename_i heven
        rw [and_one_ne_zero_iff] at heven
        rw [if_pos (by omega), hval _ (by omega), BitVec.getLsbD_setWidth, decide_eq_true hr,
          Bool.true_and, show i % 8 = i - 12 * clst.toNat by omega]
    · rw [if_neg hfirst, if_neg (by omega)]

/-- Writing the first of the two bytes changes no other entry. -/
theorem bitAt_first_byte (clst val : BitVec 32) {i : ℕ}
    (hi : ¬(12 * clst.toNat ≤ i ∧ i < 12 * clst.toNat + 12)) :
    bitAt (Function.update B (clst.toNat + clst.toNat / 2)
      (if clst &&& 1#32 ≠ 0#32 then
        (B (clst.toNat + clst.toNat / 2) &&& 0x0F#8) ||| (val.setWidth 8 <<< 4)
      else val.setWidth 8)) i = bitAt B i := by
  by_cases hsecond : i / 8 = clst.toNat + clst.toNat / 2 + 1
  · rw [bitAt_update, if_neg (by omega)]
  · have hputs := putsBits_merge B clst val i
    rwa [bitAt_update, if_neg hsecond, if_neg hi] at hputs

/-- Writing a double word whose upper bits are the old ones. -/
theorem putsBits_low {B' : ℕ → BitVec 8} {c : ℕ} {val : BitVec 32}
    (h : PutsBits B B' (32 * c)
      ((val &&& 0x0FFFFFFF#32) ||| (slotAt B 32 32 c &&& 0xF0000000#32))) :
    PutsBits B B' (32 * c) (val.setWidth 28) := by
  intro i
  rw [h i]
  by_cases hin : 32 * c ≤ i ∧ i < 32 * c + 32
  · have hlt : i - 32 * c < 32 := by omega
    rw [if_pos hin, BitVec.getLsbD_or, show 0x0FFFFFFF#32 = placed 32 0 (BitVec.allOnes 28) from rfl,
      show 0xF0000000#32 = placed 32 28 (BitVec.allOnes 4) from rfl, getLsbD_and_mask _ _ _ hlt,
      getLsbD_and_mask _ _ _ hlt]
    by_cases hlow : i - 32 * c < 28
    · rw [if_pos (by omega), if_neg (by omega), if_pos (by omega), Bool.or_false,
        BitVec.getLsbD_setWidth, decide_eq_true hlow, Bool.true_and]
    · rw [if_neg (by omega), if_pos (by omega), if_neg (by omega), Bool.false_or,
        getLsbD_slotAt B 32 c hlt, Nat.add_sub_cancel' hin.1]
  · rw [if_neg hin, if_neg (by omega)]

end Bits

/-! ### Where an entry is -/

/-- A cluster of the volume. -/
def Geometry.Cluster (g : Geometry) (c : BitVec 32) : Prop := 2#32 ≤ c ∧ c < g.nFatent

instance (g : Geometry) (c : BitVec 32) : Decidable (g.Cluster c) :=
  inferInstanceAs (Decidable (_ ∧ _))

section Places

variable (l : Layout) {c : BitVec 32}

theorem toNat_cluster_lt (hc : l.Cluster c) : c.toNat < l.fsType.maxClusters + 2 :=
  (BitVec.lt_def.mp hc.2).trans_le l.nFatent_le

/-- The table has room for the bits of an entry. -/
theorem byte_lt_of_cluster (hc : l.Cluster c) {i : ℕ} (hi : 8 * i < l.fsType.stride * (c.toNat + 1)) :
    i / 512 < l.fsize.toNat := by
  have hlt : c.toNat + 1 ≤ l.nFatent.toNat := BitVec.lt_def.mp hc.2
  have hmul := Nat.mul_le_mul_left l.fsType.stride hlt
  have hroom := l.room
  omega

theorem udiv_eq_ofNat (x y : BitVec 32) : x / y = BitVec.ofNat 32 (x.toNat / y.toNat) := by
  refine BitVec.eq_of_toNat_eq ?_
  rw [BitVec.toNat_udiv, BitVec.toNat_ofNat,
    Nat.mod_eq_of_lt ((Nat.div_le_self _ _).trans_lt x.isLt)]

/-- Where an entry of twelve bits is: in two bytes that may be in two sectors. -/
theorem place_fat12 (hc : l.Cluster c) (htype : l.fsType = .fat12) :
    (c + c / 2#32).toNat = c.toNat + c.toNat / 2 ∧
      (c + c / 2#32 + 1#32).toNat = c.toNat + c.toNat / 2 + 1 ∧
      (c.toNat + c.toNat / 2) / 512 < l.fsize.toNat ∧
      (c.toNat + c.toNat / 2 + 1) / 512 < l.fsize.toNat := by
  have hlt := toNat_cluster_lt l hc
  rw [htype] at hlt
  simp only [FatType.maxClusters] at hlt
  have hbc : (c + c / 2#32).toNat = c.toNat + c.toNat / 2 := by
    rw [BitVec.toNat_add, BitVec.toNat_udiv, show (2#32).toNat = 2 from rfl]
    omega
  refine ⟨hbc, ?_, byte_lt_of_cluster l hc ?_, byte_lt_of_cluster l hc ?_⟩
  · rw [BitVec.toNat_add, hbc, show (1#32).toNat = 1 from rfl]
    omega
  · rw [htype, FatType.stride]
    omega
  · rw [htype, FatType.stride]
    omega

theorem place_fat16 (hc : l.Cluster c) (htype : l.fsType = .fat16) :
    l.fatbase + c / 256#32 = l.fatbase + BitVec.ofNat 32 (2 * c.toNat / 512) ∧
      (c * 2#32).toNat = 2 * c.toNat ∧ 2 * c.toNat / 512 < l.fsize.toNat := by
  have hlt := toNat_cluster_lt l hc
  rw [htype] at hlt
  simp only [FatType.maxClusters] at hlt
  refine ⟨?_, ?_, byte_lt_of_cluster l hc ?_⟩
  · rw [udiv_eq_ofNat, show c.toNat / (256#32).toNat = 2 * c.toNat / 512 by
      rw [show (256#32).toNat = 256 from rfl]
      omega]
  · rw [BitVec.toNat_mul, show (2#32).toNat = 2 from rfl]
    omega
  · rw [htype, FatType.stride]
    omega

theorem place_fat32 (hc : l.Cluster c) (htype : l.fsType = .fat32) :
    l.fatbase + c / 128#32 = l.fatbase + BitVec.ofNat 32 (4 * c.toNat / 512) ∧
      (c * 4#32).toNat = 4 * c.toNat ∧ 4 * c.toNat / 512 < l.fsize.toNat := by
  have hlt := toNat_cluster_lt l hc
  rw [htype] at hlt
  simp only [FatType.maxClusters] at hlt
  refine ⟨?_, ?_, byte_lt_of_cluster l hc ?_⟩
  · rw [udiv_eq_ofNat, show c.toNat / (128#32).toNat = 4 * c.toNat / 512 by
      rw [show (128#32).toNat = 128 from rfl]
      omega]
  · rw [BitVec.toNat_mul, show (4#32).toNat = 4 from rfl]
    omega
  · rw [htype, FatType.stride]
    omega

/-- The bytes of a sector of the table. -/
theorem peek_fatSector (σ : BitVec 32 → Sector) {i k : ℕ} (hi : i / 512 < l.fsize.toNat)
    (hk : i % 512 + k < 512) :
    peek (σ (l.fatbase + BitVec.ofNat 32 (i / 512))) (i % 512 + k) = fatBytes l σ (i + k) := by
  have hdiv : (i + k) / 512 = i / 512 := by omega
  rw [fatBytes, hdiv, if_pos hi, ← peek_mod, ← peek_mod _ (i + k)]
  congr 1
  omega

/-- What the functions on the table keep: besides, the window stays where it was or is not over a
cluster afterwards. -/
structure TableKept (g : Geometry) (w w' : Window δ) : Prop extends Kept g w w' where
  place : w'.winsect = w.winsect ∨ ¬g.InData w'.winsect

theorem Window.Coherent.tableKept {g : Geometry} {w : Window δ} (h : w.Coherent g) :
    TableKept g w w := ⟨h.kept, Or.inl rfl⟩

theorem TableKept.trans {g : Geometry} {w w' w'' : Window δ} (h : TableKept g w w')
    (h' : TableKept g w' w'') : TableKept g w w'' := by
  refine ⟨h.toKept.trans h'.toKept, ?_⟩
  rcases h'.place with heq | hout
  · rw [heq]
    exact h.place
  · exact Or.inr hout

theorem not_inData_noSector (g : Geometry) : ¬g.InData noSector := fun h => h.2 rfl

/-- **The window over the table**: after a move to the sector of a byte, the window holds the bytes
of the table there. -/
theorem moveWindow_fat {w : Window δ} (h : w.Coherent l) {i : ℕ} (hi : i / 512 < l.fsize.toNat) :
    TableKept l w (moveWindow l w (l.fatbase + BitVec.ofNat 32 (i / 512))).2 ∧
      SameView l w (moveWindow l w (l.fatbase + BitVec.ofNat 32 (i / 512))).2 ∧
      ((moveWindow l w (l.fatbase + BitVec.ofNat 32 (i / 512))).1 = .ok ∧
        (∀ k, i % 512 + k < 512 →
          peek (moveWindow l w (l.fatbase + BitVec.ofNat 32 (i / 512))).2.win (i % 512 + k) =
            fatBytes l w.view (i + k)) ∨
        (moveWindow l w (l.fatbase + BitVec.ofNat 32 (i / 512))).1 = .diskErr ∧ ¬Works w.disk) := by
  obtain ⟨hkept, hview, hres⟩ := moveWindow_spec h (l.fatbase + BitVec.ofNat 32 (i / 512))
  refine ⟨⟨hkept, ?_⟩, hview, hres.imp_left fun ⟨hok, _⟩ => ⟨hok, fun k hk => ?_⟩⟩
  · refine (moveWindow_winsect _ _ _).imp_right fun hmoved => ?_
    rcases hmoved with heq | heq <;> rw [heq]
    · exact not_inData_fatSector l hi
    · exact not_inData_noSector l
  rw [moveWindow_win h (tracked_fatSector l hi) hok, peek_fatSector l _ hi hk]

/-- Only the sectors of the table matter. -/
theorem fatBytes_congr {σ σ' : BitVec 32 → Sector}
    (h : ∀ j < l.fsize.toNat, σ' (l.fatbase + BitVec.ofNat 32 j) = σ (l.fatbase + BitVec.ofNat 32 j)) :
    fatBytes l σ' = fatBytes l σ := by
  funext i
  unfold fatBytes
  split
  · rename_i hi
    rw [h _ hi]
  · rfl

theorem fatEntry_congr {σ σ' : BitVec 32 → Sector}
    (h : ∀ j < l.fsize.toNat, σ' (l.fatbase + BitVec.ofNat 32 j) = σ (l.fatbase + BitVec.ofNat 32 j))
    (c : BitVec 32) : fatEntry l σ' c = fatEntry l σ c := by
  rw [fatEntry, fatEntry, fatBytes_congr l h]

theorem SameView.fatBytes {w w' : Window δ} (h : SameView l w w') :
    fatBytes l w'.view = fatBytes l w.view :=
  fatBytes_congr l fun _ hj => h _ (tracked_fatSector l hj)

theorem SameView.fatEntry {w w' : Window δ} (h : SameView l w w') (c : BitVec 32) :
    fatEntry l w'.view c = fatEntry l w.view c :=
  fatEntry_congr l (fun _ hj => h _ (tracked_fatSector l hj)) c

/-- Sectors outside the table hold the same. -/
def SameOutside (g : Geometry) (w w' : Window δ) : Prop :=
  ∀ s, g.Tracked s → (∀ j < g.fsize.toNat, s ≠ g.fatbase + BitVec.ofNat 32 j) → w'.view s = w.view s

theorem SameOutside.trans {g : Geometry} {w w' w'' : Window δ} (h : SameOutside g w w')
    (h' : SameOutside g w' w'') : SameOutside g w w'' :=
  fun s hs hout => (h' s hs hout).trans (h s hs hout)

theorem SameView.outside {w w' : Window δ} (h : SameView l w w') : SameOutside l w w' :=
  fun s hs _ => h s hs

/-- Where the window is after an edit of the table. -/
theorem editWindow_place {w : Window δ} (h : w.Coherent l) {i : ℕ} (hi : i / 512 < l.fsize.toNat)
    (f : Sector → Sector) :
    ((editWindow l w (l.fatbase + BitVec.ofNat 32 (i / 512)) f).2.winsect = w.winsect ∨
      ¬l.InData (editWindow l w (l.fatbase + BitVec.ofNat 32 (i / 512)) f).2.winsect) ∧
    ((editWindow l w (l.fatbase + BitVec.ofNat 32 (i / 512)) f).1 = .ok →
      ¬l.InData (editWindow l w (l.fatbase + BitVec.ofNat 32 (i / 512)) f).2.winsect) := by
  obtain ⟨⟨-, hplace⟩, -, -⟩ := moveWindow_fat l h hi
  obtain ⟨-, -, hres⟩ := moveWindow_spec h (l.fatbase + BitVec.ofNat 32 (i / 512))
  have hout := not_inData_fatSector l hi
  unfold editWindow
  generalize moveWindow l.toGeometry w _ = r at hplace hres
  obtain ⟨res, w'⟩ := r
  simp only at hplace hres
  rcases hres with ⟨rfl, heq⟩ | ⟨rfl, -⟩
  · rw [← heq] at hout
    exact ⟨hplace, fun _ => hout⟩
  · exact ⟨hplace, fun hok => by cases hok⟩

/-- **A change of the table**: after an edit of the sector of a byte, the table has the new bytes
there and the old ones elsewhere. -/
theorem editWindow_fat {w : Window δ} (h : w.Coherent l) {i : ℕ} (hi : i / 512 < l.fsize.toNat)
    (f : Sector → Sector) :
    TableKept l w (editWindow l w (l.fatbase + BitVec.ofNat 32 (i / 512)) f).2 ∧
      SameOutside l w (editWindow l w (l.fatbase + BitVec.ofNat 32 (i / 512)) f).2 ∧
      (((editWindow l w (l.fatbase + BitVec.ofNat 32 (i / 512)) f).1 = .ok ∧
          ¬l.InData (editWindow l w (l.fatbase + BitVec.ofNat 32 (i / 512)) f).2.winsect) ∧
        (∀ x, fatBytes l (editWindow l w (l.fatbase + BitVec.ofNat 32 (i / 512)) f).2.view x =
          if x / 512 = i / 512 then
            peek (f (w.view (l.fatbase + BitVec.ofNat 32 (i / 512)))) x
          else fatBytes l w.view x) ∨
        ((editWindow l w (l.fatbase + BitVec.ofNat 32 (i / 512)) f).1 = .diskErr ∧
            ¬Works w.disk) ∧
          SameView l w (editWindow l w (l.fatbase + BitVec.ofNat 32 (i / 512)) f).2) := by
  obtain ⟨hkept, hres⟩ := editWindow_spec h (tracked_fatSector l hi) f
  obtain ⟨hplace, hover⟩ := editWindow_place l h hi f
  rcases hres with ⟨hok, hnew⟩ | ⟨herr, hsame⟩
  · refine ⟨⟨hkept, hplace⟩, fun s hs hout => ?_, Or.inl ⟨⟨hok, hover hok⟩, fun x => ?_⟩⟩
    · rw [hnew s hs, Function.update_of_ne (hout _ hi)]
    · unfold FatFs.fatBytes
      by_cases hx : x / 512 = i / 512
      · rw [if_pos hx, hx, if_pos hi, hnew _ (tracked_fatSector l hi), Function.update_self]
      · rw [if_neg hx]
        split
        · rename_i hlt
          have hne : l.fatbase + BitVec.ofNat 32 (x / 512) ≠ l.fatbase + BitVec.ofNat 32 (i / 512) := by
            intro hcon
            have hnat := congrArg BitVec.toNat hcon
            rw [toNat_fatSector l hlt, toNat_fatSector l hi] at hnat
            omega
          rw [hnew _ (tracked_fatSector l hlt), Function.update_of_ne hne]
        · rfl
  · exact ⟨⟨hkept, hplace⟩, hsame.outside, Or.inr ⟨herr, hsame⟩⟩

/-- A change of one byte of the table. -/
theorem editWindow_fatByte {w : Window δ} (h : w.Coherent l) {i : ℕ} (hi : i / 512 < l.fsize.toNat)
    (b : BitVec 8 → BitVec 8) :
    let r := editWindow l w (l.fatbase + BitVec.ofNat 32 (i / 512)) fun win =>
      poke win i (b (peek win i))
    TableKept l w r.2 ∧ SameOutside l w r.2 ∧
      ((r.1 = .ok ∧ ¬l.InData r.2.winsect) ∧ fatBytes l r.2.view =
          Function.update (fatBytes l w.view) i (b (fatBytes l w.view i)) ∨
        (r.1 = .diskErr ∧ ¬Works w.disk) ∧ SameView l w r.2) := by
  obtain ⟨hkept, hout, hres⟩ := editWindow_fat l h hi fun win => poke win i (b (peek win i))
  refine ⟨hkept, hout, hres.imp_left fun ⟨hok, hbytes⟩ => ⟨hok, ?_⟩⟩
  funext x
  rw [hbytes x]
  by_cases hx : x = i
  · rw [hx, if_pos rfl, peek_poke_self, Function.update_self, fatBytes, if_pos hi]
  · rw [Function.update_of_ne hx]
    split
    · rename_i hsector
      rw [peek_poke_of_ne _ (by omega), fatBytes, hsector, if_pos hi]
    · rfl

end Places

/-! ### Reading an entry -/

section Get

variable {l : Layout} {w : Window δ} {c : BitVec 32}

/-- A cluster that does not exist. -/
theorem getFat_of_not_cluster (hc : ¬l.Cluster c) (w : Window δ) : getFat l w c = (1#32, w) := by
  have hout : c < 2#32 ∨ c ≥ l.nFatent := by
    by_cases hlow : c < 2#32
    · exact Or.inl hlow
    · exact Or.inr (BitVec.not_lt.mp fun hlt => hc ⟨BitVec.not_lt.mp hlow, hlt⟩)
  rw [getFat, if_pos hout]

theorem not_out_of_cluster (hc : l.Cluster c) : ¬(c < 2#32 ∨ c ≥ l.nFatent) := by
  rintro (hlow | hhigh)
  · exact BitVec.not_lt.mpr hc.1 hlow
  · exact BitVec.not_lt.mpr hhigh hc.2

theorem fatEntry_fat12 (htype : l.fsType = .fat12) (σ : BitVec 32 → Sector) (c : BitVec 32) :
    fatEntry l σ c = (slotAt (fatBytes l σ) 12 12 c.toNat).setWidth 32 := by
  rw [fatEntry, htype]
  rfl

theorem fatEntry_fat16 (htype : l.fsType = .fat16) (σ : BitVec 32 → Sector) (c : BitVec 32) :
    fatEntry l σ c = (slotAt (fatBytes l σ) 16 16 c.toNat).setWidth 32 := by
  rw [fatEntry, htype]
  rfl

theorem fatEntry_fat32 (htype : l.fsType = .fat32) (σ : BitVec 32 → Sector) (c : BitVec 32) :
    fatEntry l σ c = (slotAt (fatBytes l σ) 32 28 c.toNat).setWidth 32 := by
  rw [fatEntry, htype]
  rfl

/-- What a read of an entry comes to. -/
def ReadsEntry (l : Layout) (w : Window δ) (c : BitVec 32) (r : BitVec 32 × Window δ) : Prop :=
  TableKept l w r.2 ∧ SameView l w r.2 ∧
    (r.1 = fatEntry l w.view c ∨ r.1 = 0xFFFFFFFF#32 ∧ ¬Works w.disk)

/-- **`get_fat` reads the entry** of a cluster, or reports a disk error, and loses nothing. -/
theorem getFat_spec (h : w.Coherent l) (hc : l.Cluster c) : ReadsEntry l w c (getFat l w c) := by
  rw [getFat, if_neg (not_out_of_cluster hc)]
  cases htype : l.fsType with
  | fat12 =>
    obtain ⟨hbc, hbc', hroom, hroom'⟩ := place_fat12 l hc htype
    simp only [udiv_eq_ofNat _ 512#32, hbc, hbc', show (512#32).toNat = 512 from rfl]
    obtain ⟨hkept, hview, hres⟩ := moveWindow_fat l h hroom
    generalize moveWindow l.toGeometry w _ = r at hkept hview hres
    obtain ⟨res, w'⟩ := r
    simp only at hkept hview hres
    rcases hres with ⟨rfl, hbytes⟩ | ⟨rfl, hfail⟩
    · obtain ⟨hkept', hview', hres'⟩ := moveWindow_fat l hkept.coherent hroom'
      simp only
      generalize moveWindow l.toGeometry w' _ = r at hkept' hview' hres'
      obtain ⟨res, w''⟩ := r
      simp only at hkept' hview' hres'
      rcases hres' with ⟨rfl, hbytes'⟩ | ⟨rfl, hfail⟩
      · refine ⟨hkept.trans hkept', hview.trans hview', Or.inl ?_⟩
        have hfirst := hbytes 0 (Nat.mod_lt _ (by decide))
        have hsecond := hbytes' 0 (Nat.mod_lt _ (by decide))
        rw [Nat.add_zero, Nat.add_zero, peek_mod] at hfirst
        rw [Nat.add_zero, Nat.add_zero, peek_mod, hview.fatBytes] at hsecond
        rw [fatEntry_fat12 htype, ← merge_eq_slotAt]
        simp only [hfirst, hsecond]
      · exact ⟨hkept.trans hkept', hview.trans hview', Or.inr ⟨rfl, fun hworks =>
          hfail (hkept.works hworks)⟩⟩
    · exact ⟨hkept, hview, Or.inr ⟨rfl, hfail⟩⟩
  | fat16 =>
    obtain ⟨hplace, hoffset, hroom⟩ := place_fat16 l hc htype
    obtain ⟨hkept, hview, hres⟩ := moveWindow_fat l h hroom
    simp only [hplace, hoffset]
    generalize moveWindow l.toGeometry w _ = r at hkept hview hres
    obtain ⟨res, w'⟩ := r
    simp only at hkept hview hres
    rcases hres with ⟨rfl, hbytes⟩ | ⟨rfl, hfail⟩
    · refine ⟨hkept, hview, Or.inl ?_⟩
      rw [fatEntry_fat16 htype]
      exact congrArg (BitVec.setWidth 32) (ldWord_eq_slotAt _ fun k hk => hbytes k (by omega))
    · exact ⟨hkept, hview, Or.inr ⟨rfl, hfail⟩⟩
  | fat32 =>
    obtain ⟨hplace, hoffset, hroom⟩ := place_fat32 l hc htype
    obtain ⟨hkept, hview, hres⟩ := moveWindow_fat l h hroom
    simp only [hplace, hoffset]
    generalize moveWindow l.toGeometry w _ = r at hkept hview hres
    obtain ⟨res, w'⟩ := r
    simp only at hkept hview hres
    rcases hres with ⟨rfl, hbytes⟩ | ⟨rfl, hfail⟩
    · refine ⟨hkept, hview, Or.inl ?_⟩
      rw [fatEntry_fat32 htype, ← slotAt_and_mask]
      exact congrArg (· &&& 0x0FFFFFFF#32)
        (ldDword_eq_slotAt _ fun k hk => hbytes k (by omega))
    · exact ⟨hkept, hview, Or.inr ⟨rfl, hfail⟩⟩

end Get

/-! ### Writing an entry -/

section Put

variable {l : Layout} {w : Window δ} {c : BitVec 32}

theorem putFat_of_not_cluster (hc : ¬l.Cluster c) (w : Window δ) (val : BitVec 32) :
    putFat l w c val = (.intErr, w) := by
  rw [putFat, if_neg (show ¬(c ≥ 2#32 ∧ c < l.nFatent) from hc)]

/-- What a write of an entry comes to. It leaves everything else, and if it fails also the entry –
except that one of twelve bits may have been written in part. -/
def WritesEntry (l : Layout) (w : Window δ) (c val : BitVec 32) (r : FResult × Window δ) : Prop :=
  TableKept l w r.2 ∧ SameOutside l w r.2 ∧
    (∀ c', c' ≠ c → fatEntry l r.2.view c' = fatEntry l w.view c') ∧
    ((r.1 = .ok ∧ ¬l.InData r.2.winsect) ∧ fatEntry l r.2.view c = l.fsType.clip val ∨
      (r.1 = .diskErr ∧ ¬Works w.disk) ∧ (l.fsType ≠ .fat12 → SameView l w r.2))

/-- Bits of an entry only are changed. -/
theorem fatEntry_of_outside {σ σ' : BitVec 32 → Sector}
    (h : ∀ i, ¬(l.fsType.stride * c.toNat ≤ i ∧ i < l.fsType.stride * c.toNat + l.fsType.width) →
      bitAt (fatBytes l σ') i = bitAt (fatBytes l σ) i) {c' : BitVec 32} (hc : c' ≠ c) :
    fatEntry l σ' c' = fatEntry l σ c' := by
  have hne : c'.toNat ≠ c.toNat := fun hcon => hc (BitVec.eq_of_toNat_eq hcon)
  rw [fatEntry, fatEntry, slotAt_eq_of_outside l.fsType.width_le_stride hne h]

/-- An entry has been replaced. -/
theorem writesEntry_of_putsBits {val : BitVec 32} {r : FResult × Window δ} (hkept : TableKept l w r.2)
    (hout : SameOutside l w r.2) (hok : r.1 = .ok ∧ ¬l.InData r.2.winsect)
    (hputs : PutsBits (fatBytes l w.view) (fatBytes l r.2.view) (l.fsType.stride * c.toNat)
      (val.setWidth l.fsType.width)) : WritesEntry l w c val r := by
  refine ⟨hkept, hout, fun c' hc' => fatEntry_of_outside (fun i hi => ?_) hc', Or.inl ⟨hok, ?_⟩⟩
  · rw [hputs i, if_neg hi]
  · rw [fatEntry, hputs.slotAt_self, FatType.clip]

/-- Nothing has been done. -/
theorem writesEntry_of_sameView {val : BitVec 32} {r : FResult × Window δ} (hkept : TableKept l w r.2)
    (herr : r.1 = .diskErr ∧ ¬Works w.disk) (hsame : SameView l w r.2) : WritesEntry l w c val r :=
  ⟨hkept, hsame.outside, fun c' _ => hsame.fatEntry l c', Or.inr ⟨herr, fun _ => hsame⟩⟩

/-- **`put_fat` writes the entry** of a cluster, or reports a disk error, and leaves everything
else. -/
theorem putFat_spec (h : w.Coherent l) (hc : l.Cluster c) (val : BitVec 32) :
    WritesEntry l w c val (putFat l w c val) := by
  rw [putFat, if_pos (show c ≥ 2#32 ∧ c < l.nFatent from hc)]
  cases htype : l.fsType with
  | fat12 =>
    obtain ⟨hbc, hbc', hroom, hroom'⟩ := place_fat12 l hc htype
    simp only [udiv_eq_ofNat _ 512#32, hbc, hbc', show (512#32).toNat = 512 from rfl]
    have hfirst := editWindow_fatByte l h hroom fun b =>
      if c &&& 1#32 ≠ 0#32 then (b &&& 0x0F#8) ||| (val.setWidth 8 <<< 4) else val.setWidth 8
    generalize editWindow l.toGeometry w _ _ = r at hfirst
    obtain ⟨res, w'⟩ := r
    obtain ⟨hkept, hout, ⟨⟨rfl, -⟩, hbytes⟩ | ⟨⟨rfl, hfail⟩, hsame⟩⟩ := hfirst
    · have hsecond := editWindow_fatByte l hkept.coherent hroom' fun b =>
        if c &&& 1#32 ≠ 0#32 then (val >>> 4).setWidth 8
        else (b &&& 0xF0#8) ||| ((val >>> 8).setWidth 8 &&& 0x0F#8)
      simp only
      generalize editWindow l.toGeometry w' _ _ = r at hsecond
      obtain ⟨res, w''⟩ := r
      obtain ⟨hkept', hout', ⟨⟨rfl, hover⟩, hbytes'⟩ | ⟨⟨rfl, hfail⟩, hsame⟩⟩ := hsecond
      · refine writesEntry_of_putsBits (hkept.trans hkept') (hout.trans hout') ⟨rfl, hover⟩ ?_
        have hne : c.toNat + c.toNat / 2 + 1 ≠ c.toNat + c.toNat / 2 := by omega
        rw [htype]
        rw [hbytes, Function.update_of_ne hne] at hbytes'
        rw [hbytes']
        exact putsBits_merge (fatBytes l w.view) c val
      · -- the first byte has been written and the second has not
        refine ⟨hkept.trans hkept', hout.trans hout', fun c' hc' => ?_, Or.inr ⟨⟨rfl, fun hworks =>
          hfail (hkept.works hworks)⟩, fun hne => absurd htype hne⟩⟩
        refine fatEntry_of_outside (fun i hi => ?_) hc'
        rw [hsame.fatBytes, hbytes]
        rw [htype] at hi
        exact bitAt_first_byte _ c val hi
    · exact writesEntry_of_sameView hkept ⟨rfl, hfail⟩ hsame
  | fat16 =>
    obtain ⟨hplace, hoffset, hroom⟩ := place_fat16 l hc htype
    simp only [hplace, hoffset]
    obtain ⟨hkept, hout, ⟨hok, hbytes⟩ | ⟨herr, hsame⟩⟩ := editWindow_fat l h hroom
      fun win => stWord win (2 * c.toNat % 512) (val.setWidth 16)
    · refine writesEntry_of_putsBits hkept hout hok ?_
      rw [htype]
      have hodd : 2 * c.toNat % 512 + 1 < 512 := by omega
      rw [show FatType.stride .fat16 * c.toNat = 8 * (2 * c.toNat) by
        rw [FatType.stride]
        omega]
      refine putsBits_of_bytes (k := 2) (fun j hj => ?_) fun x hx => ?_
      · rw [hbytes, if_pos (by omega), ← peek_mod,
          show (2 * c.toNat + j) % 512 = 2 * c.toNat % 512 + j by omega]
        exact peek_stWord_add _ hodd hj _
      · rw [hbytes]
        split
        · rename_i hsame
          rw [← peek_mod, peek_stWord_of_ne _ (Nat.mod_lt _ (by decide)) hodd (by omega), peek_mod,
            fatBytes, hsame, if_pos hroom]
        · rfl
    · exact writesEntry_of_sameView hkept herr hsame
  | fat32 =>
    obtain ⟨hplace, hoffset, hroom⟩ := place_fat32 l hc htype
    simp only [hplace, hoffset]
    have hlast : 4 * c.toNat % 512 + 3 < 512 := by omega
    have hold : ldDword (w.view (l.fatbase + BitVec.ofNat 32 (4 * c.toNat / 512)))
        (4 * c.toNat % 512) = slotAt (fatBytes l w.view) 32 32 c.toNat :=
      ldDword_eq_slotAt _ fun k hk => peek_fatSector l _ hroom (by omega)
    obtain ⟨hkept, hout, ⟨hok, hbytes⟩ | ⟨herr, hsame⟩⟩ := editWindow_fat l h hroom
      fun win => stDword win (4 * c.toNat % 512) ((val &&& 0x0FFFFFFF#32) |||
        (ldDword win (4 * c.toNat % 512) &&& 0xF0000000#32))
    · refine writesEntry_of_putsBits hkept hout hok ?_
      rw [htype]
      refine putsBits_low (fatBytes l w.view) ?_
      rw [show 32 * c.toNat = 8 * (4 * c.toNat) by omega]
      refine putsBits_of_bytes (k := 4) (fun j hj => ?_) fun x hx => ?_
      · rw [hbytes, if_pos (by omega), ← peek_mod,
          show (4 * c.toNat + j) % 512 = 4 * c.toNat % 512 + j by omega, hold]
        exact peek_stDword_add _ hlast hj _
      · rw [hbytes]
        split
        · rename_i hsector
          rw [← peek_mod, peek_stDword_of_ne _ (Nat.mod_lt _ (by decide)) hlast (by omega),
            peek_mod, fatBytes, hsector, if_pos hroom]
        · rfl
    · exact writesEntry_of_sameView hkept herr hsame

end Put

/-! ### The values of entries -/

section Values

variable (l : Layout)

/-- An entry is no disk error. -/
theorem fatEntry_toNat_lt (σ : BitVec 32 → Sector) (c : BitVec 32) :
    (fatEntry l σ c).toNat < 2 ^ l.fsType.width := by
  rw [fatEntry, BitVec.toNat_setWidth]
  exact (Nat.mod_le _ _).trans_lt (BitVec.isLt _)

theorem fatEntry_ne_diskErr (σ : BitVec 32 → Sector) (c : BitVec 32) :
    fatEntry l σ c ≠ 0xFFFFFFFF#32 := by
  intro heq
  have hlt := fatEntry_toNat_lt l σ c
  rw [heq] at hlt
  cases htype : l.fsType <;> rw [htype] at hlt <;> exact absurd hlt (by decide)

theorem clip_toNat (t : FatType) (val : BitVec 32) :
    (t.clip val).toNat = val.toNat % 2 ^ t.width := by
  have hwidth : 2 ^ t.width ≤ 2 ^ 32 := by cases t <;> decide
  rw [FatType.clip, BitVec.toNat_setWidth, BitVec.toNat_setWidth, Nat.mod_eq_of_lt]
  exact (Nat.mod_lt _ (Nat.two_pow_pos _)).trans_le hwidth

/-- There are more values than clusters. -/
theorem maxClusters_lt (t : FatType) : t.maxClusters + 2 < 2 ^ t.width - 1 := by
  cases t <;> decide

@[simp] theorem clip_zero (t : FatType) : t.clip 0#32 = 0#32 := by
  cases t <;> rfl

/-- A cluster number is not cut. -/
theorem clip_cluster {c : BitVec 32} (hc : l.Cluster c) : l.fsType.clip c = c := by
  refine BitVec.eq_of_toNat_eq ?_
  have hlt := toNat_cluster_lt l hc
  have hmax := maxClusters_lt l.fsType
  rw [clip_toNat, Nat.mod_eq_of_lt (by omega)]

/-- The mark at the end of a chain is not a cluster. -/
theorem nFatent_le_clip_eoc : l.nFatent ≤ l.fsType.clip 0xFFFFFFFF#32 := by
  have hle := l.nFatent_le
  have hmax := maxClusters_lt l.fsType
  have heoc : (l.fsType.clip 0xFFFFFFFF#32).toNat = 2 ^ l.fsType.width - 1 := by
    rw [clip_toNat]
    cases l.fsType <;> rfl
  rw [BitVec.le_def, heoc]
  omega

end Values

/-! ### Whole runs -/

/-- A call of `get_fat` or `put_fat`. -/
inductive FatOp where
  | get (clst : BitVec 32)
  | put (clst val : BitVec 32)

/-- What it returns. -/
inductive FatOut where
  | value (val : BitVec 32)
  | result (res : FResult)

def fatStep (g : Geometry) (w : Window δ) : FatOp → FatOut × Window δ
  | .get clst => (.value (getFat g w clst).1, (getFat g w clst).2)
  | .put clst val => (.result (putFat g w clst val).1, (putFat g w clst val).2)

/-- What is known of an entry: what was put last, or what it was at the start; and nothing after a
write of a twelve bit entry has failed. -/
def known (t : FatType) (c v₀ : BitVec 32) : List (FatOp × FatOut) → Option (BitVec 32)
  | [] => some v₀
  | (.put c' val, .result .ok) :: h => if c' = c then some (t.clip val) else known t c v₀ h
  | (.put c' _, .result .diskErr) :: h => if c' = c ∧ t = .fat12 then none else known t c v₀ h
  | _ :: h => known t c v₀ h

theorem known_nil (t : FatType) (c v₀ : BitVec 32) : known t c v₀ [] = some v₀ := rfl

section Runs

variable {l : Layout} {w₀ w : Window δ} {h : List (FatOp × FatOut)} {c : BitVec 32}

/-- The window is coherent, and an entry of which something is known has that value. -/
structure KnownAt (l : Layout) (c v₀ : BitVec 32) (h : List (FatOp × FatOut)) (w : Window δ) : Prop where
  coherent : w.Coherent l
  entry : ∀ v, known l.fsType c v₀ h = some v → fatEntry l w.view c = v

/-- A step keeps what is known of an entry. -/
theorem knownAt_step {v₀ : BitVec 32} (hinv : KnownAt l c v₀ h w) (op : FatOp) :
    KnownAt l c v₀ ((op, (fatStep l w op).1) :: h) (fatStep l w op).2 := by
  obtain ⟨hcoh, hentry⟩ := hinv
  cases op with
  | get c' =>
    by_cases hc' : l.Cluster c'
    · obtain ⟨hkept, hview, -⟩ := getFat_spec hcoh hc'
      refine ⟨hkept.coherent, fun v hv => ?_⟩
      rw [fatStep, hview.fatEntry]
      exact hentry v hv
    · simp only [fatStep, getFat_of_not_cluster hc']
      exact ⟨hcoh, hentry⟩
  | put c' val =>
    by_cases hc' : l.Cluster c'
    · obtain ⟨hkept, -, hothers, hres⟩ := putFat_spec hcoh hc' val
      refine ⟨hkept.coherent, fun v hv => ?_⟩
      rcases hres with ⟨⟨hok, -⟩, hnew⟩ | ⟨⟨herr, -⟩, hsame⟩
      · simp only [fatStep, hok, known] at hv
        by_cases hcc : c' = c
        · rw [if_pos hcc, Option.some.injEq] at hv
          rw [fatStep, ← hcc, hnew, hv]
        · rw [if_neg hcc] at hv
          rw [fatStep, hothers c (Ne.symm hcc)]
          exact hentry v hv
      · simp only [fatStep, herr, known] at hv
        split at hv
        · cases hv
        · rename_i hknown
          rw [fatStep]
          by_cases hcc : c' = c
          · have htype : l.fsType ≠ .fat12 := fun htype => hknown ⟨hcc, htype⟩
            rw [(hsame htype).fatEntry]
            exact hentry v hv
          · rw [hothers c (Ne.symm hcc)]
            exact hentry v hv
    · simp only [fatStep, putFat_of_not_cluster hc']
      exact ⟨hcoh, hentry⟩

/-- **The table stores its entries**: in every run of `get_fat` and `put_fat`, whichever transfers
fail, `get_fat` returns what was last put or what the table held at the start, unless it reports a
disk error; and that it does not without one. -/
theorem tableStored (hw : w₀.Coherent l) (hr : Reach (fnStep (fatStep l)) Always w₀ h w)
    (hc : l.Cluster c) {v : BitVec 32}
    (hv : known l.fsType c (fatEntry l w₀.view c) h = some v) :
    (getFat l w c).1 = v ∨ (getFat l w c).1 = 0xFFFFFFFF#32 ∧ ¬Works w.disk := by
  have hinv : KnownAt l c (fatEntry l w₀.view c) h w := by
    refine hr.fnInvariant (KnownAt l c (fatEntry l w₀.view c)) ⟨hw, fun v hv => ?_⟩
      fun _ _ op hinv _ => knownAt_step hinv op
    rwa [known_nil, Option.some.injEq] at hv
  obtain ⟨-, -, hres⟩ := getFat_spec hinv.coherent hc
  rwa [hinv.entry v hv] at hres

/-- An entry is put that lies in the middle of two bytes. -/
theorem tableStored_small :
    (getFat smallLayout (fatStep smallLayout smallWindow (.put 3#32 0x123456#32)).2 3#32).1 =
        0x456#32 ∨
      (getFat smallLayout (fatStep smallLayout smallWindow (.put 3#32 0x123456#32)).2 3#32).1 =
        0xFFFFFFFF#32 ∧
      ¬Works (fatStep smallLayout smallWindow (.put 3#32 0x123456#32)).2.disk := by
  have hreach : Reach (fnStep (fatStep smallLayout)) Always smallWindow
      [(.put 3#32 0x123456#32, .result .ok)]
      (fatStep smallLayout smallWindow (.put 3#32 0x123456#32)).2 :=
    Reach.start.next trivial rfl
  exact tableStored coherent_smallWindow hreach (by decide) rfl

end Runs

end FatFs

end BareMetal
