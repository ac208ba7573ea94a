import Mathlib.Algebra.GroupWithZero.Nat
import Mathlib.Data.Nat.Notation
import Mathlib.Tactic.Common

/-!
# Fields of a word

A register holds several fields, each a run of bits at some position. A field is read with
`BareMetal.fieldAt`. There are two ways to write one. The first changes it where it is, by masking
it out and putting the new value in its place: `BareMetal.putField`. A field that has been put
reads back as what was put (`BareMetal.fieldAt_putField`), and the fields apart from it read as
before (`BareMetal.fieldAt_putField_apart`).

The second makes up the whole word of its fields, each in its place (`BareMetal.placed`), and a
field that is to be kept is masked out of the old word (`BareMetal.and_mask`). Such a word is
read field by field: a field of a union is the union of the fields (`BareMetal.fieldAt_or`), and
what is in another place does not show (`BareMetal.fieldAt_placed_apart`).

Both go through the bits (`BareMetal.getLsbD_placed`, `BareMetal.getLsbD_putField`).
-/

namespace BareMetal

variable {n k l s t : ℕ}

/-- The field of `k` bits at position `s`. -/
def fieldAt (r : BitVec n) (s k : ℕ) : BitVec k := r.extractLsb' s k

theorem toNat_fieldAt (r : BitVec n) (s k : ℕ) :
    (fieldAt r s k).toNat = r.toNat / 2 ^ s % 2 ^ k := by
  rw [fieldAt, BitVec.extractLsb'_toNat, Nat.shiftRight_eq_div_pow]

theorem getLsbD_fieldAt (r : BitVec n) (s : ℕ) {i : ℕ} (hi : i < k) :
    (fieldAt r s k).getLsbD i = r.getLsbD (s + i) := by
  rw [fieldAt, BitVec.getLsbD_extractLsb', decide_eq_true hi, Bool.true_and]

/-- A field of one bit. -/
theorem fieldAt_bit (r : BitVec n) (s : ℕ) : fieldAt r s 1 = BitVec.ofBool (r.getLsbD s) := by
  refine BitVec.eq_of_getLsbD_eq fun i hi => ?_
  obtain rfl : i = 0 := Nat.lt_one_iff.mp hi
  rw [getLsbD_fieldAt r s hi, BitVec.getLsbD_ofBool]
  simp

/-! ### A word made up of its fields -/

/-- A value in its place in a word of `n` bits. -/
def placed (n s : ℕ) (v : BitVec k) : BitVec n := v.setWidth n <<< s

/-- The bits of a value in its place. -/
theorem getLsbD_placed (s : ℕ) (v : BitVec k) {i : ℕ} (hi : i < n) :
    (placed n s v).getLsbD i = if s ≤ i ∧ i < s + k then v.getLsbD (i - s) else false := by
  have hsub : i - s < n := by omega
  rw [placed, BitVec.getLsbD_shiftLeft, BitVec.getLsbD_setWidth]
  by_cases hs : i < s
  · have hout : ¬(s ≤ i ∧ i < s + k) := by omega
    simp [hs, hout]
  · by_cases hk : i < s + k
    · simp [hi, hs, hsub, hk, Nat.le_of_not_lt hs]
    · have hzero : v.getLsbD (i - s) = false := BitVec.getLsbD_of_ge v _ (by omega)
      simp [hk, hzero]

/-- **A field of a union** is the union of the fields. -/
theorem fieldAt_or (x y : BitVec n) : fieldAt (x ||| y) s k = fieldAt x s k ||| fieldAt y s k := by
  refine BitVec.eq_of_getLsbD_eq fun i hi => ?_
  rw [BitVec.getLsbD_or, getLsbD_fieldAt _ _ hi, getLsbD_fieldAt _ _ hi, getLsbD_fieldAt _ _ hi,
    BitVec.getLsbD_or]

/-- **A value in its place reads back.** -/
theorem fieldAt_placed (hs : s + k ≤ n) (v : BitVec k) : fieldAt (placed n s v) s k = v := by
  refine BitVec.eq_of_getLsbD_eq fun i hi => ?_
  rw [getLsbD_fieldAt _ _ hi, getLsbD_placed s v (by omega), if_pos (by omega),
    Nat.add_sub_cancel_left]

/-- **A value in another place does not show.** -/
theorem fieldAt_placed_apart (ht : t + l ≤ n) (h : s + k ≤ t ∨ t + l ≤ s) (v : BitVec k) :
    fieldAt (placed n s v) t l = 0#l := by
  refine BitVec.eq_of_getLsbD_eq fun i hi => ?_
  rw [getLsbD_fieldAt _ _ hi, getLsbD_placed s v (by omega), if_neg (by omega),
    BitVec.getLsbD_zero]

/-- **What a mask leaves** of a word is the field under it, in its place. -/
theorem and_mask (r : BitVec n) (s k : ℕ) :
    r &&& placed n s (BitVec.allOnes k) = placed n s (fieldAt r s k) := by
  refine BitVec.eq_of_getLsbD_eq fun i hi => ?_
  rw [BitVec.getLsbD_and, getLsbD_placed _ _ hi, getLsbD_placed _ _ hi]
  split
  · rename_i hin
    rw [getLsbD_fieldAt _ _ (by omega), BitVec.getLsbD_allOnes, decide_eq_true (by omega),
      Bool.and_true, Nat.add_sub_cancel' hin.1]
  · rw [Bool.and_false]

/-- The bits a mask leaves. -/
theorem getLsbD_and_mask (r : BitVec n) (s k : ℕ) {i : ℕ} (hi : i < n) :
    (r &&& placed n s (BitVec.allOnes k)).getLsbD i =
      if s ≤ i ∧ i < s + k then r.getLsbD i else false := by
  rw [and_mask, getLsbD_placed _ _ hi]
  split
  · rename_i hin
    rw [getLsbD_fieldAt _ _ (by omega), Nat.add_sub_cancel' hin.1]
  · rfl

/-- The bits from a position on. -/
theorem toNat_and_not_mask (r : BitVec n) {k : ℕ} (hk : k < n) :
    (r &&& ~~~(BitVec.ofNat n (2 ^ k) - 1#n)).toNat = r.toNat / 2 ^ k * 2 ^ k := by
  have hpow : 2 ^ k < 2 ^ n := Nat.pow_lt_pow_right (by decide) hk
  have hnat : (BitVec.ofNat n (2 ^ k) - 1#n).toNat = 2 ^ k - 1 := by
    have hone : 1 ≤ 2 ^ k := Nat.one_le_two_pow
    rw [BitVec.toNat_sub, BitVec.toNat_ofNat, BitVec.toNat_ofNat, Nat.mod_eq_of_lt hpow,
      Nat.mod_eq_of_lt (show 1 < 2 ^ n by omega), show 2 ^ n - 1 + 2 ^ k = 2 ^ n + (2 ^ k - 1) by omega,
      Nat.add_mod_left, Nat.mod_eq_of_lt (by omega)]
  have hbits : r &&& ~~~(BitVec.ofNat n (2 ^ k) - 1#n) = (r >>> k) <<< k := by
    refine BitVec.eq_of_getLsbD_eq fun i hi => ?_
    have hmask : (BitVec.ofNat n (2 ^ k) - 1#n).getLsbD i = decide (i < k) := by
      rw [← BitVec.testBit_toNat, hnat, Nat.testBit_two_pow_sub_one]
    rw [BitVec.getLsbD_and, BitVec.getLsbD_not, hmask, BitVec.getLsbD_shiftLeft,
      BitVec.getLsbD_ushiftRight]
    by_cases hlow : i < k
    · simp [hlow]
    · simp [hlow, hi, Nat.add_sub_cancel' (Nat.le_of_not_lt hlow)]
  rw [hbits, BitVec.toNat_shiftLeft, BitVec.toNat_ushiftRight, Nat.shiftRight_eq_div_pow,
    Nat.shiftLeft_eq]
  exact Nat.mod_eq_of_lt (Nat.lt_of_le_of_lt (Nat.div_mul_le_self _ _) r.isLt)

/-- A value that is masked first and put in its place then. -/
theorem and_mask_shiftLeft (v : BitVec n) (s k : ℕ) :
    (v &&& (BitVec.allOnes k).setWidth n) <<< s = placed n s (fieldAt v 0 k) := by
  have hmask := and_mask v 0 k
  rw [placed, placed, BitVec.shiftLeft_zero, BitVec.shiftLeft_zero] at hmask
  rw [hmask, placed]

/-- A single bit under its mask. -/
theorem and_bit_ne_zero (r : BitVec n) (hs : s < n) :
    (r &&& (1#n <<< s) != 0#n) = r.getLsbD s := by
  have hmask : 1#n <<< s = placed n s (BitVec.allOnes 1) := by
    rw [placed, show BitVec.allOnes 1 = 1#1 from rfl, BitVec.setWidth_ofNat_one_eq_ofNat_one_of_lt]
    omega
  rw [hmask, and_mask, fieldAt_bit]
  cases r.getLsbD s with
  | false => simp [placed]
  | true =>
    refine bne_iff_ne.mpr fun hzero => ?_
    have hback := fieldAt_placed hs (BitVec.ofBool true)
    rw [hzero] at hback
    simp [fieldAt] at hback

/-! ### A field that is changed where it is -/

/-- The word with the field of `k` bits at position `s` replaced. -/
def putField (r : BitVec n) (s k : ℕ) (v : BitVec n) : BitVec n :=
  (r &&& ~~~((BitVec.allOnes k).setWidth n <<< s)) ||| (v <<< s)

/-- The bits of a word with a field replaced. -/
theorem getLsbD_putField (r : BitVec n) (s : ℕ) (v : BitVec k) {i : ℕ} (hi : i < n) :
    (putField r s k (v.setWidth n)).getLsbD i =
      if s ≤ i ∧ i < s + k then v.getLsbD (i - s) else r.getLsbD i := by
  rw [putField, BitVec.getLsbD_or, BitVec.getLsbD_and, BitVec.getLsbD_not, ← placed, ← placed,
    getLsbD_placed _ _ hi, getLsbD_placed _ _ hi]
  split
  · rename_i hin
    have hk : i - s < k := by omega
    rw [BitVec.getLsbD_allOnes, decide_eq_true hk, Bool.not_true, Bool.and_false, Bool.and_false,
      Bool.false_or]
  · rw [Bool.not_false, Bool.and_true, decide_eq_true hi, Bool.and_true, Bool.or_false]

/-- To set or to clear a single bit is to replace it. -/
theorem putField_bit (r : BitVec n) (s : ℕ) (b : Bool) :
    (if b then r ||| (1#n <<< s) else r &&& ~~~(1#n <<< s)) =
      putField r s 1 ((BitVec.ofBool b).setWidth n) := by
  refine BitVec.eq_of_getLsbD_eq fun i hi => ?_
  rw [getLsbD_putField _ _ _ hi, ← BitVec.twoPow_eq]
  by_cases hs : i = s
  · subst hs
    cases b <;> simp [hi]
  · have hout : ¬(s ≤ i ∧ i < s + 1) := by omega
    rw [if_neg hout]
    cases b <;> simp [hi, hs]

/-- **A field that has been put reads back.** -/
theorem fieldAt_putField (hs : s + k ≤ n) (r : BitVec n) (v : BitVec k) :
    fieldAt (putField r s k (v.setWidth n)) s k = v := by
  refine BitVec.eq_of_getLsbD_eq fun i hi => ?_
  rw [getLsbD_fieldAt _ _ hi, getLsbD_putField r s v (by omega), if_pos (by omega),
    Nat.add_sub_cancel_left]

/-- **The fields apart from it are as before.** -/
theorem fieldAt_putField_apart (ht : t + l ≤ n) (h : s + k ≤ t ∨ t + l ≤ s) (r : BitVec n)
    (v : BitVec k) : fieldAt (putField r s k (v.setWidth n)) t l = fieldAt r t l := by
  refine BitVec.eq_of_getLsbD_eq fun i hi => ?_
  rw [getLsbD_fieldAt _ _ hi, getLsbD_fieldAt _ _ hi, getLsbD_putField r s v (by omega),
    if_neg (by omega)]

end BareMetal
