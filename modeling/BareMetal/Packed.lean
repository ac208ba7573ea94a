import Mathlib.Logic.Function.Basic
import Mathlib.Data.Nat.Notation
import Mathlib.Tactic.Common

/-!
# Tables packed into a stream of bytes

A stream of bytes is a stream of bits, the lowest bit of a byte first (`BareMetal.bitAt`). A table
whose entries take `stride` bits each has its `c`-th entry at the bits from `stride * c` on, of which
the lowest `width` count (`BareMetal.slotAt`); nothing asks a byte to hold one entry only.

To store an entry is to replace its bits and to leave the others (`BareMetal.PutsBits`), by whatever
stores of bytes. Then the entry reads back and the other entries are as before
(`BareMetal.PutsBits.slotAt_self`, `BareMetal.slotAt_eq_of_outside`).
-/

namespace BareMetal

variable {B B' : ℕ → BitVec 8} {stride width n c c' : ℕ}

/-! ### Bits -/

/-- A bit of a stream of bytes. -/
def bitAt (B : ℕ → BitVec 8) (n : ℕ) : Bool := (B (n / 8)).getLsbD (n % 8)

theorem bitAt_congr (h : B (n / 8) = B' (n / 8)) : bitAt B n = bitAt B' n := by
  rw [bitAt, bitAt, h]

/-- A bit of a byte that is given by its number. -/
theorem bitAt_add (B : ℕ → BitVec 8) (i : ℕ) {j : ℕ} (hj : j < 8) :
    bitAt B (8 * i + j) = (B i).getLsbD j := by
  have hdiv : (8 * i + j) / 8 = i := by omega
  have hmod : (8 * i + j) % 8 = j := by omega
  rw [bitAt, hdiv, hmod]

/-- The bits of a stream that begins later. -/
theorem bitAt_shift (B : ℕ → BitVec 8) (i n : ℕ) :
    bitAt (fun k => B (i + k)) n = bitAt B (8 * i + n) := by
  have hdiv : (8 * i + n) / 8 = i + n / 8 := by omega
  have hmod : (8 * i + n) % 8 = n % 8 := by omega
  rw [bitAt, bitAt, hdiv, hmod]

/-- The bits of the first byte, and of the others. -/
theorem bitAt_cons (B : ℕ → BitVec 8) (n : ℕ) :
    bitAt B n = if n < 8 then (B 0).getLsbD n else bitAt (fun k => B (k + 1)) (n - 8) := by
  split
  · rename_i h
    simpa using bitAt_add B 0 h
  · rename_i h
    have hdiv : n / 8 = (n - 8) / 8 + 1 := by omega
    have hmod : n % 8 = (n - 8) % 8 := by omega
    rw [bitAt, bitAt, hdiv, hmod]

/-- The bits of a word with one more byte under it. -/
theorem getLsbD_shift_or_byte {k m : ℕ} (y : BitVec k) (b : BitVec 8) (hm : m < k) :
    (y <<< 8 ||| b.setWidth k).getLsbD m = if m < 8 then b.getLsbD m else y.getLsbD (m - 8) := by
  rw [BitVec.getLsbD_or, BitVec.getLsbD_shiftLeft, BitVec.getLsbD_setWidth]
  split
  · rename_i h
    simp [h, hm]
  · rename_i h
    simp [h, hm, BitVec.getLsbD_of_ge b m (Nat.le_of_not_lt h)]

/-- The bits after a byte has been stored. -/
theorem bitAt_update (B : ℕ → BitVec 8) (i : ℕ) (b : BitVec 8) (n : ℕ) :
    bitAt (Function.update B i b) n = if n / 8 = i then b.getLsbD (n % 8) else bitAt B n := by
  unfold bitAt
  split
  · rename_i h
    rw [h, Function.update_self]
  · rename_i h
    rw [Function.update_of_ne h]

/-- The word of some bits. -/
def bitsOf (f : ℕ → Bool) : (w : ℕ) → BitVec w
  | 0 => 0#0
  | w + 1 => (bitsOf f w).cons (f w)

theorem getLsbD_bitsOf (f : ℕ → Bool) {w i : ℕ} (hi : i < w) : (bitsOf f w).getLsbD i = f i := by
  induction w with
  | zero => omega
  | succ w ih =>
    rw [bitsOf, BitVec.getLsbD_cons]
    by_cases h : i = w
    · rw [if_pos h, h]
    · rw [if_neg h, ih (by omega)]

theorem bitsOf_congr {f f' : ℕ → Bool} {w : ℕ} (h : ∀ i < w, f i = f' i) :
    bitsOf f w = bitsOf f' w :=
  BitVec.eq_of_getLsbD_eq fun i hi => by rw [getLsbD_bitsOf f hi, getLsbD_bitsOf f' hi, h i hi]

/-! ### Entries -/

/-- **An entry** of a packed table. -/
def slotAt (B : ℕ → BitVec 8) (stride width c : ℕ) : BitVec width :=
  bitsOf (fun j => bitAt B (stride * c + j)) width

theorem getLsbD_slotAt (B : ℕ → BitVec 8) (stride c : ℕ) {j : ℕ} (hj : j < width) :
    (slotAt B stride width c).getLsbD j = bitAt B (stride * c + j) :=
  getLsbD_bitsOf _ hj

/-- **Bits are replaced**: those from `n` on by the bits of a word, and no others. -/
def PutsBits (B B' : ℕ → BitVec 8) (n : ℕ) (v : BitVec width) : Prop :=
  ∀ i, bitAt B' i = if n ≤ i ∧ i < n + width then v.getLsbD (i - n) else bitAt B i

/-- The bytes of a word are stored, one after the other. -/
theorem putsBits_of_bytes {k i : ℕ} {v : BitVec (8 * k)}
    (hnew : ∀ j < k, B' (i + j) = (v >>> (8 * j)).setWidth 8)
    (hold : ∀ x, x < i ∨ i + k ≤ x → B' x = B x) : PutsBits B B' (8 * i) v := by
  intro n
  by_cases hn : 8 * i ≤ n ∧ n < 8 * i + 8 * k
  · have hbyte : n / 8 = i + (n / 8 - i) := by omega
    have hbit : 8 * (n / 8 - i) + n % 8 = n - 8 * i := by omega
    rw [if_pos hn, bitAt, hbyte, hnew _ (by omega), BitVec.getLsbD_setWidth,
      BitVec.getLsbD_ushiftRight, hbit, decide_eq_true (Nat.mod_lt n (by decide)), Bool.true_and]
  · rw [if_neg hn, bitAt, hold _ (by omega), bitAt]

/-- **An entry that has been stored reads back.** -/
theorem PutsBits.slotAt_self {v : BitVec width} (h : PutsBits B B' (stride * c) v) :
    slotAt B' stride width c = v := by
  refine BitVec.eq_of_getLsbD_eq fun j hj => ?_
  rw [getLsbD_slotAt B' stride c hj, h, if_pos (by omega), Nat.add_sub_cancel_left]

/-- Two entries have no bit in common. -/
theorem slot_apart (hw : width ≤ stride) (hc : c' ≠ c) {j : ℕ} (hj : j < width) :
    ¬(stride * c ≤ stride * c' + j ∧ stride * c' + j < stride * c + width) := by
  rcases Nat.lt_or_gt_of_ne hc with hlt | hgt
  · have hmul : stride * (c' + 1) ≤ stride * c := Nat.mul_le_mul_left _ hlt
    rw [Nat.mul_succ] at hmul
    omega
  · have hmul : stride * (c + 1) ≤ stride * c' := Nat.mul_le_mul_left _ hgt
    rw [Nat.mul_succ] at hmul
    omega

/-- Bits outside an entry do not change the others. -/
theorem slotAt_eq_of_outside (hw : width ≤ stride) (hc : c' ≠ c)
    (h : ∀ i, ¬(stride * c ≤ i ∧ i < stride * c + width) → bitAt B' i = bitAt B i) :
    slotAt B' stride width c' = slotAt B stride width c' :=
  bitsOf_congr fun _ hj => h _ (slot_apart hw hc hj)

end BareMetal
