import Mathlib.Algebra.Order.Ring.Nat
import Mathlib.Tactic.Common

/-!
# Words in a block of bytes

Everything FatFs keeps on a disk is in blocks of bytes – a sector, a directory entry – in which it
loads and stores little-endian words at some offset: `ld_word`, `ld_dword`, `st_word` and `st_dword`.
A block is a function of the offsets below its size, and an offset that is computed is taken modulo
it; that the offsets the code computes lie in the block is proved where they are computed.

A word that has been stored loads back, and the bytes that are not its own stay
(`BareMetal.FatFs.ldWord_stWord`, `BareMetal.FatFs.peek_stWord_of_ne` and their counterparts).
-/

namespace BareMetal

namespace FatFs

/-- A block of `n` bytes. -/
abbrev Block (n : ℕ) := Fin n → BitVec 8

/-- A sector. -/
abbrev Sector := Block 512

instance neZero_sector : NeZero 512 := ⟨by decide⟩

variable {n : ℕ} [NeZero n]

/-- The byte at an offset. -/
def peek (w : Block n) (o : ℕ) : BitVec 8 := w (Fin.ofNat n o)

/-- A byte is stored at an offset. -/
def poke (w : Block n) (o : ℕ) (b : BitVec 8) : Block n := Function.update w (Fin.ofNat n o) b

/-- `ld_word`. -/
def ldWord (w : Block n) (o : ℕ) : BitVec 16 :=
  (peek w (o + 1)).setWidth 16 <<< 8 ||| (peek w o).setWidth 16

/-- `ld_dword`. -/
def ldDword (w : Block n) (o : ℕ) : BitVec 32 :=
  (((peek w (o + 3)).setWidth 32 <<< 8 ||| (peek w (o + 2)).setWidth 32) <<< 8 |||
    (peek w (o + 1)).setWidth 32) <<< 8 ||| (peek w o).setWidth 32

/-- `st_word`. -/
def stWord (w : Block n) (o : ℕ) (val : BitVec 16) : Block n :=
  poke (poke w o (val.setWidth 8)) (o + 1) ((val >>> 8).setWidth 8)

/-- `st_dword`. -/
def stDword (w : Block n) (o : ℕ) (val : BitVec 32) : Block n :=
  poke (poke (poke (poke w o (val.setWidth 8)) (o + 1) ((val >>> 8).setWidth 8)) (o + 2)
    ((val >>> 8 >>> 8).setWidth 8)) (o + 3) ((val >>> 8 >>> 8 >>> 8).setWidth 8)

/-! ### Bytes -/

theorem peek_mod (w : Block n) (o : ℕ) : peek w (o % n) = peek w o := by
  simp [peek, Fin.ofNat]

theorem peek_poke_self (w : Block n) (o : ℕ) (b : BitVec 8) : peek (poke w o b) o = b :=
  Function.update_self ..

theorem peek_poke_of_ne (w : Block n) {i o : ℕ} (h : i % n ≠ o % n) (b : BitVec 8) :
    peek (poke w o b) i = peek w i := by
  refine Function.update_of_ne ?_ ..
  intro heq
  exact h (congrArg Fin.val heq)

/-- Two offsets in the block that are different. -/
theorem peek_poke_of_lt (w : Block n) {i o : ℕ} (hi : i < n) (ho : o < n) (h : i ≠ o)
    (b : BitVec 8) : peek (poke w o b) i = peek w i :=
  peek_poke_of_ne w (by rwa [Nat.mod_eq_of_lt hi, Nat.mod_eq_of_lt ho]) b

/-! ### Words -/

/-- A word is its lowest byte under the rest of it. -/
theorem shift_or_byte {k : ℕ} (y : BitVec k) : y >>> 8 <<< 8 ||| (y.setWidth 8).setWidth k = y := by
  refine BitVec.eq_of_getLsbD_eq fun i hi => ?_
  simp only [BitVec.getLsbD_or, BitVec.getLsbD_shiftLeft, BitVec.getLsbD_setWidth,
    BitVec.getLsbD_ushiftRight]
  by_cases h : i < 8
  · simp [h, hi]
  · simp [h, hi, Nat.add_sub_cancel' (Nat.le_of_not_lt h)]

/-- A word that is a byte. -/
theorem setWidth_byte {k : ℕ} {y : BitVec k} (h : y.toNat < 2 ^ 8) :
    (y.setWidth 8).setWidth k = y := by
  refine BitVec.eq_of_toNat_eq ?_
  rw [BitVec.toNat_setWidth, BitVec.toNat_setWidth, Nat.mod_eq_of_lt h, Nat.mod_eq_of_lt y.isLt]

/-- **A word that has been stored loads back.** -/
theorem ldWord_stWord (w : Block n) {o : ℕ} (ho : o + 1 < n) (v : BitVec 16) :
    ldWord (stWord w o v) o = v := by
  have htop : (v >>> 8).toNat < 2 ^ 8 := by
    rw [BitVec.toNat_ushiftRight, Nat.shiftRight_eq_div_pow]
    omega
  rw [ldWord, stWord, peek_poke_self, peek_poke_of_lt _ (by omega) ho (by omega), peek_poke_self,
    setWidth_byte htop, shift_or_byte]

theorem ldDword_stDword (w : Block n) {o : ℕ} (ho : o + 3 < n) (v : BitVec 32) :
    ldDword (stDword w o v) o = v := by
  have htop : (v >>> 8 >>> 8 >>> 8).toNat < 2 ^ 8 := by
    simp only [BitVec.toNat_ushiftRight, Nat.shiftRight_eq_div_pow]
    omega
  rw [ldDword, stDword, peek_poke_self, peek_poke_of_lt _ (by omega) ho (by omega), peek_poke_self,
    peek_poke_of_lt _ (by omega) ho (by omega),
    peek_poke_of_lt _ (by omega : o + 1 < n) (by omega) (by omega), peek_poke_self,
    peek_poke_of_lt _ (by omega) ho (by omega),
    peek_poke_of_lt _ (by omega : o < n) (by omega) (by omega),
    peek_poke_of_lt _ (by omega : o < n) (by omega) (by omega), peek_poke_self, setWidth_byte htop,
    shift_or_byte, shift_or_byte, shift_or_byte]

/-- The bytes of a word that has been stored. -/
theorem peek_stWord_add (w : Block n) {j o : ℕ} (ho : o + 1 < n) (hj : j < 2) (v : BitVec 16) :
    peek (stWord w o v) (o + j) = (v >>> (8 * j)).setWidth 8 := by
  obtain rfl | rfl : j = 0 ∨ j = 1 := by omega
  · rw [Nat.add_zero o, stWord, peek_poke_of_lt _ (by omega) ho (by omega), peek_poke_self,
      Nat.mul_zero, BitVec.ushiftRight_zero]
  · rw [stWord, peek_poke_self]

theorem peek_stDword_add (w : Block n) {j o : ℕ} (ho : o + 3 < n) (hj : j < 4) (v : BitVec 32) :
    peek (stDword w o v) (o + j) = (v >>> (8 * j)).setWidth 8 := by
  have hone : o + 1 < n := by omega
  have htwo : o + 2 < n := by omega
  rw [stDword]
  obtain rfl | rfl | rfl | rfl : j = 0 ∨ j = 1 ∨ j = 2 ∨ j = 3 := by omega
  · rw [Nat.add_zero o, peek_poke_of_lt _ (by omega) ho (by omega),
      peek_poke_of_lt _ (by omega) htwo (by omega), peek_poke_of_lt _ (by omega) hone (by omega),
      peek_poke_self, Nat.mul_zero, BitVec.ushiftRight_zero]
  · rw [peek_poke_of_lt _ hone ho (by omega), peek_poke_of_lt _ hone htwo (by omega),
      peek_poke_self]
  · rw [peek_poke_of_lt _ htwo ho (by omega), peek_poke_self, ← BitVec.shiftRight_add]
  · rw [peek_poke_self, ← BitVec.shiftRight_add, ← BitVec.shiftRight_add]

/-- **The other bytes stay.** -/
theorem peek_stWord_of_ne (w : Block n) {i o : ℕ} (hi : i < n) (ho : o + 1 < n)
    (h : i < o ∨ o + 1 < i) (v : BitVec 16) : peek (stWord w o v) i = peek w i := by
  rw [stWord, peek_poke_of_lt _ hi ho (by omega), peek_poke_of_lt _ hi (by omega) (by omega)]

theorem peek_stDword_of_ne (w : Block n) {i o : ℕ} (hi : i < n) (ho : o + 3 < n)
    (h : i < o ∨ o + 3 < i) (v : BitVec 32) : peek (stDword w o v) i = peek w i := by
  rw [stDword, peek_poke_of_lt _ hi ho (by omega), peek_poke_of_lt _ hi (by omega) (by omega),
    peek_poke_of_lt _ hi (by omega) (by omega), peek_poke_of_lt _ hi (by omega) (by omega)]

end FatFs

end BareMetal
