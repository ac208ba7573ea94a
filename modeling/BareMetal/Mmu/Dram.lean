import Mathlib.Data.Nat.Notation
import Mathlib.Logic.Function.Basic
import Mathlib.Tactic.Common

/-!
# How much memory there is

`mmu_detect_dram_end` finds the end of the DRAM by looking for the place where the addresses
wrap around. It writes a mark to the first word, goes up in steps of 32 MiB, writes another
mark at each, and stops where that mark turns up in the first word; a word it has written to
is restored before it goes on, and the first word is restored at the end.

The step at which the loop is left is the one whose word is *not* restored. It needs no
restoring: the loop is left exactly where the two words are one cell
(`BareMetal.Mmu.probe_alias`), and the last store of the function gives that cell back what it
held. So whatever the memory held before – the two marks included – it holds afterwards, and
the address returned is the end of the DRAM, or the end of the window it is searched in
(`BareMetal.Mmu.mmuDetectDramEnd_eq`).

The memory is a function on *cells*, and the addresses of the DRAM window are decoded to cells
modulo its size (`BareMetal.Mmu.Dram.cell`); below the window an address is its own cell.
-/

namespace BareMetal

namespace Mmu

/-! ### The code -/

/-- `DRAM_START`. -/
def dramStart : ℕ := 0x40000000

/-- `DRAM_MAX`. -/
def dramMax : ℕ := 0xc0000000

/-- `DRAM_STEP`. -/
def dramStep : ℕ := 0x02000000

/-- The memory chips: some positive number of steps. -/
structure Dram where
  size : ℕ
  size_pos : 0 < size
  step_dvd : dramStep ∣ size

/-- The words of the memory, by cell. -/
abbrev Words := ℕ → BitVec 32

/-- The cell of an address. -/
def Dram.cell (d : Dram) (a : ℕ) : ℕ :=
  if a < dramStart then a else dramStart + (a - dramStart) % d.size

/-- `*p`. -/
def Dram.read (d : Dram) (m : Words) (p : ℕ) : BitVec 32 := m (d.cell p)

/-- `*p = x`. -/
def Dram.write (d : Dram) (m : Words) (p : ℕ) (x : BitVec 32) : Words :=
  Function.update m (d.cell p) x

/-- The mark in the first word. -/
def startMark : BitVec 32 := 0xdeadbeef#32

/-- The mark that is looked for. -/
def endMark : BitVec 32 := 0xcafebabe#32

/-- The loop of `mmu_detect_dram_end`, from `dram_end` on: where it stops, and the memory it
leaves. -/
def probe (d : Dram) (m : Words) (dramEnd : ℕ) : ℕ × Words :=
  if dramEnd < dramMax then
    let savedDramEnd := d.read m dramEnd
    let m := d.write m dramEnd endMark
    if d.read m dramStart = endMark then
      (dramEnd, m)
    else
      probe d (d.write m dramEnd savedDramEnd) (dramEnd + dramStep)
  else
    (dramEnd, m)
termination_by dramMax - dramEnd
decreasing_by
  simp only [dramStep]
  omega

/-- `mmu_detect_dram_end`: the address it returns, and the memory it leaves. -/
def mmuDetectDramEnd (d : Dram) (m : Words) : ℕ × Words :=
  let savedDramStart := d.read m dramStart
  let r := probe d (d.write m dramStart startMark) (dramStart + dramStep)
  (r.1, d.write r.2 dramStart savedDramStart)

/-! ### Cells -/

variable (d : Dram) (m : Words)

@[simp] theorem cell_dramStart : d.cell dramStart = dramStart := by
  simp [Dram.cell]

/-- An address of the window wraps to its start exactly at the multiples of the size. -/
theorem cell_eq_dramStart_iff (n : ℕ) : d.cell (dramStart + n) = dramStart ↔ d.size ∣ n := by
  rw [Dram.cell, if_neg (by omega), Nat.add_sub_cancel_left, Nat.dvd_iff_mod_eq_zero]
  omega

/-- Up to the size, every address has a cell of its own. -/
theorem cell_of_lt {a : ℕ} (h : a < dramStart + d.size) : d.cell a = a := by
  unfold Dram.cell
  split
  · rfl
  · rw [Nat.mod_eq_of_lt (by omega)]
    omega

/-! ### One round of the loop -/

/-- **A probe of another cell goes on with the memory as it was.** -/
theorem probe_distinct {m : Words} {dramEnd : ℕ} (hmax : dramEnd < dramMax)
    (hcell : d.cell dramEnd ≠ dramStart) (hmark : m dramStart = startMark) :
    probe d m dramEnd = probe d m (dramEnd + dramStep) := by
  have hread : d.read (d.write m dramEnd endMark) dramStart ≠ endMark := by
    rw [Dram.read, Dram.write, cell_dramStart, Function.update_of_ne hcell.symm, hmark]
    decide
  have hrestored : d.write (d.write m dramEnd endMark) dramEnd (d.read m dramEnd) = m := by
    rw [Dram.write, Dram.write, Dram.read, Function.update_idem, Function.update_eq_self]
  conv_lhs => rw [probe]
  simp only [if_pos hmax, if_neg hread, hrestored]

/-- **A probe of the first cell ends the loop**, with the mark left in that cell. -/
theorem probe_alias {dramEnd : ℕ} (hmax : dramEnd < dramMax)
    (hcell : d.cell dramEnd = dramStart) :
    probe d m dramEnd = (dramEnd, Function.update m dramStart endMark) := by
  have hread : d.read (d.write m dramEnd endMark) dramStart = endMark := by
    rw [Dram.read, Dram.write, cell_dramStart, hcell, Function.update_self]
  rw [probe]
  simp only [if_pos hmax, if_pos hread]
  rw [Dram.write, hcell]

theorem probe_max {dramEnd : ℕ} (hmax : dramMax ≤ dramEnd) :
    probe d m dramEnd = (dramEnd, m) := by
  rw [probe, if_neg (by omega)]

/-! ### The whole loop -/

/-- Up to the end of the DRAM or of the window, the loop reaches that end and leaves everything
but the first cell as it was. -/
theorem probe_eq {m : Words} (hmark : m dramStart = startMark) (j : ℕ) :
    ∀ i, 0 < i → (i + j) * dramStep = min d.size (dramMax - dramStart) →
      (probe d m (dramStart + i * dramStep)).1 = dramStart + (i + j) * dramStep ∧
        ∀ x, Function.update (probe d m (dramStart + i * dramStep)).2 dramStart x =
          Function.update m dramStart x := by
  -- by induction on the number of steps that are left
  induction j with
  | zero =>
    intro i hi hend
    rw [Nat.add_zero] at hend ⊢
    by_cases hmax : dramStart + i * dramStep < dramMax
    · have hsize : i * dramStep = d.size := by omega
      have hcell : d.cell (dramStart + i * dramStep) = dramStart :=
        (cell_eq_dramStart_iff d _).mpr ⟨1, by rw [hsize, Nat.mul_one]⟩
      rw [probe_alias d m hmax hcell]
      exact ⟨rfl, fun x => Function.update_idem _ _ _⟩
    · rw [probe_max d m (by omega)]
      exact ⟨rfl, fun _ => rfl⟩
  | succ j ih =>
    intro i hi hend
    have hlt : i * dramStep < (i + (j + 1)) * dramStep :=
      Nat.mul_lt_mul_of_pos_right (by omega) (by decide)
    have hcell : d.cell (dramStart + i * dramStep) ≠ dramStart := by
      rw [Ne, cell_eq_dramStart_iff]
      refine Nat.not_dvd_of_pos_of_lt (Nat.mul_pos hi (by decide)) ?_
      omega
    have hnext : i * dramStep + dramStep = (i + 1) * dramStep := by rw [Nat.succ_mul]
    rw [probe_distinct d (by omega) hcell hmark, Nat.add_assoc, hnext,
      show i + (j + 1) = i + 1 + j by omega]
    exact ih (i + 1) (by omega) (by rw [← hend]; congr 1; omega)

/-- **The loop stops at the end** of the DRAM or of the window, and changes at most the first
word. -/
theorem probe_start :
    let r := probe d (d.write m dramStart startMark) (dramStart + dramStep)
    r.1 = dramStart + min d.size 0x80000000 ∧
      ∀ x, Function.update r.2 dramStart x = Function.update m dramStart x := by
  have hdvd : dramStep ∣ min d.size (dramMax - dramStart) := by
    rcases Nat.le_total d.size (dramMax - dramStart) with h | h
    · rw [Nat.min_eq_left h]
      exact d.step_dvd
    · rw [Nat.min_eq_right h]
      decide
  obtain ⟨k, hk⟩ := hdvd
  have hpos : 0 < k := by
    refine Nat.pos_of_ne_zero fun h0 => ?_
    have hsize := d.size_pos
    rw [h0] at hk
    have : 0 < dramMax - dramStart := by decide
    omega
  have hmark : d.write m dramStart startMark dramStart = startMark := by
    rw [Dram.write, cell_dramStart, Function.update_self]
  obtain ⟨hend, hmem⟩ := probe_eq d hmark (k - 1) 1 (by omega)
    (by rw [show 1 + (k - 1) = k by omega, hk, Nat.mul_comm])
  rw [Nat.one_mul] at hend hmem
  constructor
  · rw [hend, show 1 + (k - 1) = k by omega, Nat.mul_comm, ← hk]
    rfl
  · intro x
    rw [hmem, Dram.write, cell_dramStart, Function.update_idem]

/-- **The DRAM is measured exactly, and nothing is lost**: `mmu_detect_dram_end` ends, returns
the end of the DRAM or of the window, and leaves every word as it was. -/
theorem mmuDetectDramEnd_eq :
    mmuDetectDramEnd d m = (dramStart + min d.size 0x80000000, m) := by
  obtain ⟨hend, hmem⟩ := probe_start d m
  rw [mmuDetectDramEnd]
  refine Prod.ext hend ?_
  dsimp only
  rw [Dram.write, cell_dramStart, hmem, Dram.read, cell_dramStart, Function.update_eq_self]

/-- **Below the address returned nothing aliases**: every address has a cell of its own, so
what is built on that limit is a memory. -/
theorem cell_of_lt_mmuDetectDramEnd {a : ℕ} (h : a < (mmuDetectDramEnd d m).1) :
    d.cell a = a := by
  refine cell_of_lt d ?_
  rw [mmuDetectDramEnd, (probe_start d m).1] at h
  omega

end Mmu

end BareMetal
