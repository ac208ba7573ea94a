import BareMetal.Runs
import BareMetal.BitField
import Mathlib.Data.List.Nodup
import Mathlib.Data.Nat.Log
import Mathlib.Data.Nat.Size

/-!
# Flushing the data cache

`mmu_flush_dcache` is a program of 39 instructions with three loops, over the cache levels up,
and over the ways and the sets of a level down. It is given here instruction by instruction
(`BareMetal.Dcache.program`), with the registers, the flags and the coprocessor registers it
uses, and runs as the processor runs it.

What it is for is to clean and invalidate every line of every data or unified cache below the
level of coherency. A line is a level, a way and a set (`BareMetal.Dcache.Line`), and the
operation names it in one word, whose fields have positions that depend on the geometry of the
cache (`BareMetal.Dcache.Line.operand`). Where the fields fit into the word, the program ends,
and the operands it has issued are those of the lines, each once
(`BareMetal.Dcache.flushed_of_fits`).

The loops are followed from the inside out. Each is a countdown whose invariant says which
operands have been issued before it.
-/

namespace BareMetal

namespace Dcache

/-! ### The processor -/

/-- The registers that are used. -/
inductive Reg where
  | r0 | r1 | r2 | r3 | r4 | r5 | r6 | r7 | r8 | r9
  deriving DecidableEq, Repr

/-- Their values. -/
structure Regs where
  r0 : BitVec 32
  r1 : BitVec 32
  r2 : BitVec 32
  r3 : BitVec 32
  r4 : BitVec 32
  r5 : BitVec 32
  r6 : BitVec 32
  r7 : BitVec 32
  r8 : BitVec 32
  r9 : BitVec 32
  deriving DecidableEq, Repr

/-- The value of a register. -/
def Regs.get (r : Regs) : Reg → BitVec 32
  | .r0 => r.r0 | .r1 => r.r1 | .r2 => r.r2 | .r3 => r.r3 | .r4 => r.r4
  | .r5 => r.r5 | .r6 => r.r6 | .r7 => r.r7 | .r8 => r.r8 | .r9 => r.r9

/-- The registers with one of them changed. -/
def Regs.set (r : Regs) (d : Reg) (v : BitVec 32) : Regs :=
  match d with
  | .r0 => { r with r0 := v } | .r1 => { r with r1 := v } | .r2 => { r with r2 := v }
  | .r3 => { r with r3 := v } | .r4 => { r with r4 := v } | .r5 => { r with r5 := v }
  | .r6 => { r with r6 := v } | .r7 => { r with r7 := v } | .r8 => { r with r8 := v }
  | .r9 => { r with r9 := v }

/-- The last operand of an instruction. A shift by a register takes the lowest byte of it. -/
inductive Operand where
  | imm (v : BitVec 32)
  | reg (m : Reg)
  | lsr (m : Reg) (k : ℕ)
  | lsrReg (m s : Reg)
  | lslReg (m s : Reg)

/-- Its value. -/
def Operand.val (r : Regs) : Operand → BitVec 32
  | .imm v => v
  | .reg m => r.get m
  | .lsr m k => r.get m >>> k
  | .lsrReg m s => r.get m >>> ((r.get s).toNat % 256)
  | .lslReg m s => r.get m <<< ((r.get s).toNat % 256)

/-- The flags that conditions look at: negative, zero and overflow. -/
structure Flags where
  n : Bool
  z : Bool
  v : Bool
  deriving DecidableEq, Repr

/-- The conditions of branches. -/
inductive Cond where
  | eq | lt | ge | gt
  deriving DecidableEq, Repr

/-- Whether a condition holds. -/
def Cond.holds (f : Flags) : Cond → Bool
  | .eq => f.z
  | .lt => f.n != f.v
  | .ge => f.n == f.v
  | .gt => !f.z && f.n == f.v

/-- The flags of a subtraction. -/
def subFlags (a b : BitVec 32) : Flags :=
  ⟨(a - b).msb, a - b == 0#32, a.msb != b.msb && (a - b).msb != a.msb⟩

/-- The number of leading zeros of a word. -/
def clz (x : BitVec 32) : BitVec 32 := BitVec.ofNat 32 (32 - x.toNat.size)

/-- The instructions, by their mnemonics; the accesses to coprocessor 15 by the register they
go to. -/
inductive Instr where
  | pushR4R9
  | popR4R9
  /-- `dmb`, `dsb st` or `isb`. -/
  | barrier
  | mrcClidr (d : Reg)
  | mrcCcsidr (d : Reg)
  | mcrCsselr (m : Reg)
  /-- Clean and invalidate by set and way. -/
  | mcrDccisw (m : Reg)
  | mov (d : Reg) (o : Operand)
  | add (d n : Reg) (o : Operand)
  | and (d n : Reg) (o : Operand)
  | ands (d n : Reg) (o : Operand)
  | orr (d n : Reg) (o : Operand)
  | clz (d m : Reg)
  | cmp (n : Reg) (o : Operand)
  | subs (d n : Reg) (o : Operand)
  | b (c : Cond) (target : ℕ)
  | bxLr

/-- The description of the caches: `CLIDR`, and `CCSIDR` for each level. -/
structure Hw where
  clidr : BitVec 32
  ccsidr : ℕ → BitVec 32

/-- The processor: the registers and flags, the number of the next instruction, `CSSELR`, the
registers that have been pushed, and the operands of the operations on cache lines so far, the
oldest first. -/
structure Cpu where
  regs : Regs
  flags : Flags
  pc : ℕ
  csselr : BitVec 32
  stack : List Regs
  ops : List (BitVec 32)

/-- A register gets a value, and the next instruction follows. -/
def Cpu.write (s : Cpu) (d : Reg) (v : BitVec 32) : Cpu :=
  { s with regs := s.regs.set d v, pc := s.pc + 1 }

/-- The place of the end of the program. -/
def returned : ℕ := 39

/-- One instruction. `CSSELR` selects the level by bits 3..1. -/
def exec (hw : Hw) (s : Cpu) : Instr → Cpu
  | .pushR4R9 => { s with stack := s.regs :: s.stack, pc := s.pc + 1 }
  | .popR4R9 =>
      match s.stack with
      | [] => { s with pc := s.pc + 1 }
      | old :: rest =>
          { s with
            regs := { old with r0 := s.regs.r0, r1 := s.regs.r1, r2 := s.regs.r2, r3 := s.regs.r3 }
            stack := rest
            pc := s.pc + 1 }
  | .barrier => { s with pc := s.pc + 1 }
  | .mrcClidr d => s.write d hw.clidr
  | .mrcCcsidr d => s.write d (hw.ccsidr (s.csselr.toNat / 2))
  | .mcrCsselr m => { s with csselr := s.regs.get m, pc := s.pc + 1 }
  | .mcrDccisw m => { s with ops := s.ops ++ [s.regs.get m], pc := s.pc + 1 }
  | .mov d o => s.write d (o.val s.regs)
  | .add d n o => s.write d (s.regs.get n + o.val s.regs)
  | .and d n o => s.write d (s.regs.get n &&& o.val s.regs)
  | .ands d n o =>
      let v := s.regs.get n &&& o.val s.regs
      { s.write d v with flags := ⟨v.msb, v == 0#32, s.flags.v⟩ }
  | .orr d n o => s.write d (s.regs.get n ||| o.val s.regs)
  | .clz d m => s.write d (clz (s.regs.get m))
  | .cmp n o => { s with flags := subFlags (s.regs.get n) (o.val s.regs), pc := s.pc + 1 }
  | .subs d n o =>
      { s.write d (s.regs.get n - o.val s.regs) with
        flags := subFlags (s.regs.get n) (o.val s.regs) }
  | .b c target => { s with pc := if c.holds s.flags then target else s.pc + 1 }
  | .bxLr => { s with pc := returned }

/-! ### The program -/

/-- `mmu_flush_dcache`. The labels `1`, `2`, `3`, `skip` and `done` are the places 7, 22, 23, 30
and 33. -/
def program : List Instr :=
  [.pushR4R9,
    .barrier,
    .mrcClidr .r0,
    .mov .r1 (.lsr .r0 23),
    .ands .r1 .r1 (.imm (7#32 <<< 1)),
    .b .eq 33,
    .mov .r2 (.imm 0#32),
    -- 1:
    .add .r3 .r2 (.lsr .r2 1),
    .mov .r4 (.lsrReg .r0 .r3),
    .and .r4 .r4 (.imm 7#32),
    .cmp .r4 (.imm 2#32),
    .b .lt 30,
    .mcrCsselr .r2,
    .barrier,
    .mrcCcsidr .r4,
    .and .r3 .r4 (.imm 7#32),
    .add .r3 .r3 (.imm 4#32),
    .mov .r5 (.imm 0x3ff#32),
    .ands .r5 .r5 (.lsr .r4 3),
    .clz .r6 .r5,
    .mov .r7 (.imm 0x7fff#32),
    .ands .r7 .r7 (.lsr .r4 13),
    -- 2:
    .mov .r8 (.reg .r7),
    -- 3:
    .orr .r9 .r2 (.lslReg .r5 .r6),
    .orr .r9 .r9 (.lslReg .r8 .r3),
    .mcrDccisw .r9,
    .subs .r8 .r8 (.imm 1#32),
    .b .ge 23,
    .subs .r5 .r5 (.imm 1#32),
    .b .ge 22,
    -- skip:
    .add .r2 .r2 (.imm 2#32),
    .cmp .r1 (.reg .r2),
    .b .gt 7,
    -- done:
    .mov .r0 (.imm 0#32),
    .mcrCsselr .r0,
    .barrier,
    .barrier,
    .popR4R9,
    .bxLr]

/-- One step: behind the end of the program nothing happens. -/
def step (hw : Hw) (s : Cpu) : Cpu :=
  match program[s.pc]? with
  | some i => exec hw s i
  | none => s

/-- A call of the program. -/
def Cpu.call (regs : Regs) (flags : Flags) (csselr : BitVec 32) (stack : List Regs) : Cpu :=
  ⟨regs, flags, 0, csselr, stack, []⟩

/-! ### Lines -/

/-- The geometry of a cache by its `CCSIDR`: the logarithm of the length of a line in bytes, and
how many ways and sets there are. -/
structure Geometry where
  lineLog : ℕ
  ways : ℕ
  sets : ℕ

/-- The fields of `CCSIDR`. -/
def Hw.geometry (hw : Hw) (level : ℕ) : Geometry :=
  ⟨(fieldAt (hw.ccsidr level) 0 3).toNat + 4, (fieldAt (hw.ccsidr level) 3 10).toNat + 1,
    (fieldAt (hw.ccsidr level) 13 15).toNat + 1⟩

/-- The level of coherency. -/
def Hw.loc (hw : Hw) : ℕ := (fieldAt hw.clidr 24 3).toNat

/-- There is a data cache or a unified cache at a level: its type is not “none”, which is 0, nor
“instructions only”, which is 1. -/
def Hw.HasData (hw : Hw) (level : ℕ) : Prop := 2 ≤ (fieldAt hw.clidr (3 * level) 3).toNat

/-- The set, the way and the line fit into a word without overlap. -/
def Geometry.Fits (g : Geometry) : Prop :=
  g.lineLog + Nat.clog 2 g.sets + Nat.clog 2 g.ways ≤ 32

/-- A line of a cache. -/
@[ext]
structure Line where
  level : ℕ
  way : ℕ
  set : ℕ
  deriving DecidableEq, Repr

/-- **The lines to be flushed.** -/
def Hw.IsLine (hw : Hw) (l : Line) : Prop :=
  l.level < hw.loc ∧ hw.HasData l.level ∧ l.way < (hw.geometry l.level).ways ∧
    l.set < (hw.geometry l.level).sets

/-- **The operand that names a line**: the way is in the highest bits, as many as there have to
be, the set begins where the bytes of a line end, and the level is in bits 3..1. -/
def Line.operand (hw : Hw) (l : Line) : BitVec 32 :=
  let g := hw.geometry l.level
  BitVec.ofNat 32 (l.way * 2 ^ (32 - Nat.clog 2 g.ways) + l.set * 2 ^ g.lineLog + l.level * 2)

/-- **Every line is flushed once**: the operands are those of the lines, no two lines have the
same operand, and none has been issued twice. -/
structure Flushed (hw : Hw) (ops : List (BitVec 32)) : Prop where
  once : ops.Nodup
  mem_iff : ∀ op, op ∈ ops ↔ ∃ l, hw.IsLine l ∧ l.operand hw = op
  inj : ∀ l m, hw.IsLine l → hw.IsLine m → l.operand hw = m.operand hw → l = m

/-- The fields fit at every level that is flushed. -/
def Hw.Fits (hw : Hw) : Prop := ∀ level < hw.loc, hw.HasData level → (hw.geometry level).Fits

/-! ### Straight pieces of the program -/

section Pieces

variable (hw : Hw) (r : Regs) (fl : Flags) (cs : BitVec 32) (st : List Regs) (ops : List (BitVec 32))

/-- What the body of the innermost loop issues. -/
def setWay (r2 r3 r6 r5 r8 : BitVec 32) : BitVec 32 :=
  r2 ||| r5 <<< (r6.toNat % 256) ||| r8 <<< (r3.toNat % 256)

/-- From the start to the first branch. -/
theorem step_entry : (step hw)^[6] ⟨r, fl, 0, cs, st, ops⟩ =
    ⟨{ r with r0 := hw.clidr, r1 := hw.clidr >>> 23 &&& 14#32 },
      ⟨(hw.clidr >>> 23 &&& 14#32).msb, hw.clidr >>> 23 &&& 14#32 == 0#32, fl.v⟩,
      if hw.clidr >>> 23 &&& 14#32 == 0#32 then 33 else 6, cs, r :: st, ops⟩ := rfl

/-- The first level. -/
theorem step_first : step hw ⟨r, fl, 6, cs, st, ops⟩ =
    ⟨{ r with r2 := 0#32 }, fl, 7, cs, st, ops⟩ := rfl

/-- From label `1` to the branch to `skip`. -/
theorem step_type : (step hw)^[5] ⟨r, fl, 7, cs, st, ops⟩ =
    ⟨{ r with
        r3 := r.r2 + r.r2 >>> 1, r4 := r.r0 >>> ((r.r2 + r.r2 >>> 1).toNat % 256) &&& 7#32 },
      subFlags (r.r0 >>> ((r.r2 + r.r2 >>> 1).toNat % 256) &&& 7#32) 2#32,
      if Cond.lt.holds (subFlags (r.r0 >>> ((r.r2 + r.r2 >>> 1).toNat % 256) &&& 7#32) 2#32)
        then 30 else 12, cs, st, ops⟩ := rfl

/-- From there to the geometry of the level. -/
theorem step_select : (step hw)^[3] ⟨r, fl, 12, cs, st, ops⟩ =
    ⟨{ r with r4 := hw.ccsidr (r.r2.toNat / 2) }, fl, 15, r.r2, st, ops⟩ := rfl

/-- The length of a line, and the ways. -/
theorem step_ways : (step hw)^[4] ⟨r, fl, 15, cs, st, ops⟩ =
    ⟨{ r with r3 := (r.r4 &&& 7#32) + 4#32, r5 := 0x3ff#32 &&& r.r4 >>> 3 },
      ⟨(0x3ff#32 &&& r.r4 >>> 3).msb, 0x3ff#32 &&& r.r4 >>> 3 == 0#32, fl.v⟩, 19, cs, st, ops⟩ :=
  rfl

theorem step_clz : step hw ⟨r, fl, 19, cs, st, ops⟩ =
    ⟨{ r with r6 := clz r.r5 }, fl, 20, cs, st, ops⟩ := rfl

/-- The sets, up to label `2`. -/
theorem step_numSets : (step hw)^[2] ⟨r, fl, 20, cs, st, ops⟩ =
    ⟨{ r with r7 := 0x7fff#32 &&& r.r4 >>> 13 },
      ⟨(0x7fff#32 &&& r.r4 >>> 13).msb, 0x7fff#32 &&& r.r4 >>> 13 == 0#32, fl.v⟩, 22, cs, st,
      ops⟩ := rfl

/-- From label `2` to label `3`. -/
theorem step_sets : step hw ⟨r, fl, 22, cs, st, ops⟩ =
    ⟨{ r with r8 := r.r7 }, fl, 23, cs, st, ops⟩ := rfl

/-- The loop over the sets. -/
theorem step_set : (step hw)^[5] ⟨r, fl, 23, cs, st, ops⟩ =
    ⟨{ r with r8 := r.r8 - 1#32, r9 := setWay r.r2 r.r3 r.r6 r.r5 r.r8 }, subFlags r.r8 1#32,
      if Cond.ge.holds (subFlags r.r8 1#32) then 23 else 28, cs, st,
      ops ++ [setWay r.r2 r.r3 r.r6 r.r5 r.r8]⟩ := rfl

/-- The end of the loop over the ways. -/
theorem step_way : (step hw)^[2] ⟨r, fl, 28, cs, st, ops⟩ =
    ⟨{ r with r5 := r.r5 - 1#32 }, subFlags r.r5 1#32,
      if Cond.ge.holds (subFlags r.r5 1#32) then 22 else 30, cs, st, ops⟩ := rfl

/-- The end of the loop over the levels. -/
theorem step_level : (step hw)^[3] ⟨r, fl, 30, cs, st, ops⟩ =
    ⟨{ r with r2 := r.r2 + 2#32 }, subFlags r.r1 (r.r2 + 2#32),
      if Cond.gt.holds (subFlags r.r1 (r.r2 + 2#32)) then 7 else 33, cs, st, ops⟩ := rfl

/-- From label `done` to the end, with the registers that were pushed. -/
theorem step_done (old : Regs) : (step hw)^[6] ⟨r, fl, 33, cs, old :: st, ops⟩ =
    ⟨{ old with r0 := 0#32, r1 := r.r1, r2 := r.r2, r3 := r.r3 }, fl, returned, 0#32, st, ops⟩ :=
  rfl

end Pieces

/-! ### The conditions -/

theorem msb_ofNat {k : ℕ} (hk : k < 2 ^ 31) : (BitVec.ofNat 32 k).msb = false := by
  rw [BitVec.msb_eq_decide, BitVec.toNat_ofNat, decide_eq_false_iff_not]
  omega

theorem ofNat_succ_sub_one (k : ℕ) :
    BitVec.ofNat 32 (k + 1) - 1#32 = BitVec.ofNat 32 k := by
  apply BitVec.eq_of_toNat_eq
  simp only [BitVec.toNat_sub, BitVec.toNat_ofNat]
  omega

/-- A loop that counts down goes round while its counter is positive. -/
theorem holds_ge_subFlags {k : ℕ} (hk : k < 2 ^ 31) :
    Cond.ge.holds (subFlags (BitVec.ofNat 32 k) 1#32) = decide (0 < k) := by
  cases k with
  | zero => decide
  | succ k =>
    simp [Cond.holds, subFlags, ofNat_succ_sub_one, msb_ofNat hk,
      msb_ofNat (show k < 2 ^ 31 by omega)]

/-- A type below 2 is skipped. -/
theorem holds_lt_subFlags :
    ∀ t < 8, Cond.lt.holds (subFlags (BitVec.ofNat 32 t) 2#32) = decide (t < 2) := by decide

/-- The loop over the levels goes round while there is one below the level of coherency. -/
theorem holds_gt_subFlags : ∀ n < 8, ∀ l < 8,
    Cond.gt.holds (subFlags (BitVec.ofNat 32 (2 * n)) (BitVec.ofNat 32 (2 * l))) =
      decide (l < n) := by decide

/-! ### Counting down -/

/-- The pieces of a list from `k` down to `0`. -/
def down {α : Type*} (f : ℕ → List α) (k : ℕ) : List α := (List.range (k + 1)).reverse.flatMap f

section Down

variable {α β : Type*} {f : ℕ → List α} {k : ℕ}

theorem down_zero : down f 0 = f 0 := by simp [down]

theorem down_succ : down f (k + 1) = f (k + 1) ++ down f k := by
  rw [down, List.range_succ, List.reverse_append]
  rfl

theorem mem_down {x : α} : x ∈ down f k ↔ ∃ i ≤ k, x ∈ f i := by
  simp only [down, List.mem_flatMap, List.mem_reverse, List.mem_range, Nat.lt_succ_iff]

theorem map_down (g : α → β) : (down f k).map g = down (fun i => (f i).map g) k := by
  simp [down, List.map_flatMap]

theorem down_congr {g : ℕ → List α} (h : ∀ i ≤ k, f i = g i) : down f k = down g k :=
  List.flatMap_congr fun i hi => h i (by simpa [Nat.lt_succ_iff] using hi)

theorem nodup_down (hf : ∀ i, (f i).Nodup) (hdisj : ∀ i j, i ≠ j → (f i).Disjoint (f j)) :
    (down f k).Nodup := by
  rw [down, List.nodup_flatMap]
  refine ⟨fun i _ => hf i, ?_⟩
  exact (List.nodup_reverse.mpr List.nodup_range).imp fun hij => hdisj _ _ hij

end Down

/-! ### The loops of a level -/

section Loops

variable {hw : Hw} {b s : Cpu} {total : List (BitVec 32)} {w k n : ℕ}

/-- What the loops over ways and sets do not change, from the state at label `2` on. -/
structure SameLevel (b s : Cpu) : Prop where
  regs : s.regs = { b.regs with r5 := s.regs.r5, r8 := s.regs.r8, r9 := s.regs.r9 }
  csselr : s.csselr = b.csselr
  stack : s.stack = b.stack

/-- They may change their own registers. -/
theorem regs_update {r c : Regs} (h : r = { c with r5 := r.r5, r8 := r.r8, r9 := r.r9 })
    (v5 v8 v9 : BitVec 32) :
    { r with r5 := v5, r8 := v8, r9 := v9 } = { c with r5 := v5, r8 := v8, r9 := v9 } := by
  rw [h]

/-- What is issued for a way and a set, with the registers of a level. -/
def Cpu.issued (b : Cpu) (w k : ℕ) : BitVec 32 :=
  setWay b.regs.r2 b.regs.r3 b.regs.r6 (BitVec.ofNat 32 w) (BitVec.ofNat 32 k)

/-- **At label `3`**, with the sets from `k` down still to come: what has been issued and what
will be make `total`. -/
structure AtSet (b : Cpu) (total : List (BitVec 32)) (w k : ℕ) (s : Cpu) : Prop where
  pc : s.pc = 23
  same : SameLevel b s
  r5 : s.regs.r5 = BitVec.ofNat 32 w
  r8 : s.regs.r8 = BitVec.ofNat 32 k
  k_lt : k < 2 ^ 31
  ops : s.ops ++ down (fun i => [b.issued w i]) k = total

/-- Behind the loop over the sets. -/
structure BehindSets (b : Cpu) (total : List (BitVec 32)) (w : ℕ) (s : Cpu) : Prop where
  pc : s.pc = 28
  same : SameLevel b s
  r5 : s.regs.r5 = BitVec.ofNat 32 w
  ops : s.ops = total

/-- The registers of the body are those of the level. -/
theorem AtSet.setWay_eq (h : AtSet b total w k s) :
    setWay s.regs.r2 s.regs.r3 s.regs.r6 s.regs.r5 s.regs.r8 = b.issued w k := by
  rw [h.r5, h.r8, h.same.regs]
  rfl

theorem atSet_round (h : AtSet b total w (k + 1) s) : GetsTo (step hw) s (AtSet b total w k) := by
  have hissued := h.setWay_eq
  obtain ⟨r, fl, pc, cs, st, ops⟩ := s
  obtain ⟨rfl, ⟨hregs, hcs, hst⟩, h5, h8, hk, hops⟩ := h
  dsimp only at hregs hcs hst h5 h8 hops hissued
  refine ⟨5, ?_⟩
  rw [step_set, hissued, h8, holds_ge_subFlags hk, if_pos (by simp), ofNat_succ_sub_one]
  refine ⟨rfl, ⟨regs_update hregs _ _ _, hcs, hst⟩, h5, rfl, by omega, ?_⟩
  rw [← hops, down_succ]
  simp

theorem atSet_end (h : AtSet b total w 0 s) : GetsTo (step hw) s (BehindSets b total w) := by
  have hissued := h.setWay_eq
  obtain ⟨r, fl, pc, cs, st, ops⟩ := s
  obtain ⟨rfl, ⟨hregs, hcs, hst⟩, h5, h8, hk, hops⟩ := h
  dsimp only at hregs hcs hst h5 h8 hops hissued
  refine ⟨5, ?_⟩
  rw [step_set, hissued, h8, holds_ge_subFlags hk, if_neg (by simp)]
  refine ⟨rfl, ⟨regs_update hregs _ _ _, hcs, hst⟩, h5, ?_⟩
  rw [← hops, down_zero]

/-- **The loop over the sets.** -/
theorem atSet_loop (h : AtSet b total w k s) : GetsTo (step hw) s (BehindSets b total w) :=
  (GetsTo.countdown (fun _ _ => atSet_round) h).trans fun _ ht => atSet_end ht

/-- **At label `2`**, with the ways from `w` down still to come, of `n + 1` sets each. -/
structure AtWay (b : Cpu) (total : List (BitVec 32)) (n w : ℕ) (s : Cpu) : Prop where
  pc : s.pc = 22
  same : SameLevel b s
  r5 : s.regs.r5 = BitVec.ofNat 32 w
  r7 : b.regs.r7 = BitVec.ofNat 32 n
  w_lt : w < 2 ^ 31
  n_lt : n < 2 ^ 31
  ops : s.ops ++ down (fun i => down (fun j => [b.issued i j]) n) w = total

/-- The way that is first in the list is flushed. -/
theorem AtWay.sets {rest : List (BitVec 32)} (h : AtWay b total n w s)
    (hops : s.ops ++ down (fun j => [b.issued w j]) n = rest) :
    GetsTo (step hw) s (BehindSets b rest w) := by
  obtain ⟨r, fl, pc, cs, st, ops⟩ := s
  obtain ⟨rfl, ⟨hregs, hcs, hst⟩, h5, h7, -, hn, -⟩ := h
  dsimp only at hregs hcs hst h5 hops
  refine GetsTo.trans (P := AtSet b rest w n) ⟨1, ?_⟩ fun t ht => atSet_loop ht
  rw [Function.iterate_one, step_sets]
  refine ⟨rfl, ⟨regs_update hregs _ _ _, hcs, hst⟩, h5, ?_, hn, hops⟩
  rw [hregs]
  exact h7

/-- Behind the loop over the ways. -/
structure BehindWays (b : Cpu) (total : List (BitVec 32)) (s : Cpu) : Prop where
  pc : s.pc = 30
  same : SameLevel b s
  ops : s.ops = total

theorem atWay_round (h : AtWay b total n (w + 1) s) : GetsTo (step hw) s (AtWay b total n w) := by
  refine GetsTo.trans (h.sets rfl) fun t ht => ?_
  have hops : t.ops ++ down (fun i => down (fun j => [b.issued i j]) n) w = total := by
    have htotal := h.ops
    rw [down_succ] at htotal
    rw [ht.ops, List.append_assoc]
    exact htotal
  obtain ⟨r, fl, pc, cs, st, ops⟩ := t
  obtain ⟨rfl, ⟨hregs, hcs, hst⟩, h5, -⟩ := ht
  dsimp only at hregs hcs hst h5 hops
  refine ⟨2, ?_⟩
  rw [step_way, h5, holds_ge_subFlags h.w_lt, if_pos (by simp), ofNat_succ_sub_one]
  have hlt := h.w_lt
  exact ⟨rfl, ⟨regs_update hregs _ _ _, hcs, hst⟩, rfl, h.r7, by omega, h.n_lt, hops⟩

theorem atWay_end (h : AtWay b total n 0 s) : GetsTo (step hw) s (BehindWays b total) := by
  refine GetsTo.trans (h.sets rfl) fun t ht => ?_
  have hops : t.ops = total := by
    rw [ht.ops, ← h.ops, down_zero]
  obtain ⟨r, fl, pc, cs, st, ops⟩ := t
  obtain ⟨rfl, ⟨hregs, hcs, hst⟩, h5, -⟩ := ht
  dsimp only at hregs hcs hst h5 hops
  refine ⟨2, ?_⟩
  rw [step_way, h5, holds_ge_subFlags h.w_lt, if_neg (by simp)]
  exact ⟨rfl, ⟨regs_update hregs _ _ _, hcs, hst⟩, hops⟩

/-- **The loop over the ways.** -/
theorem atWay_loop (h : AtWay b total n w s) : GetsTo (step hw) s (BehindWays b total) :=
  (GetsTo.countdown (fun _ _ => atWay_round) h).trans fun _ ht => atWay_end ht

end Loops

/-! ### The operand of a line -/

/-- The bits of a field, masked out. -/
theorem ushiftRight_and (x : BitVec 32) (s k : ℕ) (hk : k < 32) :
    x >>> s &&& BitVec.ofNat 32 (2 ^ k - 1) = BitVec.ofNat 32 (fieldAt x s k).toNat := by
  have hpow : 2 ^ k < 2 ^ 32 := Nat.pow_lt_pow_right (by omega) hk
  have hlt : x.toNat >>> s % 2 ^ k < 2 ^ k := Nat.mod_lt _ (Nat.two_pow_pos k)
  apply BitVec.eq_of_toNat_eq
  rw [BitVec.toNat_and, BitVec.toNat_ushiftRight, BitVec.toNat_ofNat, BitVec.toNat_ofNat, fieldAt,
    BitVec.extractLsb'_toNat, Nat.mod_eq_of_lt (show 2 ^ k - 1 < 2 ^ 32 by omega),
    Nat.and_two_pow_sub_one_eq_mod, Nat.mod_eq_of_lt (lt_trans hlt hpow)]

/-- The leading zeros of the highest way number are what the way is shifted by. -/
theorem size_eq_clog (a : ℕ) : a.size = Nat.clog 2 (a + 1) := by
  apply le_antisymm
  · rw [Nat.size_le]
    have := Nat.le_pow_clog (b := 2) (by omega) (a + 1)
    omega
  · refine Nat.clog_le_of_le_pow ?_
    have := Nat.lt_size_self a
    omega

theorem toNat_clz {a : ℕ} (ha : a < 2 ^ 32) :
    (clz (BitVec.ofNat 32 a)).toNat = 32 - Nat.clog 2 (a + 1) := by
  rw [clz, BitVec.toNat_ofNat, BitVec.toNat_ofNat, Nat.mod_eq_of_lt ha, size_eq_clog,
    Nat.mod_eq_of_lt (by omega)]

/-- The fields of an operand and their bounds. -/
structure Fields (L sets ways l w k : ℕ) : Prop where
  line : 4 ≤ L
  level : l < 8
  way : w < ways
  set : k < sets
  fits : L + Nat.clog 2 sets + Nat.clog 2 ways ≤ 32

section Fields

variable {L sets ways l w k : ℕ}

theorem Fields.low_lt (h : Fields L sets ways l w k) : 2 * l < 2 ^ L := by
  have := h.level
  exact lt_of_lt_of_le (by omega) (Nat.pow_le_pow_right (by omega : 0 < 2) h.line)

/-- The set and the level stay below the way. -/
theorem Fields.mid_lt (h : Fields L sets ways l w k) :
    2 ^ L * k + 2 * l < 2 ^ (32 - Nat.clog 2 ways) := by
  have hfits := h.fits
  have hlow := h.low_lt
  have hk : k + 1 ≤ 2 ^ Nat.clog 2 sets := le_trans h.set (Nat.le_pow_clog (by omega) sets)
  calc
    2 ^ L * k + 2 * l < 2 ^ L * (k + 1) := by
      rw [Nat.mul_succ]
      omega
    _ ≤ 2 ^ L * 2 ^ Nat.clog 2 sets := Nat.mul_le_mul_left _ hk
    _ = 2 ^ (L + Nat.clog 2 sets) := (Nat.pow_add 2 L _).symm
    _ ≤ 2 ^ (32 - Nat.clog 2 ways) := Nat.pow_le_pow_right (by omega) (by omega)

/-- The whole stays below the word. -/
theorem Fields.high_lt (h : Fields L sets ways l w k) :
    2 ^ (32 - Nat.clog 2 ways) * w + (2 ^ L * k + 2 * l) < 2 ^ 32 := by
  have hfits := h.fits
  have hmid := h.mid_lt
  have hw : w + 1 ≤ 2 ^ Nat.clog 2 ways := le_trans h.way (Nat.le_pow_clog (by omega) ways)
  calc
    2 ^ (32 - Nat.clog 2 ways) * w + (2 ^ L * k + 2 * l)
        < 2 ^ (32 - Nat.clog 2 ways) * (w + 1) := by
      rw [Nat.mul_succ]
      omega
    _ ≤ 2 ^ (32 - Nat.clog 2 ways) * 2 ^ Nat.clog 2 ways := Nat.mul_le_mul_left _ hw
    _ = 2 ^ 32 := by
      rw [← Nat.pow_add, Nat.sub_add_cancel (by omega)]

/-- A number below one whose logarithm fits into a word. -/
theorem lt_word_of_clog {i n : ℕ} (hi : i < n) (hn : Nat.clog 2 n ≤ 32) : i < 2 ^ 32 :=
  calc
    i < n := hi
    _ ≤ 2 ^ Nat.clog 2 n := Nat.le_pow_clog (by omega) n
    _ ≤ 2 ^ 32 := Nat.pow_le_pow_right (by omega) hn

/-- **The operand that is issued is that of the line**, where the fields fit. -/
theorem setWay_eq_operand (h : Fields L sets ways l w k) (hways : ways ≤ 2 ^ 10) :
    setWay (BitVec.ofNat 32 (2 * l)) (BitVec.ofNat 32 L) (clz (BitVec.ofNat 32 (ways - 1)))
        (BitVec.ofNat 32 w) (BitVec.ofNat 32 k) =
      BitVec.ofNat 32 (w * 2 ^ (32 - Nat.clog 2 ways) + k * 2 ^ L + l * 2) := by
  obtain ⟨hL, hl, hw, hk, hfits⟩ := id h
  have hclz : (clz (BitVec.ofNat 32 (ways - 1))).toNat % 256 = 32 - Nat.clog 2 ways := by
    rw [toNat_clz (by omega), Nat.sub_add_cancel (by omega), Nat.mod_eq_of_lt (by omega)]
  have hLmod : (BitVec.ofNat 32 L).toNat % 256 = L := by
    rw [BitVec.toNat_ofNat]
    omega
  have hhigh := h.high_lt
  apply BitVec.eq_of_toNat_eq
  rw [setWay, hclz, hLmod, BitVec.toNat_or, BitVec.toNat_or, BitVec.toNat_shiftLeft,
    BitVec.toNat_shiftLeft, BitVec.toNat_ofNat, BitVec.toNat_ofNat, BitVec.toNat_ofNat,
    BitVec.toNat_ofNat, Nat.shiftLeft_eq, Nat.shiftLeft_eq,
    Nat.mod_eq_of_lt (lt_word_of_clog hw (by omega)),
    Nat.mod_eq_of_lt (lt_word_of_clog hk (by omega)),
    Nat.mod_eq_of_lt (by omega : 2 * l < 2 ^ 32), Nat.mul_comm w, Nat.mul_comm k, Nat.mul_comm l,
    Nat.mod_eq_of_lt (by omega : 2 ^ (32 - Nat.clog 2 ways) * w < 2 ^ 32),
    Nat.mod_eq_of_lt (by omega : 2 ^ L * k < 2 ^ 32), Nat.add_assoc, Nat.mod_eq_of_lt hhigh]
  -- the fields do not overlap, so that the or is a sum
  rw [Nat.or_comm (2 * l), Nat.or_assoc, Nat.or_comm (2 * l),
    ← Nat.two_pow_add_eq_or_of_lt h.low_lt, ← Nat.two_pow_add_eq_or_of_lt h.mid_lt]

end Fields

section Operand

variable {hw : Hw} {l m : Line}

theorem loc_lt (hw : Hw) : hw.loc < 8 := (fieldAt hw.clidr 24 3).isLt

/-- The fields of a line fit. -/
theorem Hw.Fits.fields (hfits : hw.Fits) (hl : hw.IsLine l) :
    Fields (hw.geometry l.level).lineLog (hw.geometry l.level).sets (hw.geometry l.level).ways
      l.level l.way l.set :=
  ⟨Nat.le_add_left _ _, lt_trans hl.1 (loc_lt hw), hl.2.2.1, hl.2.2.2, hfits _ hl.1 hl.2.1⟩

theorem Hw.Fits.toNat_operand (hfits : hw.Fits) (hl : hw.IsLine l) :
    (l.operand hw).toNat = 2 ^ (32 - Nat.clog 2 (hw.geometry l.level).ways) * l.way +
      (2 ^ (hw.geometry l.level).lineLog * l.set + 2 * l.level) := by
  have hhigh := (hfits.fields hl).high_lt
  rw [Line.operand, BitVec.toNat_ofNat, Nat.mul_comm l.way, Nat.mul_comm l.set,
    Nat.mul_comm l.level, Nat.add_assoc, Nat.mod_eq_of_lt hhigh]

/-- The level is in bits 3..1. -/
theorem Hw.Fits.operand_mod (hfits : hw.Fits) (hl : hw.IsLine l) :
    (l.operand hw).toNat % 2 ^ 4 = 2 * l.level := by
  have hf := hfits.fields hl
  have hlevel := hf.level
  have hway : 2 ^ 4 ∣ 2 ^ (32 - Nat.clog 2 (hw.geometry l.level).ways) * l.way := by
    refine Nat.dvd_mul_right_of_dvd (Nat.pow_dvd_pow 2 ?_) _
    have := hf.line
    have := hf.fits
    omega
  have hset : 2 ^ 4 ∣ 2 ^ (hw.geometry l.level).lineLog * l.set :=
    Nat.dvd_mul_right_of_dvd (Nat.pow_dvd_pow 2 hf.line) _
  rw [hfits.toNat_operand hl]
  omega

/-- The way is above the set. -/
theorem Hw.Fits.operand_div (hfits : hw.Fits) (hl : hw.IsLine l) :
    (l.operand hw).toNat / 2 ^ (32 - Nat.clog 2 (hw.geometry l.level).ways) = l.way := by
  rw [hfits.toNat_operand hl, Nat.mul_add_div (Nat.two_pow_pos _),
    Nat.div_eq_of_lt (hfits.fields hl).mid_lt, Nat.add_zero]

/-- **No two lines have the same operand.** -/
theorem Hw.Fits.operand_inj (hfits : hw.Fits) (hl : hw.IsLine l) (hm : hw.IsLine m)
    (h : l.operand hw = m.operand hw) : l = m := by
  have hlevel : l.level = m.level := by
    have hlmod := hfits.operand_mod hl
    have hmmod := hfits.operand_mod hm
    rw [h] at hlmod
    omega
  have hway : l.way = m.way := by
    rw [← hfits.operand_div hl, ← hfits.operand_div hm, h, hlevel]
  have hset : l.set = m.set := by
    have heq := congrArg BitVec.toNat h
    rw [hfits.toNat_operand hl, hfits.toNat_operand hm, hlevel, hway] at heq
    have hmul : 2 ^ (hw.geometry m.level).lineLog * l.set =
        2 ^ (hw.geometry m.level).lineLog * m.set := by omega
    exact Nat.eq_of_mul_eq_mul_left (Nat.two_pow_pos _) hmul
  exact Line.ext hlevel hway hset

end Operand

/-! ### The loop over the levels -/

section Levels

variable {hw : Hw} {s : Cpu} {old : Regs} {st : List Regs} {total : List (BitVec 32)} {n : ℕ}

instance (hw : Hw) (level : ℕ) : Decidable (hw.HasData level) :=
  inferInstanceAs (Decidable (2 ≤ _))

/-- The lines of a level, in the order in which they are flushed. -/
def levelLines (hw : Hw) (l : ℕ) : List Line :=
  if hw.HasData l then
    down (fun w => down (fun k => [⟨l, w, k⟩]) ((hw.geometry l).sets - 1)) ((hw.geometry l).ways - 1)
  else []

/-- The lines from a level on. -/
def linesFrom (hw : Hw) (l n : ℕ) : List Line := (List.range' l n).flatMap (levelLines hw)

theorem linesFrom_succ (hw : Hw) (l n : ℕ) :
    linesFrom hw l (n + 1) = levelLines hw l ++ linesFrom hw (l + 1) n := by
  rw [linesFrom, List.range'_succ]
  rfl

/-- **With `n` levels still to come**: at label `1`, or at `done` if there is none. -/
structure AtLevel (hw : Hw) (old : Regs) (st : List Regs) (total : List (BitVec 32)) (n : ℕ)
    (s : Cpu) : Prop where
  pc : s.pc = if n = 0 then 33 else 7
  r0 : s.regs.r0 = hw.clidr
  r1 : s.regs.r1 = BitVec.ofNat 32 (2 * hw.loc)
  r2 : s.regs.r2 = BitVec.ofNat 32 (2 * (hw.loc - n))
  n_le : n ≤ hw.loc
  stack : s.stack = old :: st
  ops : s.ops ++ (linesFrom hw (hw.loc - n) n).map (Line.operand hw) = total

/-- At `skip`, with `n` levels still to come behind this one. -/
structure AtSkip (hw : Hw) (old : Regs) (st : List Regs) (total : List (BitVec 32)) (n : ℕ)
    (s : Cpu) : Prop where
  pc : s.pc = 30
  r0 : s.regs.r0 = hw.clidr
  r1 : s.regs.r1 = BitVec.ofNat 32 (2 * hw.loc)
  r2 : s.regs.r2 = BitVec.ofNat 32 (2 * (hw.loc - (n + 1)))
  n_lt : n < hw.loc
  stack : s.stack = old :: st
  ops : s.ops ++ (linesFrom hw (hw.loc - n) n).map (Line.operand hw) = total

theorem atSkip_level (h : AtSkip hw old st total n s) :
    GetsTo (step hw) s (AtLevel hw old st total n) := by
  have hloc := loc_lt hw
  obtain ⟨r, fl, pc, cs, stk, ops⟩ := s
  obtain ⟨rfl, h0, h1, h2, hn, hst, hops⟩ := h
  dsimp only at h0 h1 h2 hst hops
  have hnext : r.r2 + 2#32 = BitVec.ofNat 32 (2 * (hw.loc - n)) := by
    apply BitVec.eq_of_toNat_eq
    rw [h2, BitVec.toNat_add]
    simp only [BitVec.toNat_ofNat]
    omega
  refine ⟨3, ?_⟩
  rw [step_level, hnext, h1, holds_gt_subFlags _ hloc _ (by omega)]
  refine ⟨?_, h0, rfl, rfl, by omega, hst, hops⟩
  -- the loop goes round while there is a level left
  rcases Nat.eq_zero_or_pos n with rfl | hpos
  · simp
  · rw [if_pos (by simp; omega), if_neg (by omega)]

/-- What label `1` finds out: the type of the level. -/
theorem step_type_eq {r : Regs} {l : ℕ} (hl : l < 7) (h0 : r.r0 = hw.clidr)
    (h2 : r.r2 = BitVec.ofNat 32 (2 * l)) :
    Cond.lt.holds (subFlags (r.r0 >>> ((r.r2 + r.r2 >>> 1).toNat % 256) &&& 7#32) 2#32) =
      !decide (hw.HasData l) := by
  have hthree : ∀ l < 7, BitVec.ofNat 32 (2 * l) + BitVec.ofNat 32 (2 * l) >>> 1 =
      BitVec.ofNat 32 (3 * l) := by decide
  have hmod : (BitVec.ofNat 32 (3 * l)).toNat % 256 = 3 * l := by
    rw [BitVec.toNat_ofNat]
    omega
  have hfield : hw.clidr >>> (3 * l) &&& 7#32 =
      BitVec.ofNat 32 (fieldAt hw.clidr (3 * l) 3).toNat := ushiftRight_and _ _ 3 (by omega)
  rw [h0, h2, hthree l hl, hmod, hfield, holds_lt_subFlags _ (fieldAt hw.clidr (3 * l) 3).isLt,
    ← decide_not]
  exact decide_eq_decide.mpr Nat.not_le.symm

/-- The geometry as the program reads it. -/
theorem geometry_regs (hw : Hw) (l : ℕ) :
    (hw.ccsidr l &&& 7#32) + 4#32 = BitVec.ofNat 32 (hw.geometry l).lineLog ∧
      0x3ff#32 &&& hw.ccsidr l >>> 3 = BitVec.ofNat 32 ((hw.geometry l).ways - 1) ∧
      0x7fff#32 &&& hw.ccsidr l >>> 13 = BitVec.ofNat 32 ((hw.geometry l).sets - 1) := by
  refine ⟨?_, ?_, ?_⟩
  · have hfield := ushiftRight_and (hw.ccsidr l) 0 3 (by omega)
    rw [BitVec.ushiftRight_zero] at hfield
    exact (congrArg (· + 4#32) hfield).trans (BitVec.ofNat_add _ _).symm
  · rw [BitVec.and_comm]
    exact ushiftRight_and (hw.ccsidr l) 3 10 (by omega)
  · rw [BitVec.and_comm]
    exact ushiftRight_and (hw.ccsidr l) 13 15 (by omega)

theorem geometry_le (hw : Hw) (l : ℕ) :
    0 < (hw.geometry l).ways ∧ (hw.geometry l).ways ≤ 2 ^ 10 ∧
      0 < (hw.geometry l).sets ∧ (hw.geometry l).sets ≤ 2 ^ 15 :=
  ⟨Nat.succ_pos _, (fieldAt (hw.ccsidr l) 3 10).isLt, Nat.succ_pos _,
    (fieldAt (hw.ccsidr l) 13 15).isLt⟩

/-- The registers of a level at label `2`, which its lines are issued with. -/
theorem issued_eq_operand (hfits : hw.Fits) {b : Cpu} {l : Line} (hl : hw.IsLine l)
    (h2 : b.regs.r2 = BitVec.ofNat 32 (2 * l.level))
    (h3 : b.regs.r3 = BitVec.ofNat 32 (hw.geometry l.level).lineLog)
    (h6 : b.regs.r6 = clz (BitVec.ofNat 32 ((hw.geometry l.level).ways - 1))) :
    b.issued l.way l.set = l.operand hw := by
  rw [Cpu.issued, h2, h3, h6]
  exact setWay_eq_operand (hfits.fields hl) (geometry_le hw l.level).2.1

/-- From label `1` to label `2` at a level with a cache. -/
theorem step_geometry {r : Regs} {fl : Flags} {cs : BitVec 32} {stk : List Regs}
    {ops : List (BitVec 32)} {l : ℕ} (hl : l < 7) (h2 : r.r2 = BitVec.ofNat 32 (2 * l)) :
    GetsTo (step hw) ⟨r, fl, 12, cs, stk, ops⟩ (fun b => b.pc = 22 ∧
      b.regs.r0 = r.r0 ∧ b.regs.r1 = r.r1 ∧ b.regs.r2 = r.r2 ∧
      b.regs.r3 = BitVec.ofNat 32 (hw.geometry l).lineLog ∧
      b.regs.r5 = BitVec.ofNat 32 ((hw.geometry l).ways - 1) ∧
      b.regs.r6 = clz (BitVec.ofNat 32 ((hw.geometry l).ways - 1)) ∧
      b.regs.r7 = BitVec.ofNat 32 ((hw.geometry l).sets - 1) ∧ b.stack = stk ∧ b.ops = ops) := by
  obtain ⟨hline, hways, hsets⟩ := geometry_regs hw l
  have hlevel : r.r2.toNat / 2 = l := by
    rw [h2, BitVec.toNat_ofNat]
    omega
  refine .of_iterate (step_select hw r fl cs stk ops) ?_
  refine .of_iterate (step_ways hw _ _ _ _ _) ?_
  refine .of_iterate (n := 1) (step_clz hw _ _ _ _ _) ?_
  refine .of_iterate (step_numSets hw _ _ _ _ _) (.of_now ?_)
  rw [hlevel, hline, hways, hsets]
  exact ⟨rfl, rfl, rfl, rfl, rfl, rfl, rfl, rfl, rfl, rfl⟩

/-- The operands of the lines of a level, as its loops issue them. -/
theorem map_levelLines (hfits : hw.Fits) {b : Cpu} {l : ℕ} (hl : l < hw.loc)
    (hdata : hw.HasData l) (h2 : b.regs.r2 = BitVec.ofNat 32 (2 * l))
    (h3 : b.regs.r3 = BitVec.ofNat 32 (hw.geometry l).lineLog)
    (h6 : b.regs.r6 = clz (BitVec.ofNat 32 ((hw.geometry l).ways - 1))) :
    (levelLines hw l).map (Line.operand hw) =
      down (fun i => down (fun j => [b.issued i j]) ((hw.geometry l).sets - 1))
        ((hw.geometry l).ways - 1) := by
  obtain ⟨hways, -, hsets, -⟩ := geometry_le hw l
  rw [levelLines, if_pos hdata, map_down]
  refine down_congr fun i hi => ?_
  rw [map_down]
  refine down_congr fun j hj => ?_
  have hline : hw.IsLine ⟨l, i, j⟩ :=
    ⟨hl, hdata, show i < (hw.geometry l).ways by omega, show j < (hw.geometry l).sets by omega⟩
  exact congrArg (fun op => [op]) (issued_eq_operand hfits hline h2 h3 h6).symm

/-- **A round of the loop over the levels.** -/
theorem atLevel_round (hfits : hw.Fits) (h : AtLevel hw old st total (n + 1) s) :
    GetsTo (step hw) s (AtLevel hw old st total n) := by
  have hloc := loc_lt hw
  obtain ⟨r, fl, pc, cs, stk, ops⟩ := s
  obtain ⟨hpc, h0, h1, h2, hn, hst, hops⟩ := h
  dsimp only at hpc h0 h1 h2 hst hops
  rw [if_neg (by omega)] at hpc
  subst hpc
  have hl : hw.loc - (n + 1) < 7 := by omega
  have hnext : hw.loc - (n + 1) + 1 = hw.loc - n := by omega
  rw [linesFrom_succ, hnext, List.map_append, ← List.append_assoc] at hops
  refine .of_iterate (step_type hw r fl cs stk ops) ?_
  rw [step_type_eq hl h0 h2]
  by_cases hdata : hw.HasData (hw.loc - (n + 1))
  case neg =>
    rw [levelLines, if_neg hdata, List.map_nil, List.append_nil] at hops
    exact atSkip_level ⟨by simp [hdata], h0, h1, h2, by omega, hst, hops⟩
  case pos =>
    rw [if_neg (by simp [hdata])]
    refine GetsTo.trans (step_geometry hl (by exact h2)) fun b hb => ?_
    obtain ⟨hbpc, hb0, hb1, hb2, hb3, hb5, hb6, hb7, hbst, hbops⟩ := hb
    dsimp only at hb0 hb1 hb2
    obtain ⟨-, hways, -, hsets⟩ := geometry_le hw (hw.loc - (n + 1))
    rw [map_levelLines hfits (by omega) hdata (hb2.trans h2) hb3 hb6, ← hbops] at hops
    have hat : AtWay b _ ((hw.geometry (hw.loc - (n + 1))).sets - 1)
        ((hw.geometry (hw.loc - (n + 1))).ways - 1) b :=
      ⟨hbpc, ⟨rfl, rfl, rfl⟩, hb5, hb7, by omega, by omega, rfl⟩
    refine (atWay_loop hat).trans fun t ht => atSkip_level ?_
    obtain ⟨htpc, ⟨htregs, -, htst⟩, htops⟩ := ht
    rw [← htops] at hops
    exact ⟨htpc, by rw [htregs]; exact hb0.trans h0, by rw [htregs]; exact hb1.trans h1,
      by rw [htregs]; exact hb2.trans h2, by omega, (htst.trans hbst).trans hst, hops⟩

/-- The mask of the program leaves twice the level of coherency. -/
theorem clidr_and (hw : Hw) : hw.clidr >>> 23 &&& 14#32 = BitVec.ofNat 32 (2 * hw.loc) := by
  have hfour := ushiftRight_and hw.clidr 23 4 (by omega)
  have hmask : ∀ t < 16, BitVec.ofNat 32 t &&& 14#32 = BitVec.ofNat 32 (2 * (t / 2)) := by decide
  have hhalf : (fieldAt hw.clidr 23 4).toNat / 2 = hw.loc := by
    simp only [Hw.loc, fieldAt, BitVec.extractLsb'_toNat, Nat.shiftRight_eq_div_pow]
    omega
  calc
    hw.clidr >>> 23 &&& 14#32 = hw.clidr >>> 23 &&& 15#32 &&& 14#32 :=
      (BitVec.and_assoc _ 15#32 14#32).symm
    _ = BitVec.ofNat 32 (fieldAt hw.clidr 23 4).toNat &&& 14#32 := congrArg (· &&& 14#32) hfour
    _ = BitVec.ofNat 32 (2 * hw.loc) := by
      rw [hmask _ (fieldAt hw.clidr 23 4).isLt, hhalf]

/-- The loop is entered, or passed by if nothing is below the level of coherency. -/
theorem call_atLevel (regs : Regs) (flags : Flags) (csselr : BitVec 32) (stack : List Regs) :
    GetsTo (step hw) (Cpu.call regs flags csselr stack) (fun t => t.pc = 33 ∧ hw.loc = 0 ∧
        t.stack = regs :: stack ∧ t.ops = [] ∨
      AtLevel hw regs stack ((linesFrom hw 0 hw.loc).map (Line.operand hw)) hw.loc t) := by
  have hzero : ∀ n < 8, (BitVec.ofNat 32 (2 * n) == 0#32) = decide (n = 0) := by decide
  refine .of_iterate (step_entry hw regs flags csselr stack []) ?_
  rw [clidr_and, hzero _ (loc_lt hw)]
  by_cases h : hw.loc = 0
  case pos =>
    exact .of_now (.inl ⟨by simp [h], h, rfl, rfl⟩)
  case neg =>
    rw [if_neg (by simpa using h)]
    refine .of_iterate (n := 1) (step_first hw _ _ _ _ _) (.of_now (.inr ?_))
    exact ⟨(if_neg h).symm, rfl, rfl, by simp, le_rfl, rfl, by simp⟩

/-- **What is issued**: the operands of the lines, level by level. -/
theorem call_returned (hfits : hw.Fits) (regs : Regs) (flags : Flags) (csselr : BitVec 32)
    (stack : List Regs) :
    GetsTo (step hw) (Cpu.call regs flags csselr stack) (fun t => t.pc = returned ∧
      t.stack = stack ∧ t.ops = (linesFrom hw 0 hw.loc).map (Line.operand hw)) := by
  have hdone : ∀ t : Cpu, t.pc = 33 → t.stack = regs :: stack →
      t.ops = (linesFrom hw 0 hw.loc).map (Line.operand hw) →
      GetsTo (step hw) t (fun t => t.pc = returned ∧ t.stack = stack ∧
        t.ops = (linesFrom hw 0 hw.loc).map (Line.operand hw)) := by
    rintro ⟨r, fl, pc, cs, stk, ops⟩ hpc hst hops
    dsimp only at hpc hst hops
    subst hpc hst hops
    exact .of_iterate (step_done hw r fl cs stack _ regs) (.of_now ⟨rfl, rfl, rfl⟩)
  refine (call_atLevel regs flags csselr stack).trans fun t ht => ?_
  rcases ht with ⟨hpc, hloc, hst, hops⟩ | ht
  · exact hdone t hpc hst (by rw [hops, hloc]; rfl)
  · refine (GetsTo.countdown (fun _ _ => atLevel_round hfits) ht).trans fun u hu => ?_
    refine hdone u hu.pc hu.stack ?_
    have hops := hu.ops
    rwa [linesFrom, List.range'_zero, List.flatMap_nil, List.map_nil, List.append_nil] at hops

/-! ### The lines -/

theorem mem_levelLines {m : Line} {l : ℕ} : m ∈ levelLines hw l ↔
    m.level = l ∧ hw.HasData l ∧ m.way < (hw.geometry l).ways ∧ m.set < (hw.geometry l).sets := by
  obtain ⟨hways, -, hsets, -⟩ := geometry_le hw l
  rw [levelLines]
  split
  case isTrue hdata =>
    simp only [mem_down, List.mem_singleton]
    constructor
    · rintro ⟨i, hi, j, hj, rfl⟩
      exact ⟨rfl, hdata, show i < _ by omega, show j < _ by omega⟩
    · rintro ⟨rfl, -, hw', hs'⟩
      exact ⟨m.way, by omega, m.set, by omega, rfl⟩
  case isFalse hdata =>
    simp [hdata]

/-- The list has every line, … -/
theorem mem_linesFrom {m : Line} : m ∈ linesFrom hw 0 hw.loc ↔ hw.IsLine m := by
  rw [linesFrom, List.mem_flatMap]
  constructor
  · rintro ⟨l, hl, hm⟩
    obtain ⟨rfl, hm⟩ := mem_levelLines.mp hm
    rw [List.mem_range'_1] at hl
    exact ⟨by omega, hm⟩
  · rintro ⟨hl, hm⟩
    exact ⟨m.level, List.mem_range'_1.mpr ⟨Nat.zero_le _, by omega⟩, mem_levelLines.mpr ⟨rfl, hm⟩⟩

/-- … and each once. -/
theorem nodup_linesFrom (hw : Hw) : (linesFrom hw 0 hw.loc).Nodup := by
  rw [linesFrom, List.nodup_flatMap]
  constructor
  · intro l _
    rw [levelLines]
    split
    · refine nodup_down (fun i => nodup_down (fun j => List.nodup_singleton _) ?_) ?_
      · intro j j' hne m hm hm'
        simp_all
      · intro i i' hne m hm hm'
        simp only [mem_down, List.mem_singleton] at hm hm'
        obtain ⟨j, -, rfl⟩ := hm
        obtain ⟨j', -, heq⟩ := hm'
        exact hne (congrArg Line.way heq)
    · exact List.nodup_nil
  · refine List.Pairwise.imp ?_ (List.nodup_range' (s := 0) (n := hw.loc))
    intro l l' hne m hm hm'
    refine hne ?_
    exact (mem_levelLines.mp hm).1.symm.trans (mem_levelLines.mp hm').1

/-- **Every line is flushed once**, where the fields fit: the program ends, and what it has
issued are the operands of the lines. -/
theorem flushed_of_fits (hfits : hw.Fits) (regs : Regs) (flags : Flags) (csselr : BitVec 32)
    (stack : List Regs) :
    GetsTo (step hw) (Cpu.call regs flags csselr stack)
      (fun t => t.pc = returned ∧ Flushed hw t.ops) := by
  refine (call_returned hfits regs flags csselr stack).trans fun t ht => .of_now ?_
  obtain ⟨hpc, -, hops⟩ := ht
  have hinj : ∀ l m, hw.IsLine l → hw.IsLine m → l.operand hw = m.operand hw → l = m :=
    fun l m hl hm => hfits.operand_inj hl hm
  refine ⟨hpc, ?_, fun op => ?_, hinj⟩
  · rw [hops]
    exact (nodup_linesFrom hw).map_on fun l hl m hm =>
      hinj l m (mem_linesFrom.mp hl) (mem_linesFrom.mp hm)
  · rw [hops, List.mem_map]
    exact exists_congr fun l => and_congr_left fun _ => mem_linesFrom

/-- A direct-mapped cache of the first level with 256 lines of 32 bytes, and behind it, below the
level of coherency too, one of eight ways with 512 lines of 64 bytes each. -/
def twoLevels : Hw where
  clidr := 0x02000023#32
  ccsidr := fun level => if level = 0 then 0x001fe001#32 else 0x003fe03a#32

theorem fits_twoLevels : twoLevels.Fits := by
  unfold Hw.Fits Geometry.Fits
  decide

theorem flushed_of_fits_twoLevels :
    GetsTo (step twoLevels) (Cpu.call ⟨0, 0, 0, 0, 0, 0, 0, 0, 0, 0⟩ ⟨false, false, false⟩ 0 [])
      (fun t => t.pc = returned ∧ Flushed twoLevels t.ops) :=
  flushed_of_fits fits_twoLevels _ _ _ _

end Levels

end Dcache

end BareMetal
