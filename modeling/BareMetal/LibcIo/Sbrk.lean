import BareMetal.Runs
import BareMetal.LibcIo.Errno
import Mathlib.Data.Int.ConditionallyCompleteOrder
import Mathlib.Order.CompletePartialOrder
import Mathlib.Order.ConditionallyCompleteLattice.Basic
import Mathlib.Tactic.Common

/-!
# Growing the heap

`_sbrk_r` moves the program break of `libc_io.c` by a signed increment, under a spin lock,
so that a history of calls from any of the cores is a history of whole calls. Its only
check is that the new break stays below the end of the heap, and it is made on the 32-bit
sum: nothing keeps the break above the *start* of the heap, and a sum that wraps around
looks small.

What the heap promises its caller is `BareMetal.LibcIo.HeapOk`: the break stays in the heap,
a refused call changes nothing, and the ranges that were granted and not given back lie in
the heap and never overlap. `BareMetal.LibcIo.heapOk_of_inHeap` proves it along every
history whose increments neither undercut the start of the heap nor wrap around, and the
first one that does breaks it (`BareMetal.LibcIo.not_heapOk_of_not_inHeap`).
-/

namespace BareMetal

namespace LibcIo

/-! ### The code -/

/-- `current_brk` and `max_brk`. -/
structure Heap where
  currentBrk : BitVec 32
  maxBrk : BitVec 32
  deriving DecidableEq, Repr

/-- `libc_set_heap`. -/
def libcSetHeap (start stop : BitVec 32) : Heap := ⟨start, stop⟩

/-- A call of `_sbrk_r`: the core it comes from and the increment, a `ptrdiff_t`. -/
structure SbrkCall where
  core : Fin 4
  incr : BitVec 32
  deriving DecidableEq, Repr

/-- What a call returns, and what it stores in `r->_errno` if it does. -/
structure SbrkResult where
  ret : BitVec 32
  errno : Option Errno
  deriving DecidableEq, Repr

/-- `_sbrk_r`, between taking and releasing `sbrk_lock`. -/
def sbrkR (m : Heap) (c : SbrkCall) : SbrkResult × Heap :=
  let retBrk := m.currentBrk
  if m.maxBrk ≤ m.currentBrk + c.incr then
    (⟨-1#32, some .enomem⟩, m)
  else
    (⟨retBrk, none⟩, { m with currentBrk := m.currentBrk + c.incr })

theorem sbrkR_refused {m : Heap} {c : SbrkCall} (h : m.maxBrk ≤ m.currentBrk + c.incr) :
    sbrkR m c = (⟨-1#32, some .enomem⟩, m) := by
  rw [sbrkR, if_pos h]

theorem sbrkR_granted {m : Heap} {c : SbrkCall} (h : ¬m.maxBrk ≤ m.currentBrk + c.incr) :
    sbrkR m c = (⟨m.currentBrk, none⟩, { m with currentBrk := m.currentBrk + c.incr }) := by
  rw [sbrkR, if_neg h]

/-! ### What has been granted -/

/-- Lowering the break to `b` gives back everything from `b` on. -/
def release (b : ℤ) (g : List (ℤ × ℤ)) : List (ℤ × ℤ) :=
  g.filterMap fun r => if r.1 < b then some (r.1, min r.2 b) else none

/-- **The ranges granted and not given back**, each from its first byte to the byte after
its last one: a successful positive call adds one, a successful call that lowers the break
gives back what lies above it. -/
def grants : List (SbrkCall × SbrkResult) → List (ℤ × ℤ)
  | [] => []
  | (c, r) :: h =>
      match r.errno with
      | some _ => grants h
      | none =>
          if 0 < c.incr.toInt then (r.ret.toNat, r.ret.toNat + c.incr.toInt) :: grants h
          else release (r.ret.toNat + c.incr.toInt) (grants h)

/-- **The promise of the heap** after a history of calls: the break lies in the heap, the
ranges granted and not given back lie in it and are pairwise disjoint, and the next call,
if it fails, says so and moves nothing. -/
def HeapOk (start stop : BitVec 32) (h : List (SbrkCall × SbrkResult)) (m : Heap) : Prop :=
  (start ≤ m.currentBrk ∧ m.currentBrk ≤ stop) ∧
    (∀ r ∈ grants h, (start.toNat : ℤ) ≤ r.1 ∧ r.2 ≤ stop.toNat) ∧
    ((grants h).Pairwise fun a b => Disjoint (Set.Ico a.1 a.2) (Set.Ico b.1 b.2)) ∧
    ∀ c o t, sbrkR m c = (o, t) → o.errno ≠ none →
      o.ret = -1#32 ∧ o.errno = some .enomem ∧ t.currentBrk = m.currentBrk

/-- The increment of a call stays in the heap: either the code's comparison refuses it, or
the sum of 32 bits does not undercut the start of the heap and, for a positive increment,
has not wrapped. -/
def InHeap (start : BitVec 32) (m : Heap) (c : SbrkCall) : Prop :=
  m.maxBrk ≤ m.currentBrk + c.incr ∨
    (start ≤ m.currentBrk + c.incr ∧
      (0 < c.incr.toInt → m.currentBrk.toNat + c.incr.toInt < 2 ^ 32))

/-! ### The break and the grants along a run -/

/-- Without a wrap, the 32-bit sum is the true one. -/
theorem toNat_add_of_noWrap {b i : BitVec 32} (h0 : 0 ≤ (b.toNat : ℤ) + i.toInt)
    (h1 : (b.toNat : ℤ) + i.toInt < 2 ^ 32) :
    ((b + i).toNat : ℤ) = b.toNat + i.toInt := by
  rw [BitVec.toNat_add]
  rw [BitVec.toInt_eq_toNat_cond] at h0 h1 ⊢
  have hi := i.isLt
  split at h0 <;> simp_all <;> omega

/-- The grants are stacked below the break: each lies between the start of the heap and
the break, and a newer one lies above an older one. -/
structure Stacked (start brk : ℤ) (g : List (ℤ × ℤ)) : Prop where
  bounds : ∀ r ∈ g, start ≤ r.1 ∧ r.2 ≤ brk
  order : g.Pairwise fun a b => b.2 ≤ a.1

theorem Stacked.grant {start brk brk' : ℤ} {g : List (ℤ × ℤ)} (hg : Stacked start brk g)
    (hs : start ≤ brk) (hb : brk ≤ brk') : Stacked start brk' ((brk, brk') :: g) where
  bounds r hr := by
    rcases List.mem_cons.mp hr with rfl | hr
    · exact ⟨hs, le_rfl⟩
    · exact ⟨(hg.bounds r hr).1, (hg.bounds r hr).2.trans hb⟩
  order := List.pairwise_cons.mpr ⟨fun r hr => (hg.bounds r hr).2, hg.order⟩

theorem mem_release {b : ℤ} {g : List (ℤ × ℤ)} {r : ℤ × ℤ} (hr : r ∈ release b g) :
    ∃ r' ∈ g, r'.1 < b ∧ r = (r'.1, min r'.2 b) := by
  obtain ⟨r', hr', h⟩ := List.mem_filterMap.mp hr
  split at h
  · exact ⟨r', hr', ‹_›, (Option.some.inj h).symm⟩
  · simp at h

theorem Stacked.release {start brk : ℤ} {g : List (ℤ × ℤ)} (hg : Stacked start brk g)
    (b : ℤ) : Stacked start b (release b g) where
  bounds r hr := by
    obtain ⟨r', hr', -, rfl⟩ := mem_release hr
    exact ⟨(hg.bounds r' hr').1, min_le_right _ _⟩
  order := by
    refine List.Pairwise.filterMap _ (fun a a' haa' c hc c' hc' => ?_) hg.order
    simp only [Option.ite_none_right_eq_some, Option.some.injEq] at hc hc'
    obtain ⟨-, rfl⟩ := hc
    obtain ⟨-, rfl⟩ := hc'
    exact (min_le_left _ _).trans haa'

theorem Stacked.disjoint {start brk : ℤ} {g : List (ℤ × ℤ)} (hg : Stacked start brk g) :
    g.Pairwise fun a b => Disjoint (Set.Ico a.1 a.2) (Set.Ico b.1 b.2) := by
  refine hg.order.imp fun {a b} hab => ?_
  rw [Set.disjoint_left]
  rintro x ⟨hx, -⟩ ⟨-, hx'⟩
  omega

/-- The invariant of the heap along the runs whose increments stay in it. -/
structure HeapInv (start stop : BitVec 32) (h : List (SbrkCall × SbrkResult)) (m : Heap) :
    Prop where
  maxBrk : m.maxBrk = stop
  start_le : start ≤ m.currentBrk
  lt_stop : m.currentBrk < stop
  stacked : Stacked start.toNat m.currentBrk.toNat (grants h)

theorem heapInv_start {start stop : BitVec 32} (hlt : start < stop) :
    HeapInv start stop [] (libcSetHeap start stop) where
  maxBrk := rfl
  start_le := BitVec.le_refl _
  lt_stop := hlt
  stacked := ⟨by simp [grants], by simp [grants]⟩

/-- Lowering the break below every grant gives all of them back. -/
theorem Stacked.release_neg {start brk : ℤ} {g : List (ℤ × ℤ)} (hg : Stacked start brk g)
    {b : ℤ} (hb : b ≤ start) : LibcIo.release b g = [] := by
  rw [List.eq_nil_iff_forall_not_mem]
  intro r hr
  obtain ⟨r', hr', hlt, -⟩ := mem_release hr
  have hstart := (hg.bounds r' hr').1
  omega

/-- **One call keeps the heap invariant**, as long as its increment stays in the heap. -/
theorem heapInv_step {start stop : BitVec 32} {h : List (SbrkCall × SbrkResult)} {m : Heap}
    (hinv : HeapInv start stop h m) {c : SbrkCall} (hin : InHeap start m c)
    {o : SbrkResult} {t : Heap} (hstep : sbrkR m c = (o, t)) :
    HeapInv start stop ((c, o) :: h) t := by
  by_cases href : m.maxBrk ≤ m.currentBrk + c.incr
  · rw [sbrkR_refused href] at hstep
    obtain ⟨rfl, rfl⟩ := Prod.mk.inj hstep
    exact ⟨hinv.maxBrk, hinv.start_le, hinv.lt_stop, hinv.stacked⟩
  · rw [sbrkR_granted href] at hstep
    obtain ⟨rfl, rfl⟩ := Prod.mk.inj hstep
    obtain ⟨hlo, hwrap⟩ := hin.resolve_left href
    have hle : start.toNat ≤ m.currentBrk.toNat := BitVec.le_def.mp hinv.start_le
    have hbrk := m.currentBrk.isLt
    refine ⟨hinv.maxBrk, hlo, ?_, ?_⟩
    · rw [← hinv.maxBrk]
      exact BitVec.not_le.mp href
    · simp only [grants]
      split
      · -- the break moves up to the true sum, and what lies between is granted
        rename_i hpos
        rw [toNat_add_of_noWrap (by omega) (hwrap hpos)]
        exact hinv.stacked.grant (by exact_mod_cast hle) (by omega)
      · rename_i hneg
        by_cases h0 : 0 ≤ (m.currentBrk.toNat : ℤ) + c.incr.toInt
        · rw [toNat_add_of_noWrap h0 (by omega)]
          exact hinv.stacked.release _
        · -- below address 0: everything is given back, wherever the sum wraps to
          rw [hinv.stacked.release_neg (by omega)]
          exact ⟨by simp, List.Pairwise.nil⟩

theorem HeapInv.heapOk {start stop : BitVec 32} {h : List (SbrkCall × SbrkResult)} {m : Heap}
    (hinv : HeapInv start stop h m) : HeapOk start stop h m := by
  have hlt := BitVec.lt_def.mp hinv.lt_stop
  refine ⟨⟨hinv.start_le, BitVec.le_of_lt hinv.lt_stop⟩, fun r hr => ?_,
    hinv.stacked.disjoint, ?_⟩
  · obtain ⟨h1, h2⟩ := hinv.stacked.bounds r hr
    exact ⟨h1, by omega⟩
  · intro c o t hc ho
    by_cases href : m.maxBrk ≤ m.currentBrk + c.incr
    · rw [sbrkR_refused href] at hc
      obtain ⟨rfl, rfl⟩ := Prod.mk.inj hc
      exact ⟨rfl, rfl, rfl⟩
    · rw [sbrkR_granted href] at hc
      obtain ⟨rfl, rfl⟩ := Prod.mk.inj hc
      exact absurd rfl ho

/-! ### The heap along every run -/

/-- **The heap keeps its promise along every history of calls whose increments stay in the
heap**, whatever cores they come from. -/
theorem heapOk_of_inHeap {start stop : BitVec 32} (hlt : start < stop)
    {h : List (SbrkCall × SbrkResult)} {m : Heap}
    (hr : Reach (fnStep sbrkR) (InHeap start) (libcSetHeap start stop) h m) :
    HeapOk start stop h m :=
  (hr.invariant (HeapInv start stop) (heapInv_start hlt)
    fun _ _ _ _ _ hinv hin hstep => heapInv_step hinv hin hstep).heapOk

/-- Core 0 is granted a page, and core 1 gives half of it back. -/
theorem heapOk_of_inHeap_page :
    let r := runFn sbrkR [] (libcSetHeap 0x42000000#32 0xC0000000#32)
      [⟨0, 0x1000#32⟩, ⟨1, -0x800#32⟩]
    HeapOk 0x42000000#32 0xC0000000#32 r.1 r.2 ∧ grants r.1 = [(0x42000000, 0x42000800)] :=
  ⟨heapOk_of_inHeap (by decide) (reach_runFn
    ⟨Or.inr (by decide), Or.inr (by decide), trivial⟩), by decide⟩

/-- **Nothing keeps the break above the start of the heap**: a first call with a negative
increment is granted and leaves the break below it. -/
theorem not_heapOk_shrink :
    let r := runFn sbrkR [] (libcSetHeap 0x42000000#32 0xC0000000#32) [⟨0, -1#32⟩]
    Reach (fnStep sbrkR) Always (libcSetHeap 0x42000000#32 0xC0000000#32) r.1 r.2 ∧
      ¬HeapOk 0x42000000#32 0xC0000000#32 r.1 r.2 :=
  ⟨reach_runFn okAlong_always, fun h => absurd h.1.1 (by decide)⟩

/-! ### The condition is exact -/

/-- **A call that leaves the heap breaks its promise at once**: the break drops below the
start, or the range granted reaches over the end. -/
theorem not_heapOk_of_not_inHeap {start stop : BitVec 32} {h : List (SbrkCall × SbrkResult)}
    {m : Heap} {c : SbrkCall} (hout : ¬InHeap start m c) :
    ¬HeapOk start stop ((c, (sbrkR m c).1) :: h) (sbrkR m c).2 := by
  rw [InHeap, not_or] at hout
  obtain ⟨href, hsum⟩ := hout
  rw [sbrkR_granted href]
  rintro ⟨⟨hlo, -⟩, hbounds, -⟩
  refine hsum ⟨hlo, fun hpos => ?_⟩
  have hgrant := (hbounds (m.currentBrk.toNat, m.currentBrk.toNat + c.incr.toInt)
    (by simp [grants, hpos])).2
  have hstop := stop.isLt
  simp only at hgrant
  omega

end LibcIo

end BareMetal
