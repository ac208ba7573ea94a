import BareMetal.Runs
import BareMetal.Gdb.Packet

/-!
# The breakpoints of the GDB stub

A breakpoint is an instruction of the program that has been replaced by `SMC_BKPT`. The stub
keeps the replaced instructions in a table of 64 entries, in which an address of 0 marks an
entry that is free, and it is told by packets which breakpoints to insert and to remove.

What is wanted (`BareMetal.Gdb.BkptOk`) is that every packet is answered and that the memory
is, at every point, the original program except where breakpoints are inserted – and what is
inserted is read off the packets and their answers. It holds as long as no breakpoint is
inserted a second time, address 0 is left alone and the table has an entry to spare
(`BareMetal.Gdb.bkptOk_of_honoured`). A second insertion saves the breakpoint instruction in
place of the original one, and the removal that follows leaves it in the program
(`BareMetal.Gdb.not_bkptOk_of_again`); with the table full an insertion goes through a null
pointer (`BareMetal.Gdb.not_answered_of_full`); and a request about address 0 is taken for one
about a free entry, since `find_bkpt` of 0 is `alloc_bkpt` (`BareMetal.Gdb.findBkpt_zero`).

Only words at aligned addresses are read and written, so that the memory is a function from
addresses to words. That the stub does the same on bytes is `BareMetal.Gdb.reach_words`.
-/

namespace BareMetal

namespace Gdb

/-! ### The code -/

/-- `SMC_BKPT`. -/
def smcBkpt : BitVec 32 := 0xe161097a#32

/-- `struct bkpt`. -/
structure Bkpt where
  addr : BitVec 32
  saved : BitVec 32
  deriving DecidableEq, Repr

/-- The memory of the program, and `breakpoints`. -/
structure Stub where
  mem : BitVec 32 → BitVec 32
  breakpoints : Fin 64 → Bkpt

/-- A program before the first packet. -/
def Stub.init (orig : BitVec 32 → BitVec 32) : Stub := ⟨orig, fun _ => ⟨0#32, 0#32⟩⟩

/-- `alloc_bkpt`: the first entry that is free. -/
def allocBkpt (s : Stub) : Option (Fin 64) :=
  (List.finRange 64).find? fun m => (s.breakpoints m).addr == 0#32

/-- `find_bkpt`: the first entry with an address. -/
def findBkpt (s : Stub) (addr : BitVec 32) : Option (Fin 64) :=
  (List.finRange 64).find? fun m => (s.breakpoints m).addr == addr

/-- `free_bkpt`. -/
def freeBkpt (s : Stub) (b : Fin 64) : Stub :=
  { s with breakpoints := Function.update s.breakpoints b { s.breakpoints b with addr := 0#32 } }

/-- `activate_bkpt`. -/
def activateBkpt (s : Stub) (b : Fin 64) : Stub :=
  if (s.breakpoints b).saved = smcBkpt then s
  else
    { mem := Function.update s.mem (s.breakpoints b).addr smcBkpt
      breakpoints := Function.update s.breakpoints b
        { s.breakpoints b with saved := s.mem (s.breakpoints b).addr } }

/-- `deactivate_bkpt`. -/
def deactivateBkpt (s : Stub) (b : Fin 64) : Stub :=
  { s with mem := Function.update s.mem (s.breakpoints b).addr (s.breakpoints b).saved }

/-- `add_bkpt`: what it returns, unless it goes through the null pointer that `alloc_bkpt`
returns when no entry is free. -/
def addBkpt (s : Stub) (addr : BitVec 32) : Option (ℤ × Stub) :=
  match findBkpt s addr with
  | some bp => some (0, activateBkpt s bp)
  | none =>
      match allocBkpt s with
      | none => none
      | some bp =>
          some (0, activateBkpt
            { s with breakpoints := Function.update s.breakpoints bp ⟨addr, 0#32⟩ } bp)

/-- `del_bkpt`. -/
def delBkpt (s : Stub) (addr : BitVec 32) : Option (ℤ × Stub) :=
  match findBkpt s addr with
  | none => some (-1, s)
  | some bp => some (0, freeBkpt (deactivateBkpt s bp) bp)

/-- The answers to a packet about a breakpoint, `OK` and `E01`. -/
inductive Reply where
  | ok
  | e01
  deriving DecidableEq, Repr

/-- `bkpt_op`. There is no answer once the code has gone through a null pointer. -/
def bkptOp (s : Stub) (msg : List Char) (op : Stub → BitVec 32 → Option (ℤ × Stub)) :
    Option Reply × Stub :=
  match readField (msg.drop 3) ',' with
  | none => (some .e01, s)
  | some (addr, _) =>
      match op s addr with
      | none => (none, s)
      | some (rc, t) => (some (if rc = 0 then .ok else .e01), t)

/-- `gdbstub_handle`, for a message whose handler is one of the two that deal with
breakpoints. -/
def gdbstubHandle (s : Stub) (msg : List Char) : Option Reply × Stub :=
  match lookupCmdhandler msg with
  | some .insertBkpt => bkptOp s msg addBkpt
  | some .removeBkpt => bkptOp s msg delBkpt
  | _ => (none, s)

/-- One packet. -/
def gdbStep (s : Stub) (p : Packet) : Option Reply × Stub := gdbstubHandle s p.text

/-! ### The property -/

/-- **The breakpoints that are inserted**: what the last packet about an address that was
answered with `OK` has asked for. -/
def inserted : List (Packet × Option Reply) → BitVec 32 → Bool
  | [], _ => false
  | (p, o) :: h, a => if p.addr = a ∧ o = some .ok then p.insert else inserted h a

/-- **Breakpoints do not damage the program**: every packet has been answered; memory is the
original program except at the breakpoints that are inserted; and these are the addresses in
the table. -/
structure BkptOk (orig : BitVec 32 → BitVec 32) (h : List (Packet × Option Reply))
    (s : Stub) : Prop where
  answered : ∀ e ∈ h, e.2 ≠ none
  mem : ∀ a, s.mem a = if inserted h a then smcBkpt else orig a
  table : ∀ a, a ≠ 0#32 → ((∃ m, (s.breakpoints m).addr = a) ↔ inserted h a = true)

/-- Packets are about aligned addresses. -/
def Aligned (_ : Stub) (p : Packet) : Prop := p.addr.toNat % 4 = 0

instance (s : Stub) (p : Packet) : Decidable (Aligned s p) :=
  inferInstanceAs (Decidable (p.addr.toNat % 4 = 0))

/-- In addition a packet can be honoured: it is not about address 0; an insertion is about a
new address and finds a free entry, or replaces a breakpoint instruction of the program's
own. -/
def Honoured (s : Stub) (p : Packet) : Prop :=
  Aligned s p ∧ p.addr ≠ 0#32 ∧ (p.insert = true →
    (∀ m, (s.breakpoints m).addr = p.addr → (s.breakpoints m).saved = smcBkpt) ∧
    ((∀ m, (s.breakpoints m).addr ≠ p.addr) → ∃ m, (s.breakpoints m).addr = 0#32))

/-! ### What a packet does -/

section Packets

variable {s : Stub} {p : Packet} {a : BitVec 32} {b : Fin 64}

/-- **The free marker is an address**: looking for address 0 finds a free entry. -/
theorem findBkpt_zero (s : Stub) : findBkpt s 0#32 = allocBkpt s := rfl

theorem addr_of_findBkpt (h : findBkpt s a = some b) : (s.breakpoints b).addr = a := by
  simpa using List.find?_some h

theorem findBkpt_eq_none : findBkpt s a = none ↔ ∀ m, (s.breakpoints m).addr ≠ a := by
  simp [findBkpt, List.find?_eq_none]

/-- Saving an instruction in a free entry and replacing it. -/
def patch (s : Stub) (b : Fin 64) (a : BitVec 32) : Stub :=
  ⟨Function.update s.mem a smcBkpt, Function.update s.breakpoints b ⟨a, s.mem a⟩⟩

/-- Putting an instruction back and freeing its entry. -/
def unpatch (s : Stub) (b : Fin 64) : Stub :=
  ⟨Function.update s.mem (s.breakpoints b).addr (s.breakpoints b).saved,
    Function.update s.breakpoints b { s.breakpoints b with addr := 0#32 }⟩

theorem activateBkpt_fresh (s : Stub) (b : Fin 64) (a : BitVec 32) :
    activateBkpt { s with breakpoints := Function.update s.breakpoints b ⟨a, 0#32⟩ } b =
      patch s b a := by
  have hne : (0#32 : BitVec 32) ≠ smcBkpt := by decide
  simp [activateBkpt, patch, hne]

/-- Activating a breakpoint that is active saves the breakpoint instruction. -/
theorem activateBkpt_again (hb : (s.breakpoints b).addr = a)
    (hsaved : (s.breakpoints b).saved ≠ smcBkpt) (hmem : s.mem a = smcBkpt) :
    activateBkpt s b = ⟨Function.update s.mem a smcBkpt,
      Function.update s.breakpoints b ⟨a, smcBkpt⟩⟩ := by
  simp [activateBkpt, hsaved, hb, hmem]

/-- **What an insertion does**, in terms of the table. -/
theorem gdbStep_insert (hp : p.insert = true) :
    (∃ b, findBkpt s p.addr = some b ∧ gdbStep s p = (some .ok, activateBkpt s b)) ∨
    (∃ b, findBkpt s p.addr = none ∧ (s.breakpoints b).addr = 0#32 ∧
      gdbStep s p = (some .ok, patch s b p.addr)) ∨
    (findBkpt s p.addr = none ∧ (∀ m, (s.breakpoints m).addr ≠ 0#32) ∧
      gdbStep s p = (none, s)) := by
  have hstep : gdbStep s p = bkptOp s p.text addBkpt := by
    simp [gdbStep, gdbstubHandle, lookupCmdhandler_text, hp]
  rw [hstep, bkptOp, readField_text]
  cases hfind : findBkpt s p.addr with
  | some b => exact Or.inl ⟨b, rfl, by simp [addBkpt, hfind]⟩
  | none =>
    right
    cases halloc : allocBkpt s with
    | some b =>
      refine Or.inl ⟨b, rfl, addr_of_findBkpt halloc, ?_⟩
      simp [addBkpt, hfind, halloc, activateBkpt_fresh]
    | none =>
      refine Or.inr ⟨rfl, findBkpt_eq_none.mp halloc, ?_⟩
      simp [addBkpt, hfind, halloc]

/-- **What a removal does**, in terms of the table. -/
theorem gdbStep_remove (hp : p.insert = false) :
    (∃ b, findBkpt s p.addr = some b ∧ gdbStep s p = (some .ok, unpatch s b)) ∨
    (findBkpt s p.addr = none ∧ gdbStep s p = (some .e01, s)) := by
  have hstep : gdbStep s p = bkptOp s p.text delBkpt := by
    simp [gdbStep, gdbstubHandle, lookupCmdhandler_text, hp]
  rw [hstep, bkptOp, readField_text]
  cases hfind : findBkpt s p.addr with
  | some b => exact Or.inl ⟨b, rfl, by simp [delBkpt, hfind, freeBkpt, deactivateBkpt, unpatch]⟩
  | none => exact Or.inr ⟨rfl, by simp [delBkpt, hfind]⟩

/-- **A packet that is not answered with `OK` changes nothing**, in whatever state. -/
theorem gdbStep_of_ne_ok (h : (gdbStep s p).1 ≠ some .ok) : (gdbStep s p).2 = s := by
  cases hp : p.insert with
  | true =>
    rcases gdbStep_insert (s := s) hp with ⟨b, -, hstep⟩ | ⟨b, -, -, hstep⟩ | ⟨-, -, hstep⟩
    · exact absurd (by rw [hstep]) h
    · exact absurd (by rw [hstep]) h
    · rw [hstep]
  | false =>
    rcases gdbStep_remove (s := s) hp with ⟨b, -, hstep⟩ | ⟨-, hstep⟩
    · exact absurd (by rw [hstep]) h
    · rw [hstep]

end Packets

/-! ### The invariant -/

/-- **The invariant**: beside the property, an address has one entry, the entry has its
original instruction, and address 0 is not a breakpoint. -/
structure BkptInv (orig : BitVec 32 → BitVec 32) (h : List (Packet × Option Reply))
    (s : Stub) : Prop extends BkptOk orig h s where
  unique : ∀ m n, (s.breakpoints m).addr = (s.breakpoints n).addr →
    (s.breakpoints m).addr ≠ 0#32 → m = n
  saved : ∀ m, (s.breakpoints m).addr ≠ 0#32 →
    (s.breakpoints m).saved = orig (s.breakpoints m).addr
  zero : inserted h 0#32 = false

section Steps

variable {orig : BitVec 32 → BitVec 32} {h : List (Packet × Option Reply)} {s : Stub} {p : Packet}

theorem bkptInv_init (orig : BitVec 32 → BitVec 32) : BkptInv orig [] (.init orig) where
  answered := by simp
  mem a := by simp [Stub.init, inserted]
  table a ha := by simp [Stub.init, inserted, ha.symm]
  unique m n _ hne := absurd rfl hne
  saved m hne := absurd rfl hne
  zero := rfl

theorem inserted_ok_self (a : BitVec 32) (ha : p.addr = a) :
    inserted ((p, some .ok) :: h) a = p.insert := by
  simp [inserted, ha]

theorem inserted_ok_of_ne {a : BitVec 32} (ha : a ≠ p.addr) (o : Option Reply) :
    inserted ((p, o) :: h) a = inserted h a := by
  simp [inserted, ha.symm]

theorem BkptInv.answered_cons (hinv : BkptInv orig h s) (r : Reply) :
    ∀ e ∈ (p, some r) :: h, e.2 ≠ none := by
  intro e he
  rcases List.mem_cons.mp he with rfl | he
  · simp
  · exact hinv.answered e he

/-- A packet that leaves the state alone and says nothing new. -/
theorem BkptInv.same (hinv : BkptInv orig h s) {r : Reply}
    (hins : ∀ a, inserted ((p, some r) :: h) a = inserted h a) :
    BkptInv orig ((p, some r) :: h) s where
  answered := hinv.answered_cons r
  mem a := by
    rw [hins]
    exact hinv.mem a
  table a ha := by
    rw [hins]
    exact hinv.table a ha
  unique := hinv.unique
  saved := hinv.saved
  zero := (hins _).trans hinv.zero

/-- **A new breakpoint** in a free entry. -/
theorem BkptInv.patch (hinv : BkptInv orig h s) (hp : p.insert = true) (hne : p.addr ≠ 0#32)
    (hnew : ∀ m, (s.breakpoints m).addr ≠ p.addr) {b : Fin 64}
    (hfree : (s.breakpoints b).addr = 0#32) :
    BkptInv orig ((p, some .ok) :: h) (patch s b p.addr) := by
  have hnot : inserted h p.addr = false := by
    rw [← Bool.not_eq_true, ← hinv.table p.addr hne]
    rintro ⟨m, hm⟩
    exact hnew m hm
  refine ⟨⟨hinv.answered_cons .ok, fun a => ?_, fun a ha => ?_⟩, fun m n hmn hm => ?_,
    fun m hm => ?_, ?_⟩
  · by_cases hap : a = p.addr
    · subst hap
      simp [Gdb.patch, inserted_ok_self, hp]
    · simp [Gdb.patch, inserted_ok_of_ne hap, hap, hinv.mem a]
  · by_cases hap : a = p.addr
    · subst hap
      rw [inserted_ok_self _ rfl, hp]
      exact iff_of_true ⟨b, by simp [Gdb.patch]⟩ rfl
    · rw [inserted_ok_of_ne hap, ← hinv.table a ha]
      -- the entry that is filled was free before and holds another address now
      refine exists_congr fun m => ?_
      by_cases hmb : m = b
      · subst hmb
        simp [Gdb.patch, hfree, Ne.symm hap, ha.symm]
      · simp [Gdb.patch, hmb]
  · by_cases hmb : m = b
    · by_cases hnb : n = b
      · rw [hmb, hnb]
      · simp only [Gdb.patch, hmb, Function.update_self, Function.update_of_ne hnb] at hmn
        exact absurd hmn.symm (hnew n)
    · by_cases hnb : n = b
      · simp only [Gdb.patch, hnb, Function.update_self, Function.update_of_ne hmb] at hmn
        exact absurd hmn (hnew m)
      · simp only [Gdb.patch, Function.update_of_ne hmb, Function.update_of_ne hnb] at hmn hm
        exact hinv.unique m n hmn hm
  · by_cases hmb : m = b
    · subst hmb
      simp [Gdb.patch, hinv.mem p.addr, hnot]
    · simp only [Gdb.patch, Function.update_of_ne hmb] at hm ⊢
      exact hinv.saved m hm
  · rw [inserted_ok_of_ne hne.symm]
    exact hinv.zero

/-- **A breakpoint is removed.** -/
theorem BkptInv.unpatch (hinv : BkptInv orig h s) (hp : p.insert = false) (hne : p.addr ≠ 0#32)
    {b : Fin 64} (hb : (s.breakpoints b).addr = p.addr) :
    BkptInv orig ((p, some .ok) :: h) (unpatch s b) := by
  have hother : ∀ m, (s.breakpoints m).addr = p.addr → m = b := by
    intro m hm
    exact hinv.unique m b (hm.trans hb.symm) (hm ▸ hne)
  have hsaved : (s.breakpoints b).saved = orig p.addr := by
    rw [hinv.saved b (hb ▸ hne), hb]
  refine ⟨⟨hinv.answered_cons .ok, fun a => ?_, fun a ha => ?_⟩, fun m n hmn hm => ?_,
    fun m hm => ?_, ?_⟩
  · by_cases hap : a = p.addr
    · subst hap
      simp [Gdb.unpatch, hb, inserted_ok_self, hp, hsaved]
    · simp [Gdb.unpatch, hb, inserted_ok_of_ne hap, hap, hinv.mem a]
  · by_cases hap : a = p.addr
    · subst hap
      rw [inserted_ok_self _ rfl, hp]
      refine iff_of_false ?_ (by simp)
      rintro ⟨m, hm⟩
      by_cases hmb : m = b
      · subst hmb
        simp [Gdb.unpatch, hne.symm] at hm
      · simp only [Gdb.unpatch, Function.update_of_ne hmb] at hm
        exact hmb (hother m hm)
    · rw [inserted_ok_of_ne hap, ← hinv.table a ha]
      refine exists_congr fun m => ?_
      by_cases hmb : m = b
      · subst hmb
        simp [Gdb.unpatch, hb, ha.symm, Ne.symm hap]
      · simp [Gdb.unpatch, hmb]
  · have hmb : m ≠ b := by
      rintro rfl
      simp [Gdb.unpatch] at hm
    have hnb : n ≠ b := by
      rintro rfl
      rw [hmn] at hm
      simp [Gdb.unpatch] at hm
    simp only [Gdb.unpatch, Function.update_of_ne hmb, Function.update_of_ne hnb] at hmn hm
    exact hinv.unique m n hmn hm
  · have hmb : m ≠ b := by
      rintro rfl
      simp [Gdb.unpatch] at hm
    simp only [Gdb.unpatch, Function.update_of_ne hmb] at hm ⊢
    exact hinv.saved m hm
  · rw [inserted_ok_of_ne hne.symm]
    exact hinv.zero

/-- **Every packet that can be honoured keeps the invariant.** -/
theorem bkptInv_step (hinv : BkptInv orig h s) (hok : Honoured s p) :
    BkptInv orig ((p, (gdbStep s p).1) :: h) (gdbStep s p).2 := by
  obtain ⟨-, hne, hins⟩ := hok
  cases hp : p.insert with
  | true =>
    obtain ⟨hagain, hroom⟩ := hins hp
    rcases gdbStep_insert (s := s) hp with ⟨b, hb, hstep⟩ | ⟨b, hnone, hfree, hstep⟩ |
      ⟨hnone, hfull, -⟩
    · -- the program's own breakpoint instruction: nothing is stored
      have haddr := addr_of_findBkpt hb
      rw [hstep, activateBkpt, if_pos (hagain b haddr)]
      refine hinv.same fun a => ?_
      by_cases hap : a = p.addr
      · subst hap
        rw [inserted_ok_self _ rfl, hp, (hinv.table p.addr hne).mp ⟨b, haddr⟩]
      · exact inserted_ok_of_ne hap _
    · rw [hstep]
      exact hinv.patch hp hne (findBkpt_eq_none.mp hnone) hfree
    · obtain ⟨m, hm⟩ := hroom (findBkpt_eq_none.mp hnone)
      exact absurd hm (hfull m)
  | false =>
    rcases gdbStep_remove (s := s) hp with ⟨b, hb, hstep⟩ | ⟨-, hstep⟩
    · rw [hstep]
      exact hinv.unpatch hp hne (addr_of_findBkpt hb)
    · rw [hstep]
      refine hinv.same fun a => ?_
      simp [inserted]

end Steps

/-! ### Every history of packets -/

theorem bkptInv_of_honoured {orig : BitVec 32 → BitVec 32} {h : List (Packet × Option Reply)}
    {s : Stub} (hr : Reach (fnStep gdbStep) Honoured (.init orig) h s) : BkptInv orig h s :=
  hr.fnInvariant (BkptInv orig) (bkptInv_init orig) fun _ _ _ hinv hok => bkptInv_step hinv hok

/-- **Breakpoints do not damage the program** under any sequence of packets that can be
honoured, and a packet that is refused changes nothing. -/
theorem bkptOk_of_honoured {orig : BitVec 32 → BitVec 32} {h : List (Packet × Option Reply)}
    {s : Stub} (hr : Reach (fnStep gdbStep) Honoured (.init orig) h s) :
    BkptOk orig h s ∧ ∀ p, (gdbStep s p).1 = some .e01 → (gdbStep s p).2 = s :=
  ⟨(bkptInv_of_honoured hr).toBkptOk, fun _ he => gdbStep_of_ne_ok (by rw [he]; decide)⟩

/-- Packets about the breakpoint at an address of the program, and about address 0. -/
def insertAt (digits : List (Fin 16)) : Packet := ⟨true, false, digits, ['4']⟩
def removeAt (digits : List (Fin 16)) : Packet := ⟨false, false, digits, ['4']⟩
def addrA : List (Fin 16) := [4, 0, 0, 0, 1, 0, 0, 0]
def addrB : List (Fin 16) := [4, 0, 0, 0, 2, 0, 0, 0]

/-- Two breakpoints are inserted, one is removed, and once again. -/
theorem bkptOk_of_honoured_twoBreakpoints :
    let r := runFn gdbStep [] (.init id) [insertAt addrA, insertAt addrB, removeAt addrA,
      removeAt addrA]
    BkptOk id r.1 r.2 ∧ r.2.mem 0x40001000#32 = 0x40001000#32 ∧
      r.2.mem 0x40002000#32 = smcBkpt := by
  intro r
  have hreach : Reach (fnStep gdbStep) Honoured (.init id) r.1 r.2 := by
    refine reach_runFn ⟨⟨by decide, by decide, fun _ => ⟨by decide, by decide⟩⟩,
      ⟨by decide, by decide, fun _ => ⟨by decide, by decide⟩⟩, ⟨by decide, by decide, ?_⟩,
      ⟨by decide, by decide, ?_⟩, trivial⟩
    all_goals exact fun hp => absurd hp (by decide)
  exact ⟨(bkptOk_of_honoured hreach).1, by decide, by decide⟩

/-- **A breakpoint that is inserted twice cannot be removed**: the breakpoint instruction stays
in the program. And the removal of a breakpoint at address 0, where none is inserted, stores an
instruction that some other breakpoint has replaced. -/
theorem not_bkptOk_again :
    let again := runFn gdbStep [] (.init id) [insertAt addrA, insertAt addrA, removeAt addrA]
    let zero := runFn gdbStep [] (.init id) [insertAt addrA, removeAt addrA, removeAt [0]]
    (Reach (fnStep gdbStep) Aligned (.init id) again.1 again.2 ∧
      again.2.mem 0x40001000#32 = smcBkpt ∧ ¬BkptOk id again.1 again.2) ∧
    (Reach (fnStep gdbStep) Aligned (.init id) zero.1 zero.2 ∧
      zero.2.mem 0#32 = 0x40001000#32 ∧ ¬BkptOk id zero.1 zero.2) := by
  refine ⟨⟨reach_runFn ⟨by decide, by decide, by decide, trivial⟩, by decide, fun hok => ?_⟩,
    ⟨reach_runFn ⟨by decide, by decide, by decide, trivial⟩, by decide, fun hok => ?_⟩⟩
  · exact absurd (hok.mem 0x40001000#32) (by decide)
  · exact absurd (hok.mem 0#32) (by decide)

/-! ### The condition is needed -/

section Needed

variable {orig : BitVec 32 → BitVec 32} {h : List (Packet × Option Reply)} {s : Stub} {p : Packet}

/-- **A second insertion cannot be undone**: from any state reached so far without a fault, an
insertion at a breakpoint of which another instruction was saved, and the removal that follows,
leave the breakpoint instruction in the program. -/
theorem not_bkptOk_of_again (hr : Reach (fnStep gdbStep) Honoured (.init orig) h s)
    (hp : p.insert = true) (hne : p.addr ≠ 0#32) {m : Fin 64}
    (hm : (s.breakpoints m).addr = p.addr) (hsaved : (s.breakpoints m).saved ≠ smcBkpt) :
    let r := runFn gdbStep h s [p, { p with insert := false }]
    ¬BkptOk orig r.1 r.2 := by
  have hinv := bkptInv_of_honoured hr
  have horig : orig p.addr ≠ smcBkpt := by
    rw [← hm, ← hinv.saved m (hm ▸ hne)]
    exact hsaved
  -- the entry that is found is the only one with the address
  have hfound : ∃ b, findBkpt s p.addr = some b ∧
      gdbStep s p = (some .ok, activateBkpt s b) := by
    rcases gdbStep_insert (s := s) hp with hfound | ⟨b, hnone, -⟩ | ⟨hnone, -⟩
    · exact hfound
    all_goals exact absurd hm (findBkpt_eq_none.mp hnone m)
  obtain ⟨b, hb, hstep⟩ := hfound
  obtain rfl : b = m := hinv.unique b m ((addr_of_findBkpt hb).trans hm.symm)
    (by rw [addr_of_findBkpt hb]; exact hne)
  have hmem : s.mem p.addr = smcBkpt := by
    rw [hinv.mem, if_pos ((hinv.table p.addr hne).mp ⟨b, hm⟩)]
  have hact := activateBkpt_again hm hsaved hmem
  intro r hok
  rcases gdbStep_remove (s := activateBkpt s b) (p := { p with insert := false }) rfl with
    ⟨b', hb', hstep'⟩ | ⟨hnone, -⟩
  · have haddr' : ((activateBkpt s b).breakpoints b').addr = p.addr := addr_of_findBkpt hb'
    obtain rfl : b' = b := by
      by_contra hbb
      simp only [hact, Function.update_of_ne hbb] at haddr'
      exact hbb (hinv.unique b' b (haddr'.trans hm.symm) (haddr' ▸ hne))
    have hlast := hok.mem p.addr
    simp only [r, runFn, hstep, hstep',
      inserted_ok_self (p := { p with insert := false }) p.addr rfl] at hlast
    simp only [hact, unpatch, Function.update_self, Bool.false_eq_true, if_false] at hlast
    exact horig hlast.symm
  · refine findBkpt_eq_none.mp hnone b ?_
    simp only [hact, Function.update_self]
    rfl

/-- **An insertion into a full table is never answered.** -/
theorem not_answered_of_full (hp : p.insert = true)
    (hnew : ∀ m, (s.breakpoints m).addr ≠ p.addr) (hfull : ∀ m, (s.breakpoints m).addr ≠ 0#32) :
    ¬BkptOk orig ((p, (gdbStep s p).1) :: h) (gdbStep s p).2 := by
  intro hok
  refine hok.answered _ List.mem_cons_self ?_
  rcases gdbStep_insert (s := s) hp with ⟨b, hb, -⟩ | ⟨b, -, hfree, -⟩ | ⟨-, -, hstep⟩
  · exact absurd (addr_of_findBkpt hb) (hnew b)
  · exact absurd hfree (hfull b)
  · rw [hstep]

end Needed

end Gdb

end BareMetal
