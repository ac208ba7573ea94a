import Mathlib.Data.BitVec
import Mathlib.Logic.Nontrivial.Basic
import Mathlib.Logic.Function.Basic
import Mathlib.Tactic.Common

/-!
# An address space that wraps around

A memory with a fixed number of address bits, from whose last address one comes to the first.
`BareMetal.poke` stores some bytes from an address on, and `BareMetal.peek` reads them. Byte by
byte or all at once makes no difference (`BareMetal.poke_concat`), and what a store does to all
memories tells where and what is stored (`BareMetal.poke_inj`).
-/

namespace BareMetal

section AddressSpace

variable {w : ℕ} {β : Type*} {m : BitVec w → β} {a b x : BitVec w} {bs cs : List β}

/-- The bytes are stored from the address `a` on. -/
def poke (m : BitVec w → β) (a : BitVec w) (bs : List β) : BitVec w → β :=
  fun x => bs[(x - a).toNat]?.getD (m x)

/-- The `n` bytes from the address `a` on. -/
def peek (m : BitVec w → β) (a : BitVec w) (n : ℕ) : List β :=
  (List.range n).map fun i => m (a + BitVec.ofNat w i)

@[simp] theorem length_peek (m : BitVec w → β) (a : BitVec w) (n : ℕ) : (peek m a n).length = n := by
  rw [peek, List.length_map, List.length_range]

theorem peek_succ (m : BitVec w → β) (a : BitVec w) (n : ℕ) :
    peek m a (n + 1) = m a :: peek m (a + 1#w) n := by
  rw [peek, List.range_succ_eq_map, List.map_cons, List.map_map, peek]
  congr 1
  · rw [BitVec.add_zero]
  · refine List.map_congr_left fun i _ => ?_
    rw [Function.comp_apply, BitVec.add_assoc, Nat.succ_eq_add_one, Nat.add_comm, BitVec.ofNat_add]

theorem poke_of_lt (h : (x - a).toNat < bs.length) : poke m a bs x = bs[(x - a).toNat] := by
  rw [poke, List.getElem?_eq_getElem h, Option.getD_some]

theorem poke_of_le (h : bs.length ≤ (x - a).toNat) : poke m a bs x = m x := by
  rw [poke, List.getElem?_eq_none h, Option.getD_none]

theorem toNat_add_sub_self {i : ℕ} (hi : i < 2 ^ w) : (a + BitVec.ofNat w i - a).toNat = i := by
  rw [BitVec.add_comm, BitVec.add_sub_cancel, BitVec.toNat_ofNat, Nat.mod_eq_of_lt hi]

theorem eq_of_toNat_sub (h : (x - a).toNat = 0) : x = a := by
  have hzero : x - a = 0 := BitVec.eq_of_toNat_eq (by simpa using h)
  exact sub_eq_zero.mp hzero

/-- One byte. -/
theorem poke_singleton (m : BitVec w → β) (a : BitVec w) (v : β) :
    poke m a [v] = Function.update m a v := by
  funext x
  by_cases hx : x = a
  · subst hx
    rw [Function.update_self, poke_of_lt (by simp)]
    simp
  · rw [Function.update_of_ne hx, poke_of_le]
    by_contra hlt
    rw [List.length_singleton] at hlt
    exact hx (eq_of_toNat_sub (by omega))

/-- **One more byte.** -/
theorem poke_concat (m : BitVec w → β) (a : BitVec w) (v : β) (h : bs.length < 2 ^ w) :
    poke m a (bs ++ [v]) = Function.update (poke m a bs) (a + BitVec.ofNat w bs.length) v := by
  funext x
  by_cases hx : x = a + BitVec.ofNat w bs.length
  · subst hx
    rw [Function.update_self, poke, toNat_add_sub_self h, List.getElem?_concat_length]
    rfl
  · have hne : (x - a).toNat ≠ bs.length := by
      intro hcon
      refine hx ?_
      have := congrArg (BitVec.ofNat w) hcon
      rw [BitVec.ofNat_toNat, BitVec.setWidth_eq] at this
      rw [← this, BitVec.add_comm, BitVec.sub_add_cancel]
    rw [Function.update_of_ne hx]
    by_cases hlt : (x - a).toNat < bs.length
    · rw [poke, poke, List.getElem?_append_left hlt]
    · have hlong : (bs ++ [v]).length ≤ (x - a).toNat := by
        rw [List.length_append, List.length_singleton]
        omega
      rw [poke_of_le hlong, poke_of_le (by omega)]

/-- What is stored is what is read. -/
theorem poke_add {i : ℕ} (hi : i < bs.length) (hlen : bs.length ≤ 2 ^ w) :
    poke m a bs (a + BitVec.ofNat w i) = bs[i] := by
  have hsub : (a + BitVec.ofNat w i - a).toNat = i := toNat_add_sub_self (by omega)
  rw [poke_of_lt (by omega)]
  simp only [hsub]

/-- An address that one of two stores leaves alone is left alone by the other. -/
theorem le_of_poke_eq [Nontrivial β] (h : ∀ m, poke m a bs = poke m b cs)
    (hx : bs.length ≤ (x - a).toNat) : cs.length ≤ (x - b).toNat := by
  by_contra hlt
  rw [Nat.not_le] at hlt
  obtain ⟨v, hv⟩ := exists_ne cs[(x - b).toNat]
  have heq := congrFun (h fun _ => v) x
  rw [poke_of_le hx, poke_of_lt hlt] at heq
  exact hv heq

/-- **A store is known by what it does to all memories**, unless it fills them. -/
theorem poke_inj [Nontrivial β] (h : ∀ m, poke m a bs = poke m b cs)
    (hlen : bs.length = cs.length) (hpos : 0 < bs.length) (hlt : bs.length < 2 ^ w) :
    a = b ∧ bs = cs := by
  have hab : a = b := by
    by_contra hne
    have hw : 1 < 2 ^ w := by omega
    have hone : (1#w).toNat = 1 := by
      rw [BitVec.toNat_ofNat, Nat.mod_eq_of_lt hw]
    -- `b` is an address of the second store, so of the first; …
    have hb : (b - a).toNat < bs.length := by
      by_contra hcon
      have := le_of_poke_eq h (Nat.not_lt.mp hcon)
      rw [BitVec.sub_self, BitVec.toNat_ofNat, Nat.zero_mod] at this
      omega
    -- … and the address before it is one of the first, but not of the second
    have hd : (b - a).toNat ≠ 0 := fun hzero => hne (eq_of_toNat_sub hzero).symm
    have hbefore : (b - 1#w - b).toNat = 2 ^ w - 1 := by
      rw [sub_right_comm, BitVec.sub_self, BitVec.toNat_sub, hone, BitVec.toNat_ofNat,
        Nat.zero_mod, Nat.add_zero, Nat.mod_eq_of_lt (by omega)]
    have hle := le_of_poke_eq (fun m => (h m).symm) (x := b - 1#w) (by omega)
    have hpred : (b - 1#w - a).toNat = (b - a).toNat - 1 := by
      rw [sub_right_comm, BitVec.toNat_sub, hone]
      have := (b - a).isLt
      rw [show 2 ^ w - 1 + (b - a).toNat = 2 ^ w + ((b - a).toNat - 1) by omega,
        Nat.add_mod_left, Nat.mod_eq_of_lt (by omega)]
    omega
  subst hab
  refine ⟨rfl, List.ext_getElem hlen fun i hi hi' => ?_⟩
  obtain ⟨v, -⟩ := exists_pair_ne β
  calc
    bs[i] = poke (fun _ => v) a bs (a + BitVec.ofNat w i) := (poke_add hi (by omega)).symm
    _ = poke (fun _ => v) a cs (a + BitVec.ofNat w i) := by rw [h]
    _ = cs[i] := poke_add hi' (by omega)

end AddressSpace

end BareMetal
