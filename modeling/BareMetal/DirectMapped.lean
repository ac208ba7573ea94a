import Mathlib.Logic.Function.Basic
import Mathlib.Tactic.Common

/-!
# Direct-mapped caches

A cache of blocks in front of a memory, over arbitrary types of places, addresses and
blocks. Every address has one place it can be cached at, its *index*, and the tag of a place
says which address is there now; one address, `inv`, serves as the tag of an empty place.

`BareMetal.DirectMapped.Coherent` is the property a cache is for: a tag is at its place and
its block is the memory's. It is kept by the three things that can happen to a cache in
step with its memory – a block is stored in both, a block is stored behind the back of a
cache that does not hold it, an empty place is scribbled over – and it is all a hit needs.
Of a cache that is not in step with its memory `BareMetal.DirectMapped.Every` still says where its
blocks can come from.
-/

namespace BareMetal

/-- The tags and the blocks of a direct-mapped cache. -/
structure DirectMapped (ι σ B : Type*) where
  tag : ι → σ
  buf : ι → B

namespace DirectMapped

variable {ι σ B : Type*} [DecidableEq ι] [DecidableEq σ]

/-- Cache a block under an address. -/
def install (c : DirectMapped ι σ B) (i : ι) (a : σ) (b : B) : DirectMapped ι σ B where
  tag := Function.update c.tag i a
  buf := Function.update c.buf i b

/-- Overwrite the block of a place and leave its tag. -/
def scribble (c : DirectMapped ι σ B) (i : ι) (b : B) : DirectMapped ι σ B where
  tag := c.tag
  buf := Function.update c.buf i b

variable {index : σ → ι} {inv : σ} {c : DirectMapped ι σ B} {mem : σ → B}

/-- **Coherence**: whatever a place is tagged with belongs there, and its block is the one
in memory. -/
def Coherent (index : σ → ι) (inv : σ) (c : DirectMapped ι σ B) (mem : σ → B) : Prop :=
  ∀ i, c.tag i ≠ inv → index (c.tag i) = i ∧ c.buf i = mem (c.tag i)

omit [DecidableEq ι] [DecidableEq σ] in
theorem coherent_empty (h : ∀ i, c.tag i = inv) : Coherent index inv c mem :=
  fun i hi => absurd (h i) hi

omit [DecidableEq ι] [DecidableEq σ] in
/-- A hit delivers the block in memory. -/
theorem Coherent.hit (h : Coherent index inv c mem) {a : σ} (ha : a ≠ inv)
    (htag : c.tag (index a) = a) : c.buf (index a) = mem a := by
  have := (h (index a) (by rw [htag]; exact ha)).2
  rwa [htag] at this

/-- Storing a block in the cache and in memory. Another place cannot hold the address, since
its tag belongs where it is. -/
theorem Coherent.store (h : Coherent index inv c mem) (a : σ) (b : B) :
    Coherent index inv (c.install (index a) a b) (Function.update mem a b) := by
  intro i hi
  by_cases hia : i = index a
  · subst hia
    simp [install]
  · simp only [install, Function.update_of_ne hia] at hi ⊢
    obtain ⟨hindex, hbuf⟩ := h i hi
    have hne : c.tag i ≠ a := by
      intro hcon
      rw [hcon] at hindex
      exact hia hindex.symm
    exact ⟨hindex, by rw [Function.update_of_ne hne, hbuf]⟩

/-- Fetching a block into the cache. -/
theorem Coherent.load (h : Coherent index inv c mem) (a : σ) :
    Coherent index inv (c.install (index a) a (mem a)) mem := by
  have := h.store a (mem a)
  rwa [Function.update_eq_self] at this

omit [DecidableEq ι] in
/-- Storing a block in memory only, at an address that is not cached. -/
theorem Coherent.bypass (h : Coherent index inv c mem) {a : σ} (ha : c.tag (index a) ≠ a)
    (b : B) : Coherent index inv c (Function.update mem a b) := by
  intro i hi
  obtain ⟨hindex, hbuf⟩ := h i hi
  have hne : c.tag i ≠ a := by
    intro hcon
    rw [hcon] at hindex
    rw [hindex] at ha
    exact ha hcon
  exact ⟨hindex, by rw [Function.update_of_ne hne, hbuf]⟩

omit [DecidableEq σ] in
/-- Overwriting the block of an empty place. -/
theorem Coherent.scribble (h : Coherent index inv c mem) {i : ι} (hi : c.tag i = inv) (b : B) :
    Coherent index inv (c.scribble i b) mem := by
  intro j hj
  have hji : j ≠ i := by
    rintro rfl
    exact hj hi
  simp only [DirectMapped.scribble, Function.update_of_ne hji] at hj ⊢
  exact h j hj

omit [DecidableEq σ] in
/-- Overwriting a block with itself. -/
theorem scribble_self (i : ι) : c.scribble i (c.buf i) = c := by
  simp [DirectMapped.scribble]

/-! ### What the blocks have in common -/

variable {P : B → Prop}

/-- Every block that is cached has a property. -/
def Every (inv : σ) (P : B → Prop) (c : DirectMapped ι σ B) : Prop := ∀ i, c.tag i ≠ inv → P (c.buf i)

omit [DecidableEq ι] [DecidableEq σ] in
theorem every_empty (h : ∀ i, c.tag i = inv) : Every inv P c := fun i hi => absurd (h i) hi

omit [DecidableEq σ] in
theorem Every.install (h : Every inv P c) (i : ι) (a : σ) {b : B} (hb : P b) :
    Every inv P (c.install i a b) := by
  intro j hj
  by_cases hji : j = i
  · subst hji
    simpa only [DirectMapped.install, Function.update_self] using hb
  · simp only [DirectMapped.install, Function.update_of_ne hji] at hj ⊢
    exact h j hj

omit [DecidableEq σ] in
theorem Every.scribble (h : Every inv P c) (i : ι) {b : B} (hb : P b) :
    Every inv P (c.scribble i b) := by
  intro j hj
  by_cases hji : j = i
  · subst hji
    simpa only [DirectMapped.scribble, Function.update_self] using hb
  · simp only [DirectMapped.scribble, Function.update_of_ne hji] at hj ⊢
    exact h j hj

end DirectMapped

end BareMetal
