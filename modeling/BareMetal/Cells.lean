import BareMetal.Runs
import Mathlib.Logic.Function.Basic

/-!
# Stores of independent cells

A driver packs many small values into the registers of a device, and what it means to do with
them is simple: a call sets some of the values and leaves the others alone. This file says so
over an arbitrary type of cells, each with its own type of values.

What a call sets is a partial assignment, and the store after the call is `BareMetal.assign`. A
system **stores** its cells (`BareMetal.Stores`) if each of its steps is such an assignment, seen
through some view of its states. In every state it reaches a cell then holds what was last set in
it, or what it held at the start (`BareMetal.Stores.view_eq_lastSet`).
-/

namespace BareMetal

variable {S E O C : Type*} {V : C → Type*}

/-- The store after an assignment. -/
def assign (σ : ∀ c, V c) (a : ∀ c, Option (V c)) : ∀ c, V c := fun c => (a c).getD (σ c)

/-- The assignment to a single cell. -/
def single [DecidableEq C] (c : C) (v : V c) : ∀ c, Option (V c) := fun c' =>
  if h : c' = c then some (h ▸ v) else none

theorem single_of_ne [DecidableEq C] {c c' : C} (h : c' ≠ c) (v : V c) : single c v c' = none :=
  dif_neg h

theorem assign_single [DecidableEq C] (σ : ∀ c, V c) (c : C) (v : V c) :
    assign σ (single c v) = Function.update σ c v := by
  funext c'
  by_cases h : c' = c
  · subst h
    rw [assign, single, dif_pos rfl, Option.getD_some, Function.update_self]
  · rw [assign, single_of_ne h, Option.getD_none, Function.update_of_ne h]

theorem assign_of_none {σ : ∀ c, V c} {a : ∀ c, Option (V c)} {c : C} (h : a c = none) :
    assign σ a c = σ c := by
  rw [assign, h, Option.getD_none]

/-- **What was last set** in a history, and what there was at the start if nothing was. -/
def lastSet {α : Type*} (sets : E → Option α) (init : α) (h : List (E × O)) : α :=
  (h.findSome? fun p => sets p.1).getD init

theorem lastSet_cons {α : Type*} (sets : E → Option α) (init : α) (e : E) (o : O)
    (h : List (E × O)) :
    lastSet sets init ((e, o) :: h) = (sets e).getD (lastSet sets init h) := by
  cases hset : sets e with
  | none => simp [lastSet, hset]
  | some v => simp [lastSet, hset]

/-- **A system stores cells**: seen through `view`, a step assigns to the cells what its event
sets, and nothing else happens to them. -/
def Stores (Step : S → E → O → S → Prop) (Ok : S → E → Prop) (view : S → ∀ c, V c)
    (sets : E → ∀ c, Option (V c)) : Prop :=
  ∀ s e o t, Ok s e → Step s e o t → view t = assign (view s) (sets e)

variable {Step : S → E → O → S → Prop} {Ok : S → E → Prop} {view : S → ∀ c, V c}
  {sets : E → ∀ c, Option (V c)} {s₀ s t : S} {h : List (E × O)}

/-- A step leaves the other cells alone. -/
theorem Stores.frame (hstores : Stores Step Ok view sets) {e : E} {o : O} (hok : Ok s e)
    (hstep : Step s e o t) {c : C} (hc : sets e c = none) : view t c = view s c := by
  rw [hstores s e o t hok hstep, assign_of_none hc]

/-- **The run rule**: in every state reached, a cell holds what was last set. -/
theorem Stores.view_eq_lastSet (hstores : Stores Step Ok view sets)
    (hr : Reach Step Ok s₀ h s) (c : C) :
    view s c = lastSet (fun e => sets e c) (view s₀ c) h := by
  induction hr with
  | start => rfl
  | next _ hok hstep ih => rw [hstores _ _ _ _ hok hstep, assign, lastSet_cons, ih]

end BareMetal
