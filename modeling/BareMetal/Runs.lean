import Mathlib.Logic.Function.Iterate
import Mathlib.Logic.Relation

/-!
# Runs of a step system

Everything below is about code that is called again and again – by four cores, by an
interrupt, by the application – and most of what is said about it is said of *every*
state such a history of calls can reach. This file is the vocabulary for that, over an
arbitrary type of states, of events and of results.

`BareMetal.Reach` is reachability **with its history**: the list of the events that led to
a state, each with the result it returned, the newest first. The history is what a
property such as “this descriptor was handed out and has not been closed since” is a
function of, so that nothing has to be smuggled into the state for its sake.

A run may be **guarded**: a predicate on the state before a step and on the event has to
hold at every step. The unguarded runs are the ones whose guard is
`BareMetal.Always`. What a step preserves holds of all runs (`BareMetal.Reach.invariant`), and
what matches a step of another system matches its runs (`BareMetal.Reach.simulated`).

Where a step is a function (`BareMetal.fnStep`), a history is computed from the list of
its events (`BareMetal.runFn`) and is a run as soon as the guard holds along it
(`BareMetal.reach_runFn`): this is how concrete histories are exhibited. A machine whose step
needs no event is a function on its states, and what is said of it is what it gets to
(`BareMetal.GetsTo`), loop by loop (`BareMetal.GetsTo.countdown`).
-/

namespace BareMetal

variable {S E O : Type*}

/-! ### Reachability with its history -/

/-- **Reachability.** `Reach Step Ok s₀ h s`: from `s₀`, steps whose guard `Ok` held in the
state before them lead to `s`, and `h` lists the events and their results, the newest
first. -/
inductive Reach (Step : S → E → O → S → Prop) (Ok : S → E → Prop) (s₀ : S) :
    List (E × O) → S → Prop
  /-- Nothing has happened yet. -/
  | start : Reach Step Ok s₀ [] s₀
  /-- One more event. -/
  | next {h : List (E × O)} {s : S} {e : E} {o : O} {t : S} :
      Reach Step Ok s₀ h s → Ok s e → Step s e o t → Reach Step Ok s₀ ((e, o) :: h) t

/-- The guard of a run that is free to do anything. -/
def Always : S → E → Prop := fun _ _ => True

variable {Step : S → E → O → S → Prop} {Ok Ok' : S → E → Prop} {s₀ : S}

/-- **The invariant rule**: what holds at the start and survives every guarded step holds
of every state reached, together with its history. -/
theorem Reach.invariant (Inv : List (E × O) → S → Prop) (hstart : Inv [] s₀)
    (hnext : ∀ h s e o t, Inv h s → Ok s e → Step s e o t → Inv ((e, o) :: h) t)
    {h : List (E × O)} {s : S} (hr : Reach Step Ok s₀ h s) : Inv h s := by
  induction hr with
  | start => exact hstart
  | next _ hg hstep ih => exact hnext _ _ _ _ _ ih hg hstep

/-- **The simulation rule**: where every guarded step of a system is matched by one step of
another, or by none, each state reached has a counterpart that the other system reaches. -/
theorem Reach.simulated {T F P : Type*} {Step' : T → F → P → T → Prop} {Ok' : T → F → Prop} {t₀ : T}
    (Sim : S → T → Prop) (hstart : Sim s₀ t₀)
    (hnext : ∀ s t e o s', Sim s t → Ok s e → Step s e o s' →
      Sim s' t ∨ ∃ f p t', Ok' t f ∧ Step' t f p t' ∧ Sim s' t')
    {h : List (E × O)} {s : S} (hr : Reach Step Ok s₀ h s) :
    ∃ h' t, Reach Step' Ok' t₀ h' t ∧ Sim s t := by
  induction hr with
  | start => exact ⟨[], t₀, .start, hstart⟩
  | next _ hg hstep ih =>
    obtain ⟨h', t, hreach, hsim⟩ := ih
    rcases hnext _ t _ _ _ hsim hg hstep with hstay | ⟨f, p, t', hok, hmove, hsim'⟩
    · exact ⟨h', t, hreach, hstay⟩
    · exact ⟨_, t', hreach.next hok hmove, hsim'⟩

/-! ### What a history says -/

/-- What one kind of result says in a history, the oldest first. -/
def logOf {α : Type*} (f : O → Option α) : List (E × O) → List α
  | [] => []
  | (_, o) :: h => logOf f h ++ (f o).toList

/-! ### A machine that runs by itself -/

/-- From a state, a machine **gets to** one with a property. -/
def GetsTo (f : S → S) (s : S) (Q : S → Prop) : Prop := ∃ n, Q (f^[n] s)

section GetsTo

variable {f : S → S} {s : S} {P Q : S → Prop}

theorem GetsTo.of_now (h : Q s) : GetsTo f s Q := ⟨0, h⟩

/-- One way after another. -/
theorem GetsTo.trans (h : GetsTo f s P) (hnext : ∀ t, P t → GetsTo f t Q) : GetsTo f s Q := by
  obtain ⟨m, hm⟩ := h
  obtain ⟨n, hn⟩ := hnext _ hm
  exact ⟨n + m, by rwa [Function.iterate_add_apply]⟩

/-- A straight piece first. -/
theorem GetsTo.of_iterate {n : ℕ} {t : S} (h : f^[n] s = t) (hnext : GetsTo f t Q) :
    GetsTo f s Q := by
  obtain ⟨m, hm⟩ := hnext
  exact ⟨m + n, by rwa [Function.iterate_add_apply, h]⟩

/-- **The rule for a loop that counts down**: if each round leads from a count to the next lower
one, the loop leads from any count to the end. -/
theorem GetsTo.countdown {Inv : ℕ → S → Prop}
    (hround : ∀ k t, Inv (k + 1) t → GetsTo f t (Inv k)) {k : ℕ} (h : Inv k s) :
    GetsTo f s (Inv 0) := by
  induction k generalizing s with
  | zero => exact .of_now h
  | succ k ih => exact (hround k s h).trans fun t ht => ih ht

end GetsTo

/-! ### Steps that are functions -/

/-- The step relation of a function: the event determines the result and the next
state. -/
def fnStep (f : S → E → O × S) : S → E → O → S → Prop := fun s e o t => f s e = (o, t)

/-- The invariant rule for a step that is a function. -/
theorem Reach.fnInvariant {f : S → E → O × S} (Inv : List (E × O) → S → Prop) (hstart : Inv [] s₀)
    (hnext : ∀ h s e, Inv h s → Ok s e → Inv ((e, (f s e).1) :: h) (f s e).2)
    {h : List (E × O)} {s : S} (hr : Reach (fnStep f) Ok s₀ h s) : Inv h s := by
  refine hr.invariant Inv hstart ?_
  rintro h s e o t hinv hok hstep
  have hnew := hnext h s e hinv hok
  rwa [show f s e = (o, t) from hstep] at hnew

/-- The history and the last state of a list of events, the oldest first. -/
def runFn (f : S → E → O × S) (h : List (E × O)) (s : S) : List E → List (E × O) × S
  | [] => (h, s)
  | e :: es => runFn f ((e, (f s e).1) :: h) (f s e).2 es

/-- The guard holds along a list of events. -/
def OkAlong (f : S → E → O × S) (Ok : S → E → Prop) (s : S) : List E → Prop
  | [] => True
  | e :: es => Ok s e ∧ OkAlong f Ok (f s e).2 es

theorem Reach.runFn {f : S → E → O × S} {es : List E} {h : List (E × O)} {s : S}
    (hr : Reach (fnStep f) Ok s₀ h s) (hok : OkAlong f Ok s es) :
    Reach (fnStep f) Ok s₀ (runFn f h s es).1 (runFn f h s es).2 := by
  induction es generalizing h s with
  | nil => exact hr
  | cons e es ih => exact ih (hr.next hok.1 rfl) hok.2

/-- **A computed history is a run.** -/
theorem reach_runFn {f : S → E → O × S} {es : List E} (hok : OkAlong f Ok s₀ es) :
    Reach (fnStep f) Ok s₀ (BareMetal.runFn f [] s₀ es).1 (BareMetal.runFn f [] s₀ es).2 :=
  Reach.start.runFn hok

theorem okAlong_always {f : S → E → O × S} {es : List E} {s : S} : OkAlong f Always s es := by
  induction es generalizing s with
  | nil => trivial
  | cons e es ih => exact ⟨trivial, ih⟩

end BareMetal
