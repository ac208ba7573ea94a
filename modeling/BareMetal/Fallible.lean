import Mathlib.Tactic.TypeStar

/-!
# Computations that may fail

Code that returns early with an error, in the middle of changing a state, is a computation in
`ExceptT ε (StateM σ)` (`BareMetal.Fallible`): a failure keeps the state as it is by then.

`BareMetal.Ends m s Q E` says how `m` ends from the state `s`: with a value and a state as in `Q`,
or with a failure and a state as in `E`. The rules follow the computation
(`BareMetal.ends_bind` and the others, a simp set), and a rule of consequence puts what is known of
a part to use in the whole (`BareMetal.Ends.mono`, `BareMetal.Ends.bind`).

A property of the state that `m` keeps however it ends (`BareMetal.Keeps`) is shown part by part as
well, without saying what the parts do (`BareMetal.Keeps.bind` and the others), and so is one of the
values that `m` returns (`BareMetal.Returns`).
-/

namespace BareMetal

variable {σ ε α β : Type}

/-- A computation on a state that may fail. -/
abbrev Fallible (σ ε : Type) := ExceptT ε (StateM σ)

/-- The outcome from a state. -/
def Fallible.from (m : Fallible σ ε α) (s : σ) : Except ε α × σ := m.run.run s

/-- Do something under a condition. -/
def onlyIf (c : Prop) [Decidable c] (m : Fallible σ ε Unit) : Fallible σ ε Unit :=
  if c then m else pure ()

/-- Fail under a condition. -/
def failIf (c : Prop) [Decidable c] (e : ε) : Fallible σ ε Unit := onlyIf c (throw e)

/-- **How a computation ends** from a state. -/
def Ends (m : Fallible σ ε α) (s : σ) (Q : α → σ → Prop) (E : ε → σ → Prop) : Prop :=
  match m.from s with
  | (.ok a, s') => Q a s'
  | (.error e, s') => E e s'

section Rules

variable {m : Fallible σ ε α} {f : α → Fallible σ ε β} {s : σ} {Q Q' : α → σ → Prop}
  {R : β → σ → Prop} {E E' : ε → σ → Prop}

@[simp] theorem ends_pure (a : α) : Ends (pure a : Fallible σ ε α) s Q E ↔ Q a s := Iff.rfl

@[simp] theorem ends_throw (e : ε) : Ends (throw e : Fallible σ ε α) s Q E ↔ E e s := Iff.rfl

@[simp] theorem ends_bind :
    Ends (m >>= f) s R E ↔ Ends m s (fun a s' => Ends (f a) s' R E) E := by
  have hrun : (m >>= f).from s = match m.from s with
      | (.ok a, s') => (f a).from s'
      | (.error e, s') => (.error e, s') := by
    simp only [Fallible.from, ExceptT.run_bind, StateT.run_bind]
    cases m.run.run s with
    | mk r s' => cases r <;> rfl
  unfold Ends
  rw [hrun]
  cases m.from s with
  | mk r s' => cases r <;> rfl

@[simp] theorem ends_map (g : α → β) :
    Ends (g <$> m) s R E ↔ Ends m s (fun a s' => R (g a) s') E := by
  rw [map_eq_pure_bind, ends_bind]
  rfl

@[simp] theorem ends_get {Q : σ → σ → Prop} : Ends (get : Fallible σ ε σ) s Q E ↔ Q s s := Iff.rfl

@[simp] theorem ends_set (s' : σ) {Q : PUnit → σ → Prop} :
    Ends (set s' : Fallible σ ε PUnit) s Q E ↔ Q ⟨⟩ s' := Iff.rfl

@[simp] theorem ends_modify (g : σ → σ) {Q : PUnit → σ → Prop} :
    Ends (modify g : Fallible σ ε PUnit) s Q E ↔ Q ⟨⟩ (g s) := Iff.rfl

@[simp] theorem ends_onlyIf (c : Prop) [Decidable c] {m : Fallible σ ε Unit}
    {Q : Unit → σ → Prop} :
    Ends (onlyIf c m) s Q E ↔ (c → Ends m s Q E) ∧ (¬c → Q () s) := by
  unfold onlyIf
  split
  · rename_i hc
    exact ⟨fun h => ⟨fun _ => h, fun hn => absurd hc hn⟩, fun h => h.1 hc⟩
  · rename_i hc
    exact ⟨fun h => ⟨fun hn => absurd hn hc, fun _ => h⟩, fun h => h.2 hc⟩

@[simp] theorem ends_failIf (c : Prop) [Decidable c] (e : ε) {Q : Unit → σ → Prop} :
    Ends (failIf c e) s Q E ↔ (c → E e s) ∧ (¬c → Q () s) := ends_onlyIf c

/-- **Consequence.** -/
theorem Ends.mono (h : Ends m s Q E) (hQ : ∀ a s', Q a s' → Q' a s')
    (hE : ∀ e s', E e s' → E' e s') : Ends m s Q' E' := by
  unfold Ends at h ⊢
  split at h
  · exact hQ _ _ h
  · exact hE _ _ h

/-- A part, and what comes after it. -/
theorem Ends.bind (h : Ends m s Q E) (hQ : ∀ a s', Q a s' → Ends (f a) s' R E')
    (hE : ∀ e s', E e s' → E' e s') : Ends (m >>= f) s R E' :=
  ends_bind.mpr (h.mono hQ hE)

/-- Two things that are known of a computation. -/
theorem Ends.and (h : Ends m s Q E) (h' : Ends m s Q' E') :
    Ends m s (fun a s' => Q a s' ∧ Q' a s') (fun e s' => E e s' ∧ E' e s') := by
  unfold Ends at h h' ⊢
  split at h
  · rename_i heq
    rw [heq] at h'
    exact ⟨h, h'⟩
  · rename_i heq
    rw [heq] at h'
    exact ⟨h, h'⟩

/-- There is one outcome, so that whatever is known of it is known at once. -/
theorem ends_forall {ι : Sort*} {Q : ι → α → σ → Prop} {E : ι → ε → σ → Prop}
    (h : ∀ i, Ends m s (Q i) (E i)) :
    Ends m s (fun a s' => ∀ i, Q i a s') fun e s' => ∀ i, E i e s' := by
  unfold Ends at h ⊢
  split
  · rename_i heq
    rw [heq] at h
    exact h
  · rename_i heq
    rw [heq] at h
    exact h

end Rules

/-! ### What a computation keeps -/

/-- A computation **keeps** a property of the state. -/
def Keeps (P : σ → Prop) (m : Fallible σ ε α) : Prop :=
  ∀ s, P s → Ends m s (fun _ s' => P s') (fun _ s' => P s')

section Keeps

variable {P : σ → Prop} {m : Fallible σ ε α} {f : α → Fallible σ ε β} {c : Prop} [Decidable c]

theorem keeps_pure (a : α) : Keeps P (pure a : Fallible σ ε α) := fun _ hs => hs

theorem keeps_throw (e : ε) : Keeps P (throw e : Fallible σ ε α) := fun _ hs => hs

theorem Keeps.bind (hm : Keeps P m) (hf : ∀ a, Keeps P (f a)) : Keeps P (m >>= f) := fun s hs =>
  Ends.bind (hm s hs) (fun a s' hs' => hf a s' hs') fun _ _ hs' => hs'

theorem Keeps.map (hm : Keeps P m) (g : α → β) : Keeps P (g <$> m) := fun s hs =>
  (ends_map g).mpr (hm s hs)

/-- What is read is a state with the property. -/
theorem Keeps.get_bind {f : σ → Fallible σ ε β} (hf : ∀ s, P s → Keeps P (f s)) :
    Keeps P (get >>= f) := fun s hs => ends_bind.mpr (hf s hs s hs)

theorem keeps_set {s : σ} (hs : P s) : Keeps P (set s : Fallible σ ε PUnit) := fun _ _ => hs

theorem keeps_modify {g : σ → σ} (hg : ∀ s, P s → P (g s)) :
    Keeps P (modify g : Fallible σ ε PUnit) := fun s hs => hg s hs

theorem Keeps.ite {m m' : Fallible σ ε α} (hm : Keeps P m) (hm' : Keeps P m') :
    Keeps P (if c then m else m') := by
  split
  · exact hm
  · exact hm'

theorem Keeps.onlyIf {m : Fallible σ ε Unit} (hm : Keeps P m) : Keeps P (BareMetal.onlyIf c m) :=
  hm.ite (keeps_pure ())

theorem keeps_failIf (e : ε) : Keeps P (failIf c e) := (keeps_throw e).onlyIf

end Keeps

/-! ### What a computation returns -/

/-- Whatever a computation **returns** has a property, from whatever state. -/
def Returns (C : α → Prop) (m : Fallible σ ε α) : Prop := ∀ s, Ends m s (fun a _ => C a) fun _ _ => True

section Returns

variable {C : α → Prop} {D : β → Prop} {m : Fallible σ ε α} {f : α → Fallible σ ε β}

theorem returns_pure {a : α} (ha : C a) : Returns C (pure a : Fallible σ ε α) := fun _ => ha

/-- The last part says what is returned. -/
theorem Returns.of_bind (hf : ∀ a, Returns D (f a)) : Returns D (m >>= f) := by
  intro s
  rw [ends_bind]
  unfold Ends
  split
  · exact hf _ _
  · trivial

theorem Returns.map {g : α → β} (hm : Returns (fun a => D (g a)) m) : Returns D (g <$> m) :=
  fun s => (ends_map g).mpr (hm s)

theorem Returns.ite {c : Prop} [Decidable c] {m m' : Fallible σ ε α} (hm : c → Returns C m)
    (hm' : ¬c → Returns C m') : Returns C (if c then m else m') := by
  split
  · exact hm (by assumption)
  · exact hm' (by assumption)

end Returns

end BareMetal
