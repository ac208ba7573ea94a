import Mathlib.Data.List.Nodup
import Mathlib.Logic.Function.Basic

/-!
# Linked lists in a table

A table says of every node which node comes next, or that there is none. What is stored in such a
table is a number of lists, each given by its first node. This file is about an arbitrary type of
table values, of which some are **nodes** and some mark the **end** of a list.

`BareMetal.Links next v l u` says that from the value `v` the table leads through the nodes of `l`
to the value `u`. It composes (`BareMetal.links_append`), and depends on the entries of `l` only
(`BareMetal.Links.congr`). A list that leads to an end (`BareMetal.Linked`) is determined by where it
begins (`BareMetal.Linked.unique`) and therefore passes no node twice (`BareMetal.Linked.nodup`). It can be
stretched by a new node and cut off behind any of its nodes (`BareMetal.Linked.stretch`,
`BareMetal.Linked.cut`).

Several lists **share** a table if none has a node of another (`BareMetal.Shared`). To change one of
them in the table is to leave the entries of the others and to use no node of theirs
(`BareMetal.Shared.replace`).
-/

namespace BareMetal

variable {α : Type*} {next next' : α → α} {Node End : α → Prop} {u v a n : α} {l l' xs ys : List α}

/-! ### One list -/

/-- From the value `v` the table leads through `l` to `u`. -/
def Links (next : α → α) : α → List α → α → Prop
  | v, [], u => v = u
  | v, a :: l, u => v = a ∧ Links next (next a) l u

theorem links_append :
    Links next v (xs ++ ys) u ↔ ∃ m, Links next v xs m ∧ Links next m ys u := by
  induction xs generalizing v with
  | nil => simp [Links]
  | cons a xs ih => simp [Links, ih, and_assoc]

/-- Only the entries of the list matter. -/
theorem Links.congr (h : Links next v l u) (heq : ∀ a ∈ l, next' a = next a) :
    Links next' v l u := by
  induction l generalizing v with
  | nil => exact h
  | cons a l ih =>
    refine ⟨h.1, ?_⟩
    rw [heq a List.mem_cons_self]
    exact ih h.2 fun b hb => heq b (List.mem_cons_of_mem a hb)

/-- **A list in the table**: it begins at a value, its members are nodes, and it leads to an end. -/
structure Linked (next : α → α) (Node End : α → Prop) (v : α) (l : List α) : Prop where
  links : ∃ u, End u ∧ Links next v l u
  nodes : ∀ a ∈ l, Node a

theorem Linked.congr (h : Linked next Node End v l) (heq : ∀ a ∈ l, next' a = next a) :
    Linked next' Node End v l := by
  obtain ⟨u, hu, hlinks⟩ := h.links
  exact ⟨⟨u, hu, hlinks.congr heq⟩, h.nodes⟩

/-- The rest of a list. -/
theorem Linked.tail (h : Linked next Node End v (a :: l)) : Linked next Node End (next a) l := by
  obtain ⟨u, hu, -, hlinks⟩ := h.links
  exact ⟨⟨u, hu, hlinks⟩, fun b hb => h.nodes b (List.mem_cons_of_mem a hb)⟩

theorem Linked.head (h : Linked next Node End v (a :: l)) : v = a := by
  obtain ⟨u, -, hv, -⟩ := h.links
  exact hv

theorem Linked.eq_of_mem_head? (h : Linked next Node End v l) (ha : a ∈ l.head?) : v = a := by
  cases l with
  | nil => simp at ha
  | cons b l =>
    rw [h.head]
    simpa using ha

/-- The list behind some of its nodes. -/
theorem Linked.drop (h : Linked next Node End v (xs ++ ys)) :
    ∃ m, Links next v xs m ∧ Linked next Node End m ys := by
  obtain ⟨u, hu, hlinks⟩ := h.links
  obtain ⟨m, hxs, hys⟩ := links_append.mp hlinks
  exact ⟨m, hxs, ⟨u, hu, hys⟩, fun b hb => h.nodes b (List.mem_append_right xs hb)⟩

theorem Linked.of_links {m : α} (hxs : Links next v xs m) (hnodes : ∀ a ∈ xs, Node a)
    (h : Linked next Node End m ys) : Linked next Node End v (xs ++ ys) := by
  obtain ⟨u, hu, hys⟩ := h.links
  refine ⟨⟨u, hu, links_append.mpr ⟨m, hxs, hys⟩⟩, fun b hb => ?_⟩
  rcases List.mem_append.mp hb with hb | hb
  · exact hnodes b hb
  · exact h.nodes b hb

/-- What follows a node in the list: the next node, or an end. -/
theorem Linked.next_eq (h : Linked next Node End v (xs ++ a :: ys)) :
    (∀ b ∈ ys.head?, next a = b) ∧ (ys = [] → End (next a)) := by
  obtain ⟨m, -, hrest⟩ := h.drop
  obtain ⟨u, hu, hlinks⟩ := hrest.tail.links
  cases ys with
  | nil =>
    rw [show next a = u from hlinks]
    exact ⟨fun b hb => by simp at hb, fun _ => hu⟩
  | cons b ys =>
    exact ⟨fun c hc => by rw [hlinks.1]; simpa using hc, fun hnil => by cases hnil⟩

/-- The nodes by their numbers. -/
theorem Linked.next_getElem (h : Linked next Node End v l) {i : ℕ} (hi : i + 1 < l.length) :
    next l[i] = l[i + 1] := by
  have hsplit : l.take i ++ l[i] :: l.drop (i + 1) = l := by
    rw [← List.drop_eq_getElem_cons, List.take_append_drop]
  rw [← hsplit] at h
  refine h.next_eq.1 _ ?_
  rw [List.head?_drop, List.getElem?_eq_getElem hi]
  rfl

/-- What follows a node is a node or an end. -/
theorem Linked.next_or (h : Linked next Node End v l) (ha : a ∈ l) :
    Node (next a) ∨ End (next a) := by
  obtain ⟨xs, ys, rfl⟩ := List.append_of_mem ha
  obtain ⟨hnext, hend⟩ := h.next_eq
  cases ys with
  | nil => exact Or.inr (hend rfl)
  | cons b ys =>
    rw [hnext b (by simp)]
    exact Or.inl (h.nodes b (by simp))

section Ends

variable (hends : ∀ u, End u → ¬Node u)

include hends

/-- **A list is determined by where it begins.** -/
theorem Linked.unique (h : Linked next Node End v l) (h' : Linked next Node End v l') : l = l' := by
  induction l generalizing v l' with
  | nil =>
    obtain ⟨u, hu, rfl⟩ := h.links
    cases l' with
    | nil => rfl
    | cons b l' =>
      -- the end would be a node
      have hb := h'.nodes b List.mem_cons_self
      rw [← h'.head] at hb
      exact absurd hb (hends v hu)
  | cons a l ih =>
    obtain rfl := h.head
    cases l' with
    | nil =>
      obtain ⟨u, hu, rfl⟩ := h'.links
      exact absurd (h.nodes v List.mem_cons_self) (hends v hu)
    | cons b l' =>
      obtain rfl := h'.head
      rw [ih h.tail h'.tail]

/-- **A list passes no node twice**: it would begin again and never end. -/
theorem Linked.nodup (h : Linked next Node End v l) : l.Nodup := by
  induction l generalizing v with
  | nil => exact List.nodup_nil
  | cons a l ih =>
    refine List.nodup_cons.mpr ⟨fun hmem => ?_, ih h.tail⟩
    obtain ⟨xs, ys, rfl⟩ := List.append_of_mem hmem
    obtain ⟨m, -, hagain⟩ := h.tail.drop
    obtain rfl := hagain.head
    obtain rfl := h.head
    have hsame := Linked.unique hends h hagain
    have hlen := congrArg List.length hsame
    simp only [List.length_cons, List.length_append] at hlen
    omega

end Ends

/-- A list of one node. -/
theorem Linked.single (hnode : Node n) (hend : End (next n)) : Linked next Node End n [n] :=
  ⟨⟨next n, hend, rfl, rfl⟩, by simpa using hnode⟩

/-- **A list is stretched**: a new node that is marked as an end is linked from the last one. -/
theorem Linked.stretch (h : Linked next Node End v (xs ++ [a])) (hold : ∀ b ∈ xs, next' b = next b)
    (hlink : next' a = n) (hnode : Node n) (hend : End (next' n)) :
    Linked next' Node End v (xs ++ [a] ++ [n]) := by
  obtain ⟨m, hxs, hlast⟩ := h.drop
  obtain rfl := hlast.head
  have hlinks : Links next' v (xs ++ [m]) n := links_append.mpr ⟨m, hxs.congr hold, rfl, hlink⟩
  exact Linked.of_links hlinks h.nodes (Linked.single hnode hend)

/-- **A list is cut off** behind a node that is marked as an end. -/
theorem Linked.cut (h : Linked next Node End v (xs ++ a :: ys)) (hold : ∀ b ∈ xs, next' b = next b)
    (hend : End (next' a)) : Linked next' Node End v (xs ++ [a]) := by
  obtain ⟨m, hxs, hrest⟩ := h.drop
  obtain rfl := hrest.head
  exact Linked.of_links (hxs.congr hold) (fun b hb => h.nodes b (List.mem_append_left _ hb))
    (Linked.single (hrest.nodes m List.mem_cons_self) hend)

/-! ### Several lists -/

/-- Lists **share** a table: each is in the table, from its first node on, and no two of them have
a node in common. -/
structure Shared {ι : Type*} (next : α → α) (Node End : α → Prop) (own : ι → List α) : Prop where
  linked : ∀ i, ∀ a ∈ (own i).head?, Linked next Node End a (own i)
  apart : ∀ i j, i ≠ j → ∀ a ∈ own i, a ∉ own j

section Shared

variable {ι : Type*} {own : ι → List α} {i j : ι}

theorem Shared.nodes (h : Shared next Node End own) (ha : a ∈ own i) : Node a := by
  cases hl : own i with
  | nil =>
    rw [hl] at ha
    cases ha
  | cons b l =>
    have hlinked := h.linked i b (by simp [hl])
    exact hlinked.nodes a ha

/-- The entry of a node that is in use is a node or an end. -/
theorem Shared.next_or (h : Shared next Node End own) (ha : a ∈ own i) :
    Node (next a) ∨ End (next a) := by
  cases hl : own i with
  | nil =>
    rw [hl] at ha
    cases ha
  | cons b l =>
    have hlinked := h.linked i b (by simp [hl])
    exact hlinked.next_or ha

/-- **One list is replaced**: the entries of the others stay, and its new nodes are not theirs. -/
theorem Shared.replace [DecidableEq ι] (h : Shared next Node End own)
    (hold : ∀ j, j ≠ i → ∀ a ∈ own j, next' a = next a)
    (hnew : ∀ a ∈ l.head?, Linked next' Node End a l)
    (hapart : ∀ j, j ≠ i → ∀ a ∈ l, a ∉ own j) :
    Shared next' Node End (Function.update own i l) := by
  constructor
  · intro j a ha
    by_cases hj : j = i
    · subst hj
      rw [Function.update_self] at ha ⊢
      exact hnew a ha
    · rw [Function.update_of_ne hj] at ha ⊢
      exact (h.linked j a ha).congr (hold j hj)
  · intro j k hjk a ha
    by_cases hj : j = i
    · subst hj
      rw [Function.update_self] at ha
      rw [Function.update_of_ne hjk.symm]
      exact hapart k hjk.symm a ha
    · rw [Function.update_of_ne hj] at ha
      by_cases hk : k = i
      · subst hk
        rw [Function.update_self]
        exact fun hmem => hapart j hj a hmem ha
      · rw [Function.update_of_ne hk]
        exact h.apart j k hjk a ha

end Shared

end BareMetal
