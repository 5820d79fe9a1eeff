import Mathlib.Data.List.Sort
import Mathlib.Order.Bounds.Basic

/-!
# The greatest of a set, kept up to date

A selection names the greatest element of a set, and nothing when the set is
empty. It is kept up to date when an element comes in or when one that is not
selected goes out, and it can be made anew from a list of the elements. Made
either way it is the same, because a set has one selection only.

A selection that starts below some elements misses what is not above its
beginning: it names the greatest element, or it names none and missed all.
-/

namespace WbfMatrixClient

universe u v

/-- The selection from a set. -/
def Newest {α : Type u} [LE α] (s : Set α) : Option α → Prop
  | none => s = ∅
  | some x => IsGreatest s x

namespace Newest

variable {α : Type u} [LinearOrder α] {s : Set α} {o o' : Option α} {x y : α}

theorem unique (h : Newest s o) (h' : Newest s o') : o = o' := by
  cases o with
  | none =>
    cases o' with
    | none => rfl
    | some y =>
      have hmem : y ∈ s := h'.1
      rw [show s = ∅ from h] at hmem
      exact hmem.elim
  | some x =>
    cases o' with
    | none =>
      have hmem : x ∈ s := h.1
      rw [show s = ∅ from h'] at hmem
      exact hmem.elim
    | some y =>
      have hxy : IsGreatest s x := h
      rw [hxy.unique h']

theorem mem (h : Newest s (some x)) :
    x ∈ s := h.1

/-- An element that is greater than the selected one, or the first, is
selected. -/
theorem insert_newer (h : Newest s o) (hx : ∀ y, o = some y → y ≤ x) :
    Newest (insert x s) (some x) := by
  refine ⟨Set.mem_insert x s, ?_⟩
  rintro z (rfl | hz)
  · exact le_rfl
  · cases o with
    | none =>
      rw [show s = ∅ from h] at hz
      exact hz.elim
    | some y => exact (h.2 hz).trans (hx y rfl)

theorem insert_older (h : Newest s (some y)) (hx : x ≤ y) : Newest (insert x s) (some y) := by
  refine ⟨Set.mem_insert_of_mem x h.1, ?_⟩
  rintro z (rfl | hz)
  · exact hx
  · exact h.2 hz

/-- An element that is not selected may go. -/
theorem diff (h : Newest s o) (hx : o ≠ some x) : Newest (s \ {x}) o := by
  cases o with
  | none =>
    rw [show s = ∅ from h, Set.empty_sdiff]
    rfl
  | some y =>
    refine ⟨⟨h.1, fun hy => hx (by rw [Set.mem_singleton_iff.mp hy])⟩, ?_⟩
    rintro z ⟨hz, _⟩
    exact h.2 hz

end Newest

/-- The first element with a property, in a list sorted downwards, is the
selection from all elements with the property. -/
theorem newest_find? {ρ : Type v} {α : Type u} [LinearOrder α] {key : ρ → α} {p : ρ → Bool} :
    ∀ {rows : List ρ}, rows.Pairwise (fun a b => key b ≤ key a) →
      Newest {k | ∃ row ∈ rows, p row = true ∧ key row = k} ((rows.find? p).map key) := by
  intro rows
  induction rows with
  | nil =>
    intro _
    ext k
    simp
  | cons first rows ih =>
    intro hsorted
    obtain ⟨hfirst, hrows⟩ := List.pairwise_cons.mp hsorted
    cases hp : p first with
    | true =>
      rw [List.find?_cons_of_pos hp]
      refine ⟨⟨first, by simp, hp, rfl⟩, ?_⟩
      rintro k ⟨row, hrow, _, rfl⟩
      rcases List.mem_cons.mp hrow with rfl | hrow
      · exact le_rfl
      · exact hfirst row hrow
    | false =>
      rw [List.find?_cons_of_neg (by simp [hp])]
      have hsame : {k | ∃ row ∈ first :: rows, p row = true ∧ key row = k} =
          {k | ∃ row ∈ rows, p row = true ∧ key row = k} := by
        ext k
        constructor
        · rintro ⟨row, hrow, hrowp, hk⟩
          rcases List.mem_cons.mp hrow with rfl | hrow
          · rw [hp] at hrowp
            cases hrowp
          · exact ⟨row, hrow, hrowp, hk⟩
        · rintro ⟨row, hrow, hrest⟩
          exact ⟨row, List.mem_cons_of_mem _ hrow, hrest⟩
      rw [hsame]
      exact ih hrows

/-- The selection, or nothing while every element is one that was missed. -/
def NewestOrMissed {α : Type u} [LE α] (missed : α → Prop) (s : Set α) (o : Option α) : Prop :=
  Newest s o ∨ (o = none ∧ ∀ x ∈ s, missed x)

end WbfMatrixClient
