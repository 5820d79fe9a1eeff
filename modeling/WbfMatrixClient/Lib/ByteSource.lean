import Mathlib.Algebra.BigOperators.Group.List.Basic
import Mathlib.Data.List.Infix

/-!
# Reading from a position

A source is read by seeking to a position and reading until the buffer is full or nothing comes any
more. A read may give less than the buffer has room for, and every call may fail. Of a source that
gives what stands at its position, such a read gives the beginning of what stands at the position
that was sought.

The pieces of a range that are read one behind the other are the range, up to where they end.
-/

namespace WbfMatrixClient
namespace ByteSource

universe u v w

variable {α : Type u} {R : Type v} {ε : Type w}

section Positions

variable {whole xs ys : List α} {start position : Nat}

/-- What comes behind a part that stands at a position. -/
theorem append_isPrefix (hxs : xs <+: whole.drop position)
    (hys : ys <+: whole.drop (position + xs.length)) : xs ++ ys <+: whole.drop position := by
  obtain ⟨rest, hrest⟩ := hxs
  rw [← List.drop_drop, ← hrest, List.drop_left] at hys
  rw [← hrest]
  exact (List.prefix_append_right_inj xs).mpr hys

/-- A part that stands at a position, cut off at both ends. -/
theorem slice_isPrefix (hxs : xs <+: whole.drop start) (hstart : start ≤ position) (len : Nat) :
    (xs.take len).drop (position - start) <+: whole.drop position := by
  have hcut := List.IsPrefix.drop ((xs.take_prefix len).trans hxs) (position - start)
  rwa [List.drop_drop, Nat.add_sub_cancel' hstart] at hcut

/-- A part that stands at a position is as much of it as it is long. -/
theorem eq_take_of_isPrefix (hxs : xs <+: whole.drop position) :
    xs = (whole.drop position).take xs.length := List.prefix_iff_eq_take.mp hxs

end Positions

/-- What can be done with a source. -/
structure Source (α : Type u) (R : Type v) (ε : Type w) where
  seek : R → Nat → R × Except ε Unit
  read : R → Nat → R × Except ε (List α)

namespace Source

variable (source : Source α R ε)

/-- The buffer is filled until nothing comes. Every round that goes on fills a part of it. -/
def fill : (fuel : Nat) → R → (want : Nat) → (filled : List α) → R × Except ε (List α)
  | 0, r, _, filled => (r, .ok filled)
  | fuel + 1, r, want, filled =>
      if want ≤ filled.length then
        (r, .ok filled)
      else
        match source.read r (want - filled.length) with
        | (r, .error e) => (r, .error e)
        | (r, .ok []) => (r, .ok filled)
        | (r, .ok (x :: xs)) => fill fuel r want (filled ++ x :: xs)

def readAt (r : R) (position want : Nat) : R × Except ε (List α) :=
  match source.seek r position with
  | (r, .error e) => (r, .error e)
  | (r, .ok ()) => source.fill want r want []

/-- The source gives what stands at its position, which it keeps count of. -/
structure Faithful (whole : List α) (stands : R → Nat → Prop) : Prop where
  seek : ∀ {r p}, stands r p → ∀ q,
    (∃ p', stands (source.seek r q).1 p') ∧
      ((source.seek r q).2 = .ok () → stands (source.seek r q).1 q)
  read : ∀ {r p}, stands r p → ∀ len,
    (∃ p', stands (source.read r len).1 p') ∧
      ∀ xs, (source.read r len).2 = .ok xs →
        xs.length ≤ len ∧ xs <+: whole.drop p ∧ stands (source.read r len).1 (p + xs.length)

section Faithful

variable {source : Source α R ε} {whole : List α} {stands : R → Nat → Prop}

/-- What is in the buffer stands at the position, and the source stands behind it. -/
theorem Faithful.fill (h : source.Faithful whole stands) {start want : Nat} :
    ∀ (fuel : Nat) {r : R} {filled : List α},
      stands r (start + filled.length) → filled <+: whole.drop start → filled.length ≤ want →
      (∃ p, stands (source.fill fuel r want filled).1 p) ∧
        ∀ xs, (source.fill fuel r want filled).2 = .ok xs →
          xs.length ≤ want ∧ xs <+: whole.drop start := by
  intro fuel
  induction fuel with
  | zero =>
    intro r filled hr hfilled hle
    refine ⟨⟨_, hr⟩, fun xs hxs => ?_⟩
    cases hxs
    exact ⟨hle, hfilled⟩
  | succ fuel ih =>
    intro r filled hr hfilled hle
    rw [Source.fill]
    by_cases hfull : want ≤ filled.length
    · rw [if_pos hfull]
      refine ⟨⟨_, hr⟩, fun xs hxs => ?_⟩
      cases hxs
      exact ⟨hle, hfilled⟩
    · rw [if_neg hfull]
      obtain ⟨hafter, hread⟩ := h.read hr (want - filled.length)
      generalize source.read r (want - filled.length) = result at hafter hread
      obtain ⟨r', got⟩ := result
      cases got with
      | error e => exact ⟨hafter, fun _ hxs => by cases hxs⟩
      | ok got =>
        cases got with
        | nil =>
          refine ⟨hafter, fun xs hxs => ?_⟩
          cases hxs
          exact ⟨hle, hfilled⟩
        | cons x xs =>
          obtain ⟨hlen, hbegins, hstands⟩ := hread (x :: xs) rfl
          refine ih ?_ (append_isPrefix hfilled hbegins) ?_
          · rw [List.length_append, ← Nat.add_assoc]
            exact hstands
          · rw [List.length_append]
            omega

/-- A read from a position gives the beginning of what stands there. -/
theorem Faithful.readAt (h : source.Faithful whole stands) {r : R} {p : Nat} (hr : stands r p)
    (position want : Nat) :
    (∃ p', stands (source.readAt r position want).1 p') ∧
      ∀ xs, (source.readAt r position want).2 = .ok xs →
        xs.length ≤ want ∧ xs <+: whole.drop position := by
  obtain ⟨hafter, hsought⟩ := h.seek hr position
  rw [Source.readAt]
  generalize source.seek r position = sought at hafter hsought
  obtain ⟨r', result⟩ := sought
  cases result with
  | error e => exact ⟨hafter, fun _ hxs => by cases hxs⟩
  | ok done => exact h.fill want (hsought rfl) List.nil_prefix (Nat.zero_le _)

end Faithful

end Source

/-- The pieces that were given, one behind the other, from a start up to a position. -/
structure Gathered (whole : List α) (start position : Nat) (given : List (List α)) : Prop where
  nonempty : ∀ piece ∈ given, piece ≠ []
  length_eq : start + given.flatten.length = position
  isPrefix : given.flatten <+: whole.drop start

section Gathered

variable {whole : List α} {start position : Nat} {given : List (List α)} {piece : List α}

theorem gathered_nil (whole : List α) (start : Nat) :
    Gathered whole start start [] where
  nonempty := fun _ hpiece => by cases hpiece
  length_eq := rfl
  isPrefix := List.nil_prefix

section

variable (h : Gathered whole start position given)

include h

theorem Gathered.snoc (hne : piece ≠ []) (hpiece : piece <+: whole.drop position) :
    Gathered whole start (position + piece.length) (given ++ [piece]) where
  nonempty := by
    intro other hother
    rcases List.mem_append.mp hother with hother | hother
    · exact h.nonempty other hother
    · rw [List.mem_singleton.mp hother]
      exact hne
  length_eq := by
    rw [List.flatten_append, List.flatten_singleton, List.length_append, ← h.length_eq,
      Nat.add_assoc]
  isPrefix := by
    rw [List.flatten_append, List.flatten_singleton]
    rw [← h.length_eq] at hpiece
    exact append_isPrefix h.isPrefix hpiece

/-- What was given is the range up to the position. -/
theorem Gathered.flatten_eq : given.flatten = (whole.drop start).take (position - start) := by
  have hlen : position - start = given.flatten.length := by
    rw [← h.length_eq, Nat.add_sub_cancel_left]
  rw [hlen]
  exact eq_take_of_isPrefix h.isPrefix

/-- Nothing is given from behind the end. -/
theorem Gathered.position_le (hlt : start < position) : position ≤ whole.length := by
  have hlen := h.isPrefix.length_le
  rw [List.length_drop] at hlen
  have hsum := h.length_eq
  omega

/-- There are not more pieces than bytes. -/
theorem Gathered.length_le : given.length ≤ position - start := by
  have hsum : (given.map List.length).length ≤ (given.map List.length).sum := by
    refine List.length_le_sum_of_one_le _ fun len hlen => ?_
    obtain ⟨piece, hpiece, rfl⟩ := List.mem_map.mp hlen
    exact List.length_pos_of_ne_nil (h.nonempty piece hpiece)
  have hlength := h.length_eq
  rw [List.length_map, ← List.length_flatten] at hsum
  omega

end

end Gathered

end ByteSource
end WbfMatrixClient
