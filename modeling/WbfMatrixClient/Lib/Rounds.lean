import Mathlib.Order.Basic

/-!
# Loops that may end

A loop is given by one of its rounds: from a state it goes on with another state, or it ends with
a result. Whatever decides between the two may come from outside, so a loop need not end. A
measure that every round makes smaller ends it, an invariant under which every round goes on keeps
it from ending, and what the rounds keep is there when it returns.
-/

namespace WbfMatrixClient
namespace Rounds

universe u v

/-- What a round comes to. -/
inductive Round (σ : Type u) (ρ : Type v) where
  | again (s : σ)
  | ends (result : ρ)

variable {σ : Type u} {ρ : Type v}

/-- What has become of the loop after so many rounds. -/
def after (round : σ → Round σ ρ) (s : σ) : Nat → Round σ ρ
  | 0 => .again s
  | n + 1 =>
      match after round s n with
      | .again s => round s
      | .ends result => .ends result

def Returns (round : σ → Round σ ρ) (s : σ) (result : ρ) : Prop :=
  ∃ n, after round s n = .ends result

def Ends (round : σ → Round σ ρ) (s : σ) : Prop :=
  ∃ result, Returns round s result

section Rounds

variable {round : σ → Round σ ρ} {s s' : σ} {result result' : ρ}

/-- The first round is taken off instead of the last one. -/
theorem after_succ (n : Nat) :
    after round s (n + 1) =
      match round s with
      | .again s => after round s n
      | .ends result => .ends result := by
  induction n with
  | zero =>
    show round s = _
    cases round s <;> rfl
  | succ n ih =>
    rw [after, ih]
    cases round s <;> rfl

theorem returns_of_ends (h : round s = .ends result) :
    Returns round s result := ⟨1, h⟩

theorem returns_of_again (hround : round s = .again s') (h : Returns round s' result) :
    Returns round s result := by
  obtain ⟨n, hn⟩ := h
  refine ⟨n + 1, ?_⟩
  rw [after_succ, hround]
  exact hn

section Invariants

variable (inv : σ → Prop) (hstep : ∀ s s', inv s → round s = .again s' → inv s')

include hstep

/-- What every round keeps is there after every number of rounds. -/
theorem after_invariant (hs : inv s) (n : Nat) (h : after round s n = .again s') : inv s' := by
  induction n generalizing s' with
  | zero =>
    cases h
    exact hs
  | succ n ih =>
    rw [after] at h
    cases hbefore : after round s n with
    | again before =>
      rw [hbefore] at h
      exact hstep before s' (ih hbefore) h
    | ends found =>
      rw [hbefore] at h
      cases h

/-- A loop returns what a round of it gives that begins with the invariant. -/
theorem returns_invariant (post : ρ → Prop)
    (hend : ∀ s result, inv s → round s = .ends result → post result) (hs : inv s)
    (h : Returns round s result) : post result := by
  obtain ⟨n, hn⟩ := h
  induction n with
  | zero => cases hn
  | succ n ih =>
    rw [after] at hn
    cases hbefore : after round s n with
    | again before =>
      rw [hbefore] at hn
      exact hend before result (after_invariant inv hstep hs n hbefore) hn
    | ends found =>
      rw [hbefore] at hn
      cases hn
      exact ih hbefore

end Invariants

/-- A loop that always has a next round does not end. -/
theorem not_ends (inv : σ → Prop) (hnext : ∀ s, inv s → ∃ s', round s = .again s' ∧ inv s')
    (hs : inv s) : ¬Ends round s := by
  rintro ⟨result, hreturns⟩
  refine returns_invariant inv (fun s s' hs hround => ?_) (fun _ => False)
    (fun s result hs hround => ?_) hs hreturns
  · obtain ⟨next, hagain, hnext⟩ := hnext s hs
    rw [hagain] at hround
    cases hround
    exact hnext
  · obtain ⟨next, hagain, -⟩ := hnext s hs
    rw [hagain] at hround
    cases hround

/-- A loop whose rounds make a measure smaller ends. -/
theorem ends_of_measure (inv : σ → Prop) (measure : σ → Nat)
    (hstep : ∀ s s', inv s → round s = .again s' → inv s' ∧ measure s' < measure s) (hs : inv s) :
    Ends round s := by
  induction hm : measure s using Nat.strongRecOn generalizing s with
  | ind m ih =>
    cases hround : round s with
    | ends result => exact ⟨result, returns_of_ends hround⟩
    | again s' =>
      obtain ⟨hs', hless⟩ := hstep s s' hs hround
      obtain ⟨result, hreturns⟩ := ih (measure s') (by omega) hs' rfl
      exact ⟨result, returns_of_again hround hreturns⟩

end Rounds

end Rounds
end WbfMatrixClient
