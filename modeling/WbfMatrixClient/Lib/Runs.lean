import Mathlib.Data.List.Basic

/-!
# Runs of a step function

A system that takes one labelled step after another is given here by its step
function alone: σ is the state, ι the label, and a run is the left fold of the
step function over the list of labels. The section packages the inductions
that every development over such a system repeats: an invariant of one step is
an invariant of every run, a guard on the labels may be assumed along a run,
and a relation kept by paired steps is kept by paired runs.
-/

namespace WbfMatrixClient
namespace Runs

universe u v w x y

section Runs

variable {σ : Type u} {ι : Type v} {τ : Type w} {κ : Type x}

/-- The state after the labels have been taken in order. -/
def run (step : σ → ι → σ) (s : σ) (labels : List ι) : σ :=
  labels.foldl step s

@[simp] theorem run_nil (step : σ → ι → σ) (s : σ) :
    run step s [] = s := rfl

@[simp] theorem run_cons (step : σ → ι → σ) (s : σ) (i : ι) (labels : List ι) :
    run step s (i :: labels) = run step (step s i) labels := rfl

@[simp] theorem run_append (step : σ → ι → σ) (s : σ) (first second : List ι) :
    run step s (first ++ second) = run step (run step s first) second := by simp [run]

variable {step : σ → ι → σ}

/-- An invariant of every guarded step is an invariant of every guarded run. -/
theorem run_invariant_of_guard (guard : ι → Prop) (inv : σ → Prop)
    (hstep : ∀ s i, guard i → inv s → inv (step s i)) :
    ∀ (labels : List ι) (s : σ),
      (∀ i ∈ labels, guard i) → inv s → inv (run step s labels) := by
  intro labels
  induction labels with
  | nil =>
    intro s _ hs
    simpa using hs
  | cons i labels ih =>
    intro s hguard hs
    have hnext : inv (step s i) := hstep s i (hguard i (by simp)) hs
    have hrest : ∀ j ∈ labels, guard j := fun j hj => hguard j (by simp [hj])
    simpa using ih (step s i) hrest hnext

/-- An invariant of every step is an invariant of every run. -/
theorem run_invariant (inv : σ → Prop) (hstep : ∀ s i, inv s → inv (step s i)) (labels : List ι)
    (s : σ) (hs : inv s) :
    inv (run step s labels) :=
  run_invariant_of_guard (fun _ => True) inv
    (fun s i _ h => hstep s i h) labels s (by simp) hs

/-- A reflexive and transitive relation kept by every step relates the ends of
every run. -/
theorem run_relates {r : σ → σ → Prop} (hrefl : ∀ s, r s s)
    (htrans : ∀ a b c, r a b → r b c → r a c) (hstep : ∀ s i, r s (step s i)) :
    ∀ (labels : List ι) (s : σ), r s (run step s labels) := by
  intro labels
  induction labels with
  | nil =>
    intro s
    exact hrefl s
  | cons i labels ih =>
    intro s
    exact htrans _ _ _ (hstep s i) (ih (step s i))

/-- The labels that the steps of a run put out for another system. -/
def outputs {ω : Type y} (step : σ → ι → σ) (out : σ → ι → List ω) : σ → List ι → List ω
  | _, [] => []
  | s, i :: labels => out s i ++ outputs step out (step s i) labels

/-- A relation that each step keeps with what it puts out relates the two ends of every run. -/
theorem run_outputs {ω : Type y} {step' : τ → ω → τ} {out : σ → ι → List ω} {r : σ → τ → Prop}
    (hstep : ∀ s t i, r s t → r (step s i) (run step' t (out s i))) (labels : List ι) {s : σ}
    {t : τ} (h : r s t) : r (run step s labels) (run step' t (outputs step out s labels)) := by
  induction labels generalizing s t with
  | nil => exact h
  | cons i labels ih =>
    rw [run_cons, outputs, run_append]
    exact ih (hstep s t i h)

/-- A condition on every step of a run, given the state before the step. -/
def Along (step : σ → ι → σ) (cond : σ → ι → Prop) : σ → List ι → Prop
  | _, [] => True
  | s, i :: labels => cond s i ∧ Along step cond (step s i) labels

instance Along.decidable
    {step : σ → ι → σ} {cond : σ → ι → Prop}
    [∀ s i, Decidable (cond s i)] :
    ∀ (s : σ) (labels : List ι), Decidable (Along step cond s labels)
  | _, [] => inferInstanceAs (Decidable True)
  | s, i :: labels =>
      haveI : Decidable (Along step cond (step s i) labels) := Along.decidable (step s i) labels
      inferInstanceAs (Decidable (cond s i ∧ Along step cond (step s i) labels))

variable {cond : σ → ι → Prop} {s : σ}

theorem Along.and {cond' : σ → ι → Prop} {labels : List ι} (h : Along step cond s labels)
    (h' : Along step cond' s labels) : Along step (fun s i => cond s i ∧ cond' s i) s labels := by
  induction labels generalizing s with
  | nil => trivial
  | cons i labels ih => exact ⟨⟨h.1, h'.1⟩, ih h.2 h'.2⟩

theorem along_append {front back : List ι} :
    Along step cond s (front ++ back) ↔
      Along step cond s front ∧ Along step cond (run step s front) back := by
  induction front generalizing s with
  | nil => simp [Along]
  | cons i front ih => simp only [List.cons_append, Along, run_cons, ih, and_assoc]

/-- What holds at the end of a run and not at its start begins to hold at a step. -/
theorem exists_step_of_run {P : σ → Prop} {labels : List ι} (hs : ¬ P s)
    (hend : P (run step s labels)) :
    ∃ front i back, labels = front ++ i :: back ∧
      ¬ P (run step s front) ∧ P (step (run step s front) i) := by
  induction labels generalizing s with
  | nil => exact absurd hend hs
  | cons i labels ih =>
    by_cases hi : P (step s i)
    · exact ⟨[], i, labels, rfl, hs, hi⟩
    · obtain ⟨front, j, back, rfl, hbefore, hafter⟩ := ih hi hend
      exact ⟨i :: front, j, back, rfl, hbefore, hafter⟩

/-- What is kept by every step under a condition is kept by a run along which
the condition holds. -/
theorem run_invariant_along (inv : σ → Prop) (hstep : ∀ s i, cond s i → inv s → inv (step s i)) :
    ∀ (labels : List ι) (s : σ),
      Along step cond s labels → inv s → inv (run step s labels) := by
  intro labels
  induction labels with
  | nil =>
    intro s _ hs
    simpa using hs
  | cons i labels ih =>
    intro s hcond hs
    obtain ⟨hfirst, hrest⟩ := hcond
    exact ih (step s i) hrest (hstep s i hfirst hs)

end Runs

end Runs
end WbfMatrixClient
