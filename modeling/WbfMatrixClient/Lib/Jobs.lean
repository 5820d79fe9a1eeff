/-!
# Jobs that may fail

A job reads and changes a state and returns a value or an error. What it has changed before an
error stays changed. A triple says what holds after it when it returns and what when it fails, and
has one rule for each way to put jobs together.
-/

namespace WbfMatrixClient
namespace Jobs

universe u v w x

def Job (ε : Type u) (σ : Type v) (α : Type w) : Type max u v w :=
  σ → Except ε α × σ

namespace Job

variable {ε : Type u} {σ : Type v} {α β : Type w}

def throw (error : ε) : Job ε σ α :=
  fun s => (.error error, s)

def bind (j : Job ε σ α) (f : α → Job ε σ β) : Job ε σ β :=
  fun s =>
    match j s with
    | (.ok a, s) => f a s
    | (.error error, s) => (.error error, s)

instance : Monad (Job ε σ) where
  pure a := fun s => (.ok a, s)
  bind := bind

/-- The state. -/
def get : Job ε σ σ :=
  fun s => (.ok s, s)

def modify (f : σ → σ) : Job ε σ PUnit :=
  fun s => (.ok ⟨⟩, f s)

/-- The job for each item in turn, until one is done with all. -/
def each {γ : Type x} (body : γ → α → Job ε σ (ForInStep α)) : List γ → α → Job ε σ α
  | [], a => pure a
  | item :: items, a =>
      bind (body item a) fun outcome =>
        match outcome with
        | .done a => pure a
        | .yield a => each body items a

end Job

/-- From a state with `P` the job returns with `Q` or fails with `E`. -/
def Triple {ε : Type u} {σ : Type v} {α : Type w}
    (P : σ → Prop) (j : Job ε σ α) (Q : α → σ → Prop) (E : σ → Prop) : Prop :=
  ∀ s, P s →
    match j s with
    | (.ok a, s') => Q a s'
    | (.error _, s') => E s'

namespace Triple

variable {ε : Type u} {σ : Type v} {α β : Type w}
variable {P P' : σ → Prop} {Q Q' : α → σ → Prop} {E E' : σ → Prop}

theorem pure {a : α} (h : ∀ s, P s → Q a s) :
    Triple P (Pure.pure a : Job ε σ α) Q E := h

theorem throw {error : ε} (h : ∀ s, P s → E s) :
    Triple P (Job.throw error : Job ε σ α) Q E := h

theorem get {Q : σ → σ → Prop} (h : ∀ s, P s → Q s s) :
    Triple P (Job.get : Job ε σ σ) Q E := h

theorem modify {f : σ → σ} {Q : PUnit → σ → Prop} (h : ∀ s, P s → Q ⟨⟩ (f s)) :
    Triple P (Job.modify f : Job ε σ PUnit) Q E := h

/-- What holds between two jobs is found by the first and met by the second. -/
theorem bind {j : Job ε σ α} {f : α → Job ε σ β} {R : α → σ → Prop} {Q : β → σ → Prop}
    (hj : Triple P j R E) (hf : ∀ a, Triple (R a) (f a) Q E) : Triple P (j >>= f) Q E := by
  intro s hs
  have hfirst := hj s hs
  change match (match j s with
    | (.ok a, s) => f a s
    | (.error error, s) => (.error error, s)) with
    | (.ok b, s') => Q b s'
    | (.error _, s') => E s'
  split at hfirst
  · exact hf _ _ hfirst
  · exact hfirst

theorem weaken {j : Job ε σ α} (h : Triple P' j Q' E') (hP : ∀ s, P s → P' s)
    (hQ : ∀ a s, Q' a s → Q a s) (hE : ∀ s, E' s → E s) : Triple P j Q E := by
  intro s hs
  have hbefore := h s (hP s hs)
  split at hbefore
  · exact hQ _ _ hbefore
  · exact hE _ hbefore

/-- What holds after one item: all is done, or the next one comes. -/
def Round (done next : α → σ → Prop) : ForInStep α → σ → Prop
  | .done a => done a
  | .yield a => next a

/-- An invariant over the items that are still to come. -/
theorem each {γ : Type x} {body : γ → α → Job ε σ (ForInStep α)} {Inv : List γ → α → σ → Prop}
    (hbody : ∀ item items a, Triple (Inv (item :: items) a) (body item a) (Round Q (Inv items)) E)
    (hend : ∀ a s, Inv [] a s → Q a s) :
    ∀ (items : List γ) (a : α), Triple (Inv items a) (Job.each body items a) Q E := by
  intro items
  induction items with
  | nil =>
    intro a
    exact pure (hend a)
  | cons item items ih =>
    intro a
    refine bind (hbody item items a) fun outcome => ?_
    cases outcome with
    | done a => exact pure fun _ h => h
    | yield a => exact ih a

/-- What each item keeps is kept. -/
theorem each_keeps {γ : Type x} {body : γ → α → Job ε σ (ForInStep α)}
    (hbody : ∀ item a, Triple P (body item a) (Round (fun _ => P) fun _ => P) E) :
    ∀ (items : List γ) (a : α), Triple P (Job.each body items a) (fun _ => P) E :=
  @each ε σ α (fun _ => P) E γ body (fun _ _ => P) (fun item _ a => hbody item a) fun _ _ h => h

end Triple
end Jobs
end WbfMatrixClient
