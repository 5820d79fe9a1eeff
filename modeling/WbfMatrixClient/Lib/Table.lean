import Mathlib.Data.List.Nodup

/-!
# Tables with a key

A table is the list of its rows in the order they were inserted, and every row
has a key. A row is found by its key and changed in place. As long as no two
rows have one key, the rows of a table and what is found in it say the same.
-/

namespace WbfMatrixClient
namespace Table

universe u v

section Rows

variable {ρ : Type u} {κ : Type v} [DecidableEq κ] (key : ρ → κ)

def find (rows : List ρ) (k : κ) : Option ρ :=
  rows.find? fun row => key row = k

/-- Changing the row with a key. -/
def update (rows : List ρ) (k : κ) (f : ρ → ρ) : List ρ :=
  rows.map fun row => if key row = k then f row else row

/-- No two rows have one key. -/
def Keyed (rows : List ρ) : Prop :=
  (rows.map key).Nodup

variable {key} {rows : List ρ} {k : κ} {row : ρ}

theorem find_eq_none_iff : find key rows k = none ↔ ∀ row ∈ rows, key row ≠ k := by simp [find]

theorem mem_of_find (h : find key rows k = some row) : row ∈ rows ∧ key row = k := by
  refine ⟨List.mem_of_find?_eq_some h, ?_⟩
  simpa using List.find?_some h

omit [DecidableEq κ] in
theorem Keyed.eq_of_key (h : Keyed key rows) {a b : ρ} (ha : a ∈ rows) (hb : b ∈ rows)
    (hkey : key a = key b) :
    a = b := List.inj_on_of_nodup_map h ha hb hkey

theorem Keyed.find_eq_some_iff (h : Keyed key rows) :
    find key rows k = some row ↔ row ∈ rows ∧ key row = k := by
  constructor
  · exact mem_of_find
  · rintro ⟨hrow, rfl⟩
    cases hfind : find key rows (key row) with
    | none => exact absurd rfl (find_eq_none_iff.mp hfind row hrow)
    | some other =>
      obtain ⟨hother, hkey⟩ := mem_of_find hfind
      rw [h.eq_of_key hother hrow hkey]

variable {f : ρ → ρ}

theorem mem_update :
    row ∈ update key rows k f ↔
      (row ∈ rows ∧ key row ≠ k) ∨ ∃ old ∈ rows, key old = k ∧ f old = row := by
  rw [update, List.mem_map]
  constructor
  · rintro ⟨old, hold, rfl⟩
    by_cases hk : key old = k
    · exact .inr ⟨old, hold, hk, by rw [if_pos hk]⟩
    · exact .inl ⟨by rw [if_neg hk]; exact hold, by rw [if_neg hk]; exact hk⟩
  · rintro (⟨hrow, hk⟩ | ⟨old, hold, hk, rfl⟩)
    · exact ⟨row, hrow, if_neg hk⟩
    · exact ⟨old, hold, if_pos hk⟩

theorem map_key_update (hf : ∀ row, key (f row) = key row) :
    (update key rows k f).map key = rows.map key := by
  rw [update, List.map_map]
  refine List.map_congr_left fun row _ => ?_
  by_cases hk : key row = k
  · simp [hk, hf]
  · simp [hk]

theorem Keyed.update {f : ρ → ρ} (h : Keyed key rows) (hf : ∀ row, key (f row) = key row) :
    Keyed key (Table.update key rows k f) := by
  rw [Keyed, map_key_update hf]
  exact h

omit [DecidableEq κ] in
theorem Keyed.filter (h : Keyed key rows) (p : ρ → Bool) :
    Keyed key (rows.filter p) := h.sublist (List.filter_sublist.map key)

/-- A row next to the rows with other keys. -/
theorem Keyed.perm_cons_filter (h : Keyed key rows) (hrow : row ∈ rows) :
    rows.Perm (row :: rows.filter fun other => key other ≠ key row) := by
  induction rows with
  | nil => cases hrow
  | cons first rows ih =>
    obtain ⟨hfirst, hrest⟩ := List.nodup_cons.mp h
    rcases List.mem_cons.mp hrow with rfl | hrow
    · have hall : ∀ other ∈ rows, decide (key other ≠ key row) = true := by
        intro other hother
        refine decide_eq_true fun hkey => hfirst ?_
        exact hkey ▸ List.mem_map_of_mem hother
      rw [List.filter_cons_of_neg (by simp), List.filter_eq_self.mpr hall]
    · have hne : key first ≠ key row := fun hkey =>
        hfirst (hkey ▸ List.mem_map_of_mem hrow)
      rw [List.filter_cons_of_pos (by simpa using hne)]
      exact ((ih hrest hrow).cons first).trans (List.Perm.swap _ _ _)

theorem Keyed.append (h : Keyed key rows) (hnew : find key rows (key row) = none) :
    Keyed key (rows ++ [row]) := by
  rw [Keyed, List.map_append, List.nodup_append]
  refine ⟨h, by simp, ?_⟩
  intro a ha b hb
  obtain ⟨old, hold, rfl⟩ := List.mem_map.mp ha
  rw [List.map_singleton, List.mem_singleton] at hb
  rw [hb]
  exact find_eq_none_iff.mp hnew old hold

section

variable (hf : ∀ row, key (f row) = key row)

include hf

theorem find_update_self : find key (update key rows k f) k = (find key rows k).map f := by
  induction rows with
  | nil => rfl
  | cons first rows ih =>
    simp only [find, update] at ih
    simp only [find, update, List.map_cons, List.find?_cons]
    by_cases hk : key first = k
    · simp [hk, hf]
    · simp [hk, ih]

theorem find_update_ne {other : κ} (hne : other ≠ k) :
    find key (update key rows k f) other = find key rows other := by
  induction rows with
  | nil => rfl
  | cons first rows ih =>
    simp only [find, update] at ih
    simp only [find, update, List.map_cons, List.find?_cons]
    by_cases hk : key first = k
    · have hfirst : key first ≠ other := fun h => hne (h.symm.trans hk)
      simp [hk, hf, ih, Ne.symm hne]
    · simp [hk, ih]

/-- Changing rows without changing their keys. -/
theorem find_map : find key (rows.map f) k = (find key rows k).map f := by
  have hsame : (fun row : ρ => decide (key row = k)) ∘ f = fun row => decide (key row = k) := by
    funext row
    rw [Function.comp_apply, hf row]
  rw [find, find, List.find?_map, hsame]

end

/-- A row that is found stays the one that is found. -/
theorem find_append_of_some (h : find key rows k = some row) (new : List ρ) :
    find key (rows ++ new) k = some row := by
  rw [find, List.find?_append, ← find, h, Option.some_or]

theorem find_append (new : ρ) :
    find key (rows ++ [new]) k =
      (find key rows k).or (if key new = k then some new else none) := by
  rw [find, List.find?_append, find]
  congr 1
  by_cases hk : key new = k
  · simp [hk]
  · simp [hk]

end Rows

end Table
end WbfMatrixClient
