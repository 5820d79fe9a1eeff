import Mathlib.Data.List.Basic
import Mathlib.Order.Lattice

/-!
# Maps as sorted lists

A map is the list of its entries in the order of their keys, as it is walked
through. Two such lists with the same entry under every key are one list.
-/

namespace WbfMatrixClient
namespace SortedMap

universe u v

variable {κ : Type u} {α : Type v} [LinearOrder κ]

def Sorted (entries : List (κ × α)) : Prop :=
  entries.Pairwise fun a b => a.1 < b.1

/-- The entry takes its place, or the place of the entry that was there. -/
def insert (key : κ) (value : α) : List (κ × α) → List (κ × α)
  | [] => [(key, value)]
  | entry :: rest =>
      if key < entry.1 then (key, value) :: entry :: rest
      else if key = entry.1 then (key, value) :: rest
      else entry :: insert key value rest

def erase (key : κ) (entries : List (κ × α)) : List (κ × α) :=
  entries.filter fun entry => entry.1 ≠ key

section Lookups

variable [BEq κ] [LawfulBEq κ] {entries entries' : List (κ × α)} {key k : κ} {value : α}
  {entry : κ × α}

theorem lookup_cons (entry : κ × α) (rest : List (κ × α)) (k : κ) :
    (entry :: rest).lookup k = if k = entry.1 then some entry.2 else rest.lookup k := by
  rw [List.lookup_cons]
  split_ifs with hk
  · rw [hk, beq_self_eq_true]
  · rw [beq_eq_false_iff_ne.mpr hk]

theorem lookup_insert :
    (insert key value entries).lookup k = if k = key then some value else entries.lookup k := by
  induction entries with
  | nil => rw [insert, lookup_cons]
  | cons entry rest ih =>
    rw [insert]
    by_cases hlt : key < entry.1
    · rw [if_pos hlt, lookup_cons]
    · rw [if_neg hlt]
      by_cases heq : key = entry.1
      · rw [if_pos heq, lookup_cons, lookup_cons]
        by_cases hk : k = key
        · rw [if_pos hk, if_pos hk]
        · rw [if_neg hk, if_neg hk, if_neg (heq ▸ hk)]
      · rw [if_neg heq, lookup_cons, ih, lookup_cons]
        by_cases hk : k = key
        · rw [if_pos hk, if_neg (hk ▸ heq), if_pos hk]
        · rw [if_neg hk, if_neg hk]

theorem lookup_erase :
    (erase key entries).lookup k = if k = key then none else entries.lookup k := by
  induction entries with
  | nil => rw [erase, List.filter_nil, List.lookup_nil, ite_self]
  | cons entry rest ih =>
    rw [erase] at ih ⊢
    by_cases hentry : entry.1 = key
    · rw [List.filter_cons_of_neg (by simpa using hentry), ih]
      split_ifs with hk
      · rfl
      · rw [lookup_cons, if_neg (hentry ▸ hk)]
    · rw [List.filter_cons_of_pos (by simpa using hentry), lookup_cons, lookup_cons, ih]
      split_ifs with hfirst hk
      · exact absurd (hfirst ▸ hk) hentry
      · rfl
      · rfl
      · rfl

omit [LinearOrder κ] in
theorem mem_of_lookup (h : entries.lookup k = some value) : (k, value) ∈ entries := by
  obtain ⟨before, after, rfl, -⟩ := List.lookup_eq_some_iff.mp h
  exact List.mem_append_right _ List.mem_cons_self

omit [LinearOrder κ] in
theorem lookup_eq_none (h : ∀ entry ∈ entries, entry.1 ≠ k) : entries.lookup k = none := by
  rw [List.lookup_eq_none_iff]
  intro entry hentry
  exact bne_iff_ne.mpr (h entry hentry).symm

/-- Sorted entries are determined by what is found under the keys. -/
theorem ext (h : Sorted entries) (h' : Sorted entries')
    (hsame : ∀ k, entries.lookup k = entries'.lookup k) : entries = entries' := by
  induction entries generalizing entries' with
  | nil =>
    cases entries' with
    | nil => rfl
    | cons entry rest =>
      have hfound := hsame entry.1
      rw [lookup_cons, if_pos rfl] at hfound
      cases hfound
  | cons entry rest ih =>
    cases entries' with
    | nil =>
      have hfound := hsame entry.1
      rw [lookup_cons, if_pos rfl] at hfound
      cases hfound
    | cons entry' rest' =>
      obtain ⟨hless, hrest⟩ := List.pairwise_cons.mp h
      obtain ⟨hless', hrest'⟩ := List.pairwise_cons.mp h'
      have hkey : entry.1 = entry'.1 := by
        by_contra hne
        rcases lt_or_gt_of_ne hne with hlt | hlt
        · have hfound := hsame entry.1
          rw [lookup_cons, if_pos rfl, lookup_cons, if_neg hne, lookup_eq_none fun other hother =>
            (hlt.trans (hless' other hother)).ne'] at hfound
          cases hfound
        · have hfound := hsame entry'.1
          rw [lookup_cons, if_neg (Ne.symm hne), lookup_cons, if_pos rfl,
            lookup_eq_none fun other hother => (hlt.trans (hless other hother)).ne'] at hfound
          cases hfound
      have hentry : entry = entry' := by
        have hfound := hsame entry.1
        rw [lookup_cons, if_pos rfl, lookup_cons, if_pos hkey] at hfound
        exact Prod.ext hkey (Option.some.inj hfound)
      subst hentry
      rw [ih hrest hrest' fun k => ?_]
      have hfound := hsame k
      rw [lookup_cons, lookup_cons] at hfound
      split_ifs at hfound with hk
      · rw [hk, lookup_eq_none fun other hother => (hless other hother).ne',
          lookup_eq_none fun other hother => (hless' other hother).ne']
      · exact hfound

end Lookups

section Order

variable {entries : List (κ × α)} {key : κ} {value : α} {entry : κ × α}

theorem Sorted.erase (h : Sorted entries) (key : κ) :
    Sorted (SortedMap.erase key entries) := h.sublist List.filter_sublist

theorem mem_insert (h : entry ∈ insert key value entries) :
    entry = (key, value) ∨ entry ∈ entries := by
  induction entries with
  | nil => exact .inl (List.mem_singleton.mp h)
  | cons first rest ih =>
    rw [insert] at h
    split_ifs at h
    · exact List.mem_cons.mp h
    · rcases List.mem_cons.mp h with heq | hrest
      · exact .inl heq
      · exact .inr (List.mem_cons_of_mem _ hrest)
    · rcases List.mem_cons.mp h with rfl | hrest
      · exact .inr List.mem_cons_self
      · exact (ih hrest).imp_right (List.mem_cons_of_mem _)

theorem Sorted.insert (h : Sorted entries) (key : κ) (value : α) :
    Sorted (SortedMap.insert key value entries) := by
  induction entries with
  | nil => exact List.pairwise_singleton _ _
  | cons first rest ih =>
    obtain ⟨hless, hrest⟩ := List.pairwise_cons.mp h
    rw [SortedMap.insert]
    split_ifs with hlt heq
    · refine List.pairwise_cons.mpr ⟨fun entry hentry => ?_, h⟩
      rcases List.mem_cons.mp hentry with rfl | hentry
      · exact hlt
      · exact hlt.trans (hless entry hentry)
    · exact List.pairwise_cons.mpr ⟨fun entry hentry => heq ▸ hless entry hentry, hrest⟩
    · refine List.pairwise_cons.mpr ⟨fun entry hentry => ?_, ih hrest⟩
      rcases mem_insert hentry with rfl | hentry
      · exact lt_of_le_of_ne (not_lt.mp hlt) (Ne.symm heq)
      · exact hless entry hentry

end Order

end SortedMap
end WbfMatrixClient
