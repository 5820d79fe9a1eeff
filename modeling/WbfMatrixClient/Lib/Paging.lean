import Mathlib.Data.List.Basic

/-!
# Paging through rows of which some are dropped

A page is cut from the first rows there are, and some of its rows are dropped before it is handed
out. The next page begins behind the last row that was handed out, and a page on which nothing is
left is the last one. What is visited this way is the beginning of what is kept, and it is all of
it unless a gap as long as a page has something behind it.
-/

namespace WbfMatrixClient
namespace Paging

universe u v

variable {α : Type u} {β : Type v} (keep : α → Option β)

/-- The rows behind the last one of the first rows that is kept. -/
def restAfter : Nat → List α → Option (List α)
  | 0, _ => none
  | _ + 1, [] => none
  | n + 1, row :: rows =>
      match restAfter n rows with
      | some rest => some rest
      | none => if (keep row).isSome then some rows else none

/-- What is handed out on all pages, if the last one comes in time. -/
def pages (limit : Nat) : Nat → List α → Option (List β)
  | 0, _ => none
  | fuel + 1, rows =>
      match restAfter keep limit rows with
      | none => some []
      | some rest => (pages limit fuel rest).map fun later =>
          (rows.take limit).filterMap keep ++ later

/-- Nothing is kept behind rows as many as a page that are all dropped. -/
def NoGap (limit : Nat) (rows : List α) : Prop :=
  ∀ above gap below, rows = above ++ gap ++ below → gap.length = limit →
    (∀ row ∈ gap, keep row = none) → ∀ row ∈ below, keep row = none

variable {keep} {limit : Nat} {rows rest : List α}

/-- One page has room for all rows. -/
theorem noGap_of_length_le (h : rows.length ≤ limit) : NoGap keep limit rows := by
  intro above gap below hrows hlength _ row hrow
  have hlong := congrArg List.length hrows
  rw [List.length_append, List.length_append] at hlong
  have hbelow : below = [] := List.length_eq_zero_iff.mp (by omega)
  rw [hbelow] at hrow
  cases hrow

variable {n : Nat}

theorem restAfter_eq_none (h : restAfter keep n rows = none) :
    ∀ row ∈ rows.take n, keep row = none := by
  induction n generalizing rows with
  | zero => simp
  | succ n ih =>
    cases rows with
    | nil => simp
    | cons row rows =>
      rw [restAfter] at h
      split at h
      · cases h
      · rename_i hnone
        split_ifs at h with hkept
        intro found hfound
        rcases List.mem_cons.mp hfound with rfl | hlater
        · exact Option.not_isSome_iff_eq_none.mp hkept
        · exact ih hnone found hlater

/-- The last row that is kept parts the rows. -/
structure Parts (keep : α → Option β) (n : Nat) (rows rest : List α) (above : List α) (last : α)
    (shown : β) : Prop where
  rows_eq : rows = above ++ last :: rest
  length_lt : above.length < n
  kept : keep last = some shown
  page : (rows.take n).filterMap keep = above.filterMap keep ++ [shown]

theorem restAfter_eq_some (h : restAfter keep n rows = some rest) :
    ∃ above last shown, Parts keep n rows rest above last shown := by
  induction n generalizing rows with
  | zero => cases h
  | succ n ih =>
    cases rows with
    | nil => cases h
    | cons row rows =>
      rw [restAfter] at h
      split at h
      · rename_i found hfound
        cases h
        obtain ⟨above, last, shown, hparts⟩ := ih hfound
        refine ⟨row :: above, last, shown, ?_, Nat.succ_lt_succ hparts.length_lt, hparts.kept, ?_⟩
        · rw [hparts.rows_eq, List.cons_append]
        · cases hrow : keep row with
          | none =>
            rw [List.take_succ_cons, List.filterMap_cons_none hrow,
              List.filterMap_cons_none hrow, hparts.page]
          | some b =>
            rw [List.take_succ_cons, List.filterMap_cons_some hrow,
              List.filterMap_cons_some hrow, hparts.page, List.cons_append]
      · rename_i hnone
        split_ifs at h with hkept
        cases h
        obtain ⟨shown, hshown⟩ := Option.isSome_iff_exists.mp hkept
        refine ⟨[], row, shown, rfl, Nat.succ_pos n, hshown, ?_⟩
        rw [List.take_succ_cons, List.filterMap_cons_some hshown, List.filterMap_nil,
          List.nil_append, List.filterMap_eq_nil_iff.mpr (restAfter_eq_none hnone)]

variable {above : List α} {last : α} {shown : β}

theorem Parts.filterMap_eq (h : Parts keep n rows rest above last shown) :
    rows.filterMap keep = (rows.take n).filterMap keep ++ rest.filterMap keep := by
  rw [h.page, h.rows_eq, List.filterMap_append, List.filterMap_cons_some h.kept,
    List.append_assoc, List.singleton_append]

theorem Parts.length_rest (h : Parts keep n rows rest above last shown) :
    rest.length < rows.length := by
  rw [h.rows_eq, List.length_append, List.length_cons]
  omega

/-- A row that is kept is in no gap that begins before it and is long enough to reach it. -/
theorem not_kept_of_gap (before : List α) {gap below : List α} (hkept : keep last = some shown)
    (hgap : ∀ row ∈ gap, keep row = none) (hreach : before.length < gap.length) :
    gap ++ below ≠ before ++ last :: rest := by
  intro heq
  have hat : (gap ++ below)[before.length]? = some last := by
    rw [heq, List.getElem?_append_right (Nat.le_refl _), Nat.sub_self, List.getElem?_cons_zero]
  rw [List.getElem?_append_left hreach] at hat
  rw [hgap last (List.mem_of_getElem? hat)] at hkept
  cases hkept

/-- The gaps are behind the last row that a page hands out. -/
theorem Parts.noGap_iff (h : Parts keep limit rows rest above last shown) :
    NoGap keep limit rows ↔ NoGap keep limit rest := by
  constructor
  · intro hno before gap below hrest hlength hgap
    refine hno (above ++ last :: before) gap below ?_ hlength hgap
    rw [h.rows_eq, hrest]
    simp
  · intro hno before gap below hrows hlength hgap
    rw [h.rows_eq, List.append_assoc] at hrows
    have hlimit := h.length_lt
    rcases List.append_eq_append_iff.mp hrows with ⟨more, hbefore, hlater⟩ | ⟨more, habove, hlater⟩
    · cases more with
      | nil =>
        have heq : gap ++ below = [] ++ last :: rest := hlater.symm
        refine absurd heq (not_kept_of_gap [] h.kept hgap ?_)
        rw [hlength]
        exact Nat.zero_lt_of_lt hlimit
      | cons first more =>
        rw [List.cons_append] at hlater
        obtain ⟨rfl, hrest⟩ := List.cons.inj hlater
        rw [← List.append_assoc] at hrest
        exact hno more gap below hrest hlength hgap
    · refine absurd hlater (not_kept_of_gap more h.kept hgap ?_)
      rw [habove, List.length_append] at hlimit
      omega

/-- The pages come to an end, with the beginning of what is kept on them. -/
theorem pages_end (keep : α → Option β) (limit : Nat) :
    ∀ (fuel : Nat) (rows : List α), rows.length < fuel →
      ∃ visited missed, pages keep limit fuel rows = some visited ∧
        rows.filterMap keep = visited ++ missed := by
  intro fuel
  induction fuel with
  | zero =>
    intro rows hfuel
    omega
  | succ fuel ih =>
    intro rows hfuel
    rw [pages]
    cases hrest : restAfter keep limit rows with
    | none => exact ⟨[], _, rfl, rfl⟩
    | some rest =>
      obtain ⟨above, last, shown, hparts⟩ := restAfter_eq_some hrest
      have hshorter := hparts.length_rest
      obtain ⟨visited, missed, hpages, heq⟩ := ih rest (by omega)
      refine ⟨_, missed, congrArg (Option.map _) hpages, ?_⟩
      rw [hparts.filterMap_eq, heq, List.append_assoc]

/-- What is visited is all of what is kept if and only if there is no gap. -/
theorem visited_all_iff {fuel : Nat} {visited : List β}
    (h : pages keep limit fuel rows = some visited) :
    visited = rows.filterMap keep ↔ NoGap keep limit rows := by
  induction fuel generalizing rows visited with
  | zero => cases h
  | succ fuel ih =>
    rw [pages] at h
    cases hrest : restAfter keep limit rows with
    | none =>
      rw [hrest] at h
      cases h
      have hdropped := restAfter_eq_none hrest
      constructor
      · intro hall above gap below hrows _ _ row hrow
        rw [eq_comm, List.filterMap_eq_nil_iff] at hall
        exact hall row (by rw [hrows]; exact List.mem_append_right _ hrow)
      · intro hno
        rw [eq_comm, List.filterMap_eq_nil_iff]
        intro row hrow
        rw [← List.take_append_drop limit rows] at hrow
        rcases List.mem_append.mp hrow with hfirst | hlater
        · exact hdropped row hfirst
        · have hlong : limit ≤ rows.length := by
            by_contra hshort
            rw [List.drop_eq_nil_of_le (by omega)] at hlater
            cases hlater
          exact hno [] (rows.take limit) (rows.drop limit)
            (List.take_append_drop limit rows).symm (List.length_take_of_le hlong) hdropped row
            hlater
    | some rest =>
      rw [hrest] at h
      obtain ⟨later, hlater, rfl⟩ := Option.map_eq_some_iff.mp h
      obtain ⟨above, last, shown, hparts⟩ := restAfter_eq_some hrest
      rw [hparts.filterMap_eq, List.append_cancel_left_eq, hparts.noGap_iff]
      exact ih hlater

end Paging
end WbfMatrixClient
