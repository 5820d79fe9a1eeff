import Mathlib.Data.Set.Function

/-!
# Elements that are ordered by two keys

Some elements have a number, and every element has a place. Two elements are compared by their
numbers if both have one and by their places if not. Of two elements one is always after the other,
but three of them may go round in a circle, and they do only in one way: two elements whose numbers
are turned against their places have one without a number between them.

A mark that is moved only to elements after it goes forward when there is no such circle: it comes
to the greatest element that it was shown, in whatever order.
-/

namespace WbfMatrixClient
namespace MixedOrder

universe u v w

section After

variable {α : Type u} {S : Type v} {P : Type w} [LinearOrder S] [LinearOrder P]
variable (seq : α → Option S) (place : α → P)

/-- Later by the numbers, or by the places where a number is missing. -/
def After (e w : α) : Prop :=
  match seq e, seq w with
  | some s, some t => t < s
  | _, _ => place w < place e

/-- No element without a number is between two whose numbers are turned against their places. -/
def Straight (A : Set α) : Prop :=
  ∀ a ∈ A, ∀ b ∈ A, ∀ c ∈ A, ∀ s t, seq a = some s → seq b = none → seq c = some t →
    place a < place b → place b < place c → s < t

/-- No place and no number is given twice. -/
structure Distinct (A : Set α) : Prop where
  place : Set.InjOn place A
  seq : ∀ a ∈ A, ∀ b ∈ A, ∀ s, seq a = some s → seq b = some s → a = b

variable {seq place} {A : Set α} {a b c : α}

theorem after_of_seqs {s t : S} (ha : seq a = some s) (hb : seq b = some t) :
    After seq place a b ↔ t < s := by simp only [After, ha, hb]

theorem after_of_none_left (ha : seq a = none) : After seq place a b ↔ place b < place a := by
  simp only [After, ha]

theorem after_of_none_right (hb : seq b = none) : After seq place a b ↔ place b < place a := by
  simp only [After, hb]
  cases seq a <;> exact Iff.rfl

theorem After.irrefl (a : α) : ¬After seq place a a := by
  cases ha : seq a with
  | none =>
    rw [after_of_none_left ha]
    exact lt_irrefl _
  | some s =>
    rw [after_of_seqs ha ha]
    exact lt_irrefl _

theorem After.asymm (h : After seq place a b) : ¬After seq place b a := by
  cases ha : seq a with
  | none =>
    rw [after_of_none_left ha] at h
    rw [after_of_none_right ha]
    exact lt_asymm h
  | some s =>
    cases hb : seq b with
    | none =>
      rw [after_of_none_right hb] at h
      rw [after_of_none_left hb]
      exact lt_asymm h
    | some t =>
      rw [after_of_seqs ha hb] at h
      rw [after_of_seqs hb ha]
      exact lt_asymm h

section

variable (hdistinct : Distinct seq place A)

include hdistinct

theorem after_or_after (ha : a ∈ A) (hb : b ∈ A) (hne : a ≠ b) :
    After seq place a b ∨ After seq place b a := by
  have hplace : place a ≠ place b := fun h => hne (hdistinct.place ha hb h)
  cases hsa : seq a with
  | none =>
    rw [after_of_none_left hsa, after_of_none_right hsa]
    exact lt_or_gt_of_ne hplace.symm
  | some s =>
    cases hsb : seq b with
    | none =>
      rw [after_of_none_right hsb, after_of_none_left hsb]
      exact lt_or_gt_of_ne hplace.symm
    | some t =>
      rw [after_of_seqs hsa hsb, after_of_seqs hsb hsa]
      refine lt_or_gt_of_ne fun h => hne ?_
      subst h
      exact hdistinct.seq a ha b hb t hsa hsb

/-- Where the elements are straight, the number of one end is only passed over by the place. -/
theorem After.trans (hstraight : Straight seq place A) (ha : a ∈ A) (hb : b ∈ A) (hc : c ∈ A)
    (hab : After seq place a b) (hbc : After seq place b c) : After seq place a c := by
  cases hsa : seq a with
  | none =>
    rw [after_of_none_left hsa] at hab ⊢
    cases hsb : seq b with
    | none =>
      rw [after_of_none_left hsb] at hbc
      exact hbc.trans hab
    | some t =>
      cases hsc : seq c with
      | none =>
        rw [after_of_none_right hsc] at hbc
        exact hbc.trans hab
      | some r =>
        -- c would be beyond a, and a between b and c
        rw [after_of_seqs hsb hsc] at hbc
        by_contra hnot
        have hne : place a ≠ place c := by
          intro h
          rw [hdistinct.place ha hc h, hsc] at hsa
          cases hsa
        have hbeyond : place a < place c := lt_of_le_of_ne (not_lt.mp hnot) hne
        exact lt_asymm hbc (hstraight b hb a ha c hc t r hsb hsa hsc hab hbeyond)
  | some s =>
    cases hsb : seq b with
    | none =>
      rw [after_of_none_right hsb] at hab
      rw [after_of_none_left hsb] at hbc
      cases hsc : seq c with
      | none =>
        rw [after_of_none_right hsc]
        exact hbc.trans hab
      | some r =>
        rw [after_of_seqs hsa hsc]
        exact hstraight c hc b hb a ha r s hsc hsb hsa hbc hab
    | some t =>
      cases hsc : seq c with
      | none =>
        rw [after_of_seqs hsa hsb] at hab
        rw [after_of_none_right hsc] at hbc ⊢
        by_contra hnot
        have hne : place a ≠ place c := by
          intro h
          rw [hdistinct.place ha hc h, hsc] at hsa
          cases hsa
        have hbeyond : place a < place c := lt_of_le_of_ne (not_lt.mp hnot) hne
        exact lt_asymm hab (hstraight a ha c hc b hb s t hsa hsc hsb hbeyond hbc)
      | some r =>
        rw [after_of_seqs hsa hsb] at hab
        rw [after_of_seqs hsb hsc] at hbc
        rw [after_of_seqs hsa hsc]
        exact hbc.trans hab

/-- Elements that are not straight go round in a circle. -/
theorem exists_circle (h : ¬Straight seq place A) :
    ∃ a ∈ A, ∃ b ∈ A, ∃ c ∈ A, After seq place b a ∧ After seq place c b ∧
      After seq place a c := by
  simp only [Straight, not_forall] at h
  obtain ⟨a, ha, b, hb, c, hc, s, t, hsa, hsb, hsc, hab, hbc, hnot⟩ := h
  refine ⟨a, ha, b, hb, c, hc, (after_of_none_left hsb).mpr hab,
    (after_of_none_right hsb).mpr hbc, (after_of_seqs hsa hsc).mpr ?_⟩
  refine lt_of_le_of_ne (not_lt.mp hnot) fun hsame => ?_
  subst hsame
  rw [hdistinct.seq a ha c hc t hsa hsc] at hab
  exact lt_asymm hab hbc

theorem isStrictTotalOrder_iff :
    IsStrictTotalOrder {e // e ∈ A} (fun e w => After seq place e.1 w.1) ↔
      Straight seq place A := by
  constructor
  · intro horder
    by_contra hnot
    obtain ⟨a, ha, b, hb, c, hc, hba, hcb, hac⟩ := exists_circle hdistinct hnot
    have hca : After seq place c a :=
      horder.trans (⟨c, hc⟩ : {e // e ∈ A}) ⟨b, hb⟩ ⟨a, ha⟩ hcb hba
    exact After.asymm hca hac
  · intro hstraight
    refine { irrefl := fun e => After.irrefl e.1, trichotomous := ?_, trans := ?_ }
    · intro a b hab hba
      by_contra hne
      rcases after_or_after hdistinct a.2 b.2 fun h => hne (Subtype.ext h) with h | h
      · exact hab h
      · exact hba h
    · intro a b c hab hbc
      exact After.trans hdistinct hstraight a.2 b.2 c.2 hab hbc

end

end After

section Mark

variable {α : Type u} (after : α → α → Bool)

/-- The mark is moved to an element that is after it. -/
def advance (mark : Option α) (e : α) : Option α :=
  match mark with
  | none => some e
  | some w => if after e w then some e else some w

/-- Where the mark is after it was shown the elements. -/
def walk (mark : Option α) (es : List α) : Option α :=
  es.foldl (advance after) mark

variable {after} {A : Set α} {mark : Option α} {e w x : α} {es es' : List α}

theorem walk_append : walk after mark (es ++ es') = walk after (walk after mark es) es' := by
  rw [walk, List.foldl_append]
  rfl

/-- The mark stays where it was or is at an element that it was shown. -/
theorem mem_of_walk (h : walk after mark es = some x) : mark = some x ∨ x ∈ es := by
  induction es generalizing mark with
  | nil => exact .inl h
  | cons e es ih =>
    rcases ih h with hmark | hmem
    · cases mark with
      | none =>
        cases hmark
        exact .inr (List.mem_cons_self ..)
      | some w =>
        simp only [advance] at hmark
        split_ifs at hmark
        · cases hmark
          exact .inr (List.mem_cons_self ..)
        · exact .inl hmark
    · exact .inr (List.mem_cons_of_mem e hmem)

/-- One element is another or after it. -/
def NotBefore (after : α → α → Bool) (x w : α) : Prop :=
  x = w ∨ after x w = true

/-- What a mark needs so that it does not go round: elements of which one is always after the
other, and that are after what theirs are after. -/
structure Ordered (after : α → α → Bool) (A : Set α) : Prop where
  asymm : ∀ a b, after a b = true → ¬after b a = true
  total : ∀ a ∈ A, ∀ b ∈ A, a ≠ b → after a b = true ∨ after b a = true
  trans : ∀ a ∈ A, ∀ b ∈ A, ∀ c ∈ A, after a b = true → after b c = true → after a c = true

variable {a b : α}

theorem Ordered.notBefore_trans (h : Ordered after A) {c : α} (ha : a ∈ A) (hb : b ∈ A) (hc : c ∈ A)
    (hab : NotBefore after a b) (hbc : NotBefore after b c) : NotBefore after a c := by
  rcases hab with rfl | hab
  · exact hbc
  · rcases hbc with rfl | hbc
    · exact .inr hab
    · exact .inr (h.trans a ha b hb c hc hab hbc)

/-- Neither the mark nor an element that it was shown is after where it comes to. -/
theorem Ordered.walk_spec (h : Ordered after A) (hmark : ∀ w, mark = some w → w ∈ A)
    (hes : ∀ e ∈ es, e ∈ A) (hne : mark ≠ none ∨ es ≠ []) :
    ∃ x ∈ A, walk after mark es = some x ∧ (∀ w, mark = some w → NotBefore after x w) ∧
      ∀ e ∈ es, NotBefore after x e := by
  induction es generalizing mark with
  | nil =>
    obtain ⟨w, rfl⟩ := Option.ne_none_iff_exists'.mp (hne.resolve_right (fun h => h rfl))
    refine ⟨w, hmark w rfl, rfl, fun w' hw' => .inl (Option.some.inj hw'), fun e he => ?_⟩
    cases he
  | cons e es ih =>
    have he : e ∈ A := hes e (List.mem_cons_self ..)
    have hrest : ∀ e' ∈ es, e' ∈ A := fun e' he' => hes e' (List.mem_cons_of_mem e he')
    -- where the first element brings the mark
    have hfirst : ∃ w ∈ A, advance after mark e = some w ∧ NotBefore after w e ∧
        ∀ w', mark = some w' → NotBefore after w w' := by
      cases mark with
      | none => exact ⟨e, he, rfl, .inl rfl, fun w' hw' => by cases hw'⟩
      | some w =>
        have hw : w ∈ A := hmark w rfl
        by_cases hafter : after e w = true
        · refine ⟨e, he, if_pos hafter, .inl rfl, fun w' hw' => ?_⟩
          cases hw'
          exact .inr hafter
        · refine ⟨w, hw, if_neg hafter, ?_, fun w' hw' => .inl (Option.some.inj hw')⟩
          by_cases hsame : w = e
          · exact .inl hsame
          · exact .inr ((h.total w hw e he hsame).resolve_right hafter)
    obtain ⟨w, hw, hadvance, hwe, hforward⟩ := hfirst
    have hmoved : ∀ w', advance after mark e = some w' → w' ∈ A := by
      intro w' hw'
      rw [hadvance] at hw'
      exact Option.some.inj hw' ▸ hw
    obtain ⟨x, hx, hwalk, hxw, hall⟩ := ih hmoved hrest (.inl (by rw [hadvance]; simp))
    have hxw' : NotBefore after x w := hxw w hadvance
    refine ⟨x, hx, hwalk, fun w' hw' => ?_, fun e' he' => ?_⟩
    · exact h.notBefore_trans hx hw (hmark w' hw') hxw' (hforward w' hw')
    · rcases List.mem_cons.mp he' with rfl | hmem
      · exact h.notBefore_trans hx hw he hxw' hwe
      · exact hall e' hmem

theorem Ordered.notBefore_antisymm (h : Ordered after A) (hab : NotBefore after a b)
    (hba : NotBefore after b a) : a = b := by
  rcases hab with rfl | hab
  · rfl
  · rcases hba with rfl | hba
    · rfl
    · exact absurd hba (h.asymm a b hab)

/-- The order in which the elements are shown is of no account. -/
theorem Ordered.walk_eq (h : Ordered after A) (hmark : ∀ w, mark = some w → w ∈ A)
    (hes : ∀ e ∈ es, e ∈ A) (hsame : ∀ e, e ∈ es ↔ e ∈ es') :
    walk after mark es = walk after mark es' := by
  by_cases hne : mark ≠ none ∨ es ≠ []
  · have hes' : ∀ e ∈ es', e ∈ A := fun e he => hes e ((hsame e).mpr he)
    have hne' : mark ≠ none ∨ es' ≠ [] := by
      refine hne.imp_right fun hes hes' => hes (List.eq_nil_iff_forall_not_mem.mpr fun e he => ?_)
      have hmem := (hsame e).mp he
      rw [hes'] at hmem
      cases hmem
    obtain ⟨x, hx, hwalk, hfrom, hall⟩ := h.walk_spec hmark hes hne
    obtain ⟨x', hx', hwalk', hfrom', hall'⟩ := h.walk_spec hmark hes' hne'
    rw [hwalk, hwalk']
    congr 1
    -- each of the two ends is not before where the other walk began or what it was shown
    refine h.notBefore_antisymm ?_ ?_
    · rcases mem_of_walk hwalk' with hbegan | hmem
      · exact hfrom x' hbegan
      · exact hall x' ((hsame x').mpr hmem)
    · rcases mem_of_walk hwalk with hbegan | hmem
      · exact hfrom' x hbegan
      · exact hall' x ((hsame x).mp hmem)
  · obtain ⟨hnone, hempty⟩ := not_or.mp hne
    rw [not_not.mp hempty] at hsame ⊢
    have hempty' : es' = [] :=
      List.eq_nil_iff_forall_not_mem.mpr fun e he => by cases (hsame e).mpr he
    rw [hempty']

/-- Around a circle the mark comes to where it was shown last. -/
theorem walk_circle {c : α} (hba : after b a = true) (hcb : after c b = true)
    (hac : after a c = true) :
    walk after none [a, b, c] = some c ∧ walk after none [b, c, a] = some a := by
  simp [walk, advance, hba, hcb, hac]

end Mark

end MixedOrder
end WbfMatrixClient
