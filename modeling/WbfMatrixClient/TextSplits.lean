import WbfMatrixClient.AccountNames

/-!
# Where a text is split

What the splits of a text at a part of it give: the first place of the part, or
the last place of a character. A text that has the part there is put together
again from the two sides.
-/

namespace WbfMatrixClient
namespace AccountNames

section Splits

variable {part text first rest : Text} {c : Char}

theorem splitOnce_eq_none_iff_char : splitOnce [c] text = none ↔ c ∉ text := by
  induction text with
  | nil => simp [splitOnce]
  | cons d text ih =>
    rw [splitOnce]
    by_cases hd : d = c
    · subst hd
      simp
    · have hnot : ([c].isPrefixOf (d :: text)) = false := by
        simp [List.isPrefixOf, Ne.symm hd]
      rw [hnot, if_neg Bool.false_ne_true, Option.map_eq_none_iff, ih, List.mem_cons]
      simp [Ne.symm hd]

/-- The first place of a character. -/
theorem splitOnce_char_eq_some_iff :
    splitOnce [c] text = some (first, rest) ↔ text = first ++ c :: rest ∧ c ∉ first := by
  induction text generalizing first with
  | nil => simp [splitOnce]
  | cons d text ih =>
    rw [splitOnce]
    by_cases hd : d = c
    · subst hd
      have hyes : ([d].isPrefixOf (d :: text)) = true := by simp [List.isPrefixOf]
      rw [hyes, if_pos rfl]
      constructor
      · intro h
        cases h
        exact ⟨rfl, List.not_mem_nil⟩
      · rintro ⟨htext, hnot⟩
        cases first with
        | nil =>
          cases htext
          rfl
        | cons e first =>
          obtain ⟨rfl, -⟩ := List.cons_eq_cons.mp htext
          exact absurd List.mem_cons_self hnot
    · have hnot : ([c].isPrefixOf (d :: text)) = false := by
        simp [List.isPrefixOf, Ne.symm hd]
      rw [hnot, if_neg Bool.false_ne_true, Option.map_eq_some_iff]
      constructor
      · rintro ⟨⟨first', rest'⟩, hsplit, heq⟩
        cases heq
        obtain ⟨rfl, hfirst⟩ := ih.mp hsplit
        refine ⟨rfl, ?_⟩
        rw [List.mem_cons]
        rintro (hc | hc)
        · exact hd hc.symm
        · exact hfirst hc
      · rintro ⟨htext, hfirst⟩
        cases first with
        | nil =>
          obtain ⟨hdc, -⟩ := List.cons_eq_cons.mp htext
          exact absurd hdc hd
        | cons e first =>
          obtain ⟨rfl, rfl⟩ := List.cons_eq_cons.mp htext
          refine ⟨(first, rest), ih.mpr ⟨rfl, fun hc => hfirst ?_⟩, rfl⟩
          exact List.mem_cons_of_mem _ hc

theorem splitOnce_char (hnot : c ∉ first) :
    splitOnce [c] (first ++ c :: rest) = some (first, rest) :=
  splitOnce_char_eq_some_iff.mpr ⟨rfl, hnot⟩

/-- A part is found where it begins with a character that is not there before. -/
theorem splitOnce_append (hnot : c ∉ first) (part rest : Text) :
    splitOnce (c :: part) (first ++ (c :: part ++ rest)) = some (first, rest) := by
  induction first with
  | nil =>
    have hyes : ((c :: part).isPrefixOf (c :: part ++ rest)) = true :=
      List.isPrefixOf_iff_prefix.mpr (List.prefix_append _ _)
    simp only [List.cons_append] at hyes
    simp only [List.nil_append, List.cons_append, splitOnce, hyes, if_true, List.length_cons,
      List.drop_succ_cons, List.drop_left']
  | cons d first ih =>
    obtain ⟨hd, hfirst⟩ := List.ne_and_not_mem_of_not_mem_cons hnot
    have hno : ((c :: part).isPrefixOf (d :: (first ++ (c :: part ++ rest)))) = false := by
      simp [List.isPrefixOf, hd]
    rw [List.cons_append, splitOnce, hno, if_neg Bool.false_ne_true, ih hfirst, Option.map_some]

theorem splitOnce_eq_none_of_not_infix (h : ¬ part <:+: text) : splitOnce part text = none := by
  induction text with
  | nil =>
    have hpart : part ≠ [] := by
      rintro rfl
      exact h (List.infix_refl [])
    rw [splitOnce, if_neg hpart]
  | cons d text ih =>
    obtain ⟨hfirst, hrest⟩ := not_or.mp (mt List.infix_cons_iff.mpr h)
    have hno : part.isPrefixOf (d :: text) = false :=
      Bool.eq_false_iff.mpr (mt List.isPrefixOf_iff_prefix.mp hfirst)
    rw [splitOnce, hno, if_neg Bool.false_ne_true, ih hrest, Option.map_none]

/-- The last place of a character. -/
theorem rsplitOnce_eq_some_iff :
    rsplitOnce c text = some (first, rest) ↔ text = first ++ c :: rest ∧ c ∉ rest := by
  rw [rsplitOnce, Option.map_eq_some_iff]
  constructor
  · rintro ⟨⟨rest', first'⟩, hsplit, heq⟩
    cases heq
    obtain ⟨htext, hnot⟩ := splitOnce_char_eq_some_iff.mp hsplit
    refine ⟨?_, fun hc => hnot (List.mem_reverse.mp hc)⟩
    rw [← List.reverse_reverse text, htext, List.reverse_append, List.reverse_cons,
      List.append_assoc]
    rfl
  · rintro ⟨rfl, hnot⟩
    refine ⟨(rest.reverse, first.reverse), ?_, by simp⟩
    rw [List.reverse_append, List.reverse_cons, List.append_assoc]
    exact splitOnce_char fun hc => hnot (List.mem_reverse.mp hc)

theorem rsplitOnce_eq_none_iff : rsplitOnce c text = none ↔ c ∉ text := by
  rw [rsplitOnce, Option.map_eq_none_iff, splitOnce_eq_none_iff_char, List.mem_reverse]

theorem rsplitOnce_append (hnot : c ∉ rest) :
    rsplitOnce c (first ++ c :: rest) = some (first, rest) := rsplitOnce_eq_some_iff.mpr ⟨rfl, hnot⟩

/-- What comes after a text that another one begins with. -/
def stripPrefix (part text : Text) : Option Text :=
  part.isPrefixOf? text

theorem stripPrefix_eq_some_iff : stripPrefix part text = some rest ↔ text = part ++ rest := by
  rw [stripPrefix, List.isPrefixOf?_eq_some_iff_append_eq, eq_comm]

section Spans

variable {p : Char → Bool}

/-- What is taken ends before the first character that is not of the kind. -/
theorem takeWhile_append_eq (hfirst : ∀ c ∈ first, p c = true)
    (hrest : ∀ c, rest.head? = some c → p c = false) : (first ++ rest).takeWhile p = first := by
  have hend : rest.takeWhile p = [] := by
    cases rest with
    | nil => rfl
    | cons c rest => exact List.takeWhile_cons_of_neg (Bool.eq_false_iff.mp (hrest c rfl))
  rw [List.takeWhile_append_of_pos hfirst, hend, List.append_nil]

theorem eq_false_of_head?_dropWhile (h : (text.dropWhile p).head? = some c) : p c = false := by
  have hhead := List.head?_dropWhile_not p text
  rwa [h] at hhead

end Spans

end Splits

end AccountNames
end WbfMatrixClient
