import Mathlib.Data.List.DropRight
import Mathlib.Data.List.Forall2

/-!
# White space and numbers in texts

What is taken off the two ends of a text, and when a text is a number in a base:
digits one after another up to a greatest number, with one plus sign before them
if there is any.
-/

namespace WbfMatrixClient
namespace TextParsing

/-- The characters that Unicode has as white space. -/
def isWhitespace (c : Char) : Bool :=
  let n := c.toNat
  (0x9 ≤ n ∧ n ≤ 0xd) ∨ n = 0x20 ∨ n = 0x85 ∨ n = 0xa0 ∨ n = 0x1680 ∨ (0x2000 ≤ n ∧ n ≤ 0x200a) ∨
    n = 0x2028 ∨ n = 0x2029 ∨ n = 0x202f ∨ n = 0x205f ∨ n = 0x3000

def trimStart (text : List Char) : List Char :=
  text.dropWhile isWhitespace

def trimEnd (text : List Char) : List Char :=
  text.rdropWhile isWhitespace

def trim (text : List Char) : List Char :=
  trimEnd (trimStart text)

section Trimming

variable {text first rest : List Char} {c : Char}

theorem trimStart_append_cons (hc : isWhitespace c = false) (first rest : List Char) :
    trimStart (first ++ c :: rest) = trimStart first ++ c :: rest := by
  induction first with
  | nil => simp [trimStart, List.dropWhile, hc]
  | cons d first ih =>
    cases hd : isWhitespace d with
    | true => simpa [trimStart, List.dropWhile_cons, hd] using ih
    | false => simp [trimStart, hd]

theorem trimEnd_eq_reverse (text : List Char) :
    trimEnd text = (trimStart text.reverse).reverse := rfl

theorem trimEnd_append_cons (hc : isWhitespace c = false) (first rest : List Char) :
    trimEnd (first ++ c :: rest) = first ++ c :: trimEnd rest := by
  rw [trimEnd_eq_reverse, trimEnd_eq_reverse, List.reverse_append, List.reverse_cons,
    List.append_assoc, List.singleton_append, trimStart_append_cons hc]
  simp

/-- White space is taken off the two sides of a character that is none. -/
theorem trim_append_cons (hc : isWhitespace c = false) (first rest : List Char) :
    trim (first ++ c :: rest) = trimStart first ++ c :: trimEnd rest := by
  rw [trim, trimStart_append_cons hc, trimEnd_append_cons hc]

theorem trimStart_trimStart (text : List Char) :
    trimStart (trimStart text) = trimStart text := List.dropWhile_idempotent isWhitespace text

theorem trimEnd_trimEnd (text : List Char) :
    trimEnd (trimEnd text) = trimEnd text := List.rdropWhile_idempotent _ text

theorem exists_trimStart (text : List Char) :
    ∃ white, text = white ++ trimStart text ∧ ∀ c ∈ white, isWhitespace c = true :=
  ⟨text.takeWhile isWhitespace, List.takeWhile_append_dropWhile.symm,
    List.all_eq_true.mp List.all_takeWhile⟩

theorem exists_trimEnd (text : List Char) :
    ∃ white, text = trimEnd text ++ white ∧ ∀ c ∈ white, isWhitespace c = true := by
  obtain ⟨white, htext, hwhite⟩ := exists_trimStart text.reverse
  refine ⟨white.reverse, ?_, fun c hc => hwhite c (List.mem_reverse.mp hc)⟩
  rw [trimEnd_eq_reverse, ← List.reverse_append, ← htext, List.reverse_reverse]

/-- A text is its middle part with white space around it. -/
theorem exists_trim (text : List Char) :
    ∃ before after, text = before ++ (trim text ++ after) ∧
      (∀ c ∈ before, isWhitespace c = true) ∧ ∀ c ∈ after, isWhitespace c = true := by
  obtain ⟨before, hbefore, hwhite⟩ := exists_trimStart text
  obtain ⟨after, hafter, hwhite'⟩ := exists_trimEnd (trimStart text)
  exact ⟨before, after, by rw [trim, ← hafter]; exact hbefore, hwhite, hwhite'⟩

theorem mem_trim_iff (hc : isWhitespace c = false) : c ∈ trim text ↔ c ∈ text := by
  obtain ⟨before, after, htext, hbefore, hafter⟩ := exists_trim text
  have hnot : ∀ white : List Char, (∀ d ∈ white, isWhitespace d = true) → c ∉ white := by
    intro white hwhite hmem
    rw [hwhite c hmem] at hc
    cases hc
  conv_rhs => rw [htext]
  rw [List.mem_append, List.mem_append, or_iff_right (hnot before hbefore),
    or_iff_left (hnot after hafter)]

variable {white : List Char}

section

variable (h : ∀ c ∈ white, isWhitespace c = true)

include h

theorem trimStart_append_of_white (text : List Char) :
    trimStart (white ++ text) = trimStart text := List.dropWhile_append_of_pos h

theorem trimEnd_append_of_white (text : List Char) : trimEnd (text ++ white) = trimEnd text := by
  rw [trimEnd_eq_reverse, trimEnd_eq_reverse, List.reverse_append,
    trimStart_append_of_white fun c hc => h c (List.mem_reverse.mp hc)]

theorem trim_append_of_white (text : List Char) :
    trim (white ++ text) = trim text := by rw [trim, trimStart_append_of_white h, trim]

end

/-- Where only the start is taken off first, the same is left in the end. -/
theorem trim_trimStart (text : List Char) : trim (trimStart text) = trim text := by
  rw [trim, trimStart_trimStart, trim]

theorem trim_eq_trimStart_trimEnd (text : List Char) : trim text = trimStart (trimEnd text) := by
  cases h : text.dropWhile isWhitespace with
  | nil =>
    have hall : ∀ c ∈ text, isWhitespace c = true := by
      intro c hc
      exact List.dropWhile_eq_nil_iff.mp h c hc
    have hend := trimEnd_append_of_white hall []
    rw [List.nil_append] at hend
    rw [trim, trimStart, h, hend]
    rfl
  | cons c rest =>
    have hc : isWhitespace c = false := by
      have hhead := List.head_dropWhile_not (p := isWhitespace) (l := text) (by simp [h])
      simpa [h] using hhead
    obtain ⟨white, htext, hwhite⟩ := exists_trimStart text
    rw [trimStart, h] at htext
    rw [htext, trim_append_cons hc, trimEnd_append_cons hc, trimStart_append_cons hc]

theorem trim_trimEnd (text : List Char) : trim (trimEnd text) = trim text := by
  rw [trim_eq_trimStart_trimEnd, trimEnd_trimEnd, trim_eq_trimStart_trimEnd]

end Trimming

/-- The value of a digit, with letters of any case from ten on. -/
def digitOf (radix : Nat) (c : Char) : Option Nat :=
  let d :=
    if '0' ≤ c ∧ c ≤ '9' then c.toNat - '0'.toNat
    else if 'a' ≤ c ∧ c ≤ 'z' then c.toNat - 'a'.toNat + 10
    else if 'A' ≤ c ∧ c ≤ 'Z' then c.toNat - 'A'.toNat + 10
    else radix
  if d < radix then some d else none

/-- The digits added to what is there already, with a stop where the greatest number is passed. -/
def accumulate (radix max : Nat) : Nat → List Char → Option Nat
  | total, [] => some total
  | total, c :: rest =>
      match digitOf radix c with
      | none => none
      | some d =>
          if total * radix + d ≤ max then accumulate radix max (total * radix + d) rest else none

def fromStrRadix (radix max : Nat) : List Char → Option Nat
  | [] => none
  | ['+'] => none
  | '+' :: rest => accumulate radix max 0 rest
  | text => accumulate radix max 0 text

/-- The text is a number of digits alone. -/
def Numeral (radix max : Nat) (text : List Char) (n : Nat) : Prop :=
  text ≠ [] ∧ n ≤ max ∧ ∃ digits, List.Forall₂ (fun c d => digitOf radix c = some d) text digits ∧
    digits.foldl (fun total d => total * radix + d) 0 = n

section Numbers

variable {radix max n m total : Nat} {text : List Char} {c : Char}

theorem digitOf_plus : digitOf radix '+' = none := by simp [digitOf]

theorem le_foldl (hradix : 0 < radix) (digits : List Nat) (total : Nat) :
    total ≤ digits.foldl (fun total d => total * radix + d) total := by
  induction digits generalizing total with
  | nil => exact le_rfl
  | cons d rest ih =>
    have hstep : total ≤ total * radix + d :=
      (Nat.le_mul_of_pos_right total hradix).trans (Nat.le_add_right _ _)
    exact hstep.trans (ih _)

theorem accumulate_eq_some_iff (htotal : total ≤ max) (hradix : 0 < radix) :
    accumulate radix max total text = some n ↔
      n ≤ max ∧ ∃ digits, List.Forall₂ (fun c d => digitOf radix c = some d) text digits ∧
        digits.foldl (fun total d => total * radix + d) total = n := by
  induction text generalizing total with
  | nil =>
    rw [accumulate, Option.some.injEq]
    constructor
    · rintro rfl
      exact ⟨htotal, [], .nil, rfl⟩
    · rintro ⟨-, digits, hdigits, rfl⟩
      cases hdigits
      rfl
  | cons c rest ih =>
    rw [accumulate]
    cases hd : digitOf radix c with
    | none =>
      constructor
      · exact nofun
      · rintro ⟨-, digits, hdigits, -⟩
        cases hdigits with
        | cons hc _ =>
          rw [hd] at hc
          cases hc
    | some d =>
      simp only
      split_ifs with hmax
      · rw [ih hmax]
        constructor
        · rintro ⟨hn, digits, hdigits, hfold⟩
          exact ⟨hn, d :: digits, .cons hd hdigits, hfold⟩
        · rintro ⟨hn, digits, hdigits, hfold⟩
          cases hdigits with
          | cons hc hrest =>
            rw [hd] at hc
            cases hc
            exact ⟨hn, _, hrest, hfold⟩
      · constructor
        · exact nofun
        · rintro ⟨hn, digits, hdigits, hfold⟩
          cases hdigits with
          | @cons _ _ _ digits hc hrest =>
            rw [hd] at hc
            cases hc
            have hle := le_foldl hradix digits (total * radix + d)
            rw [List.foldl_cons] at hfold
            omega

theorem numeral_iff_accumulate (hradix : 0 < radix) :
    Numeral radix max text n ↔ text ≠ [] ∧ accumulate radix max 0 text = some n := by
  rw [Numeral, accumulate_eq_some_iff (Nat.zero_le max) hradix]

theorem not_mem_of_numeral (hc : digitOf radix c = none) (h : Numeral radix max text n) :
    c ∉ text := by
  obtain ⟨-, -, digits, hdigits, -⟩ := h
  intro hmem
  obtain ⟨i, hi, rfl⟩ := List.getElem_of_mem hmem
  have hdigit := hdigits.get hi (hdigits.length_eq ▸ hi)
  rw [List.get_eq_getElem, hc] at hdigit
  cases hdigit

/-- A number is read where there are digits alone, or digits after one plus sign. -/
theorem fromStrRadix_eq_some_iff (hradix : 0 < radix) :
    fromStrRadix radix max text = some n ↔
      Numeral radix max text n ∨ ∃ rest, text = '+' :: rest ∧ Numeral radix max rest n := by
  simp only [numeral_iff_accumulate hradix]
  rw [fromStrRadix.eq_def]
  split
  · simp
  · simp [accumulate, digitOf_plus]
  · rename_i rest hne
    simp only [accumulate, digitOf_plus]
    constructor
    · intro h
      exact .inr ⟨rest, rfl, fun hnil => hne (by rw [hnil]), h⟩
    · rintro (⟨-, hnone⟩ | ⟨rest', hrest, -, h⟩)
      · cases hnone
      · obtain ⟨-, rfl⟩ := List.cons_eq_cons.mp hrest
        exact h
  · rename_i hnil hsingle hplus
    constructor
    · intro h
      exact .inl ⟨hnil, h⟩
    · rintro (⟨-, h⟩ | ⟨rest, rfl, -, -⟩)
      · exact h
      · exact absurd rfl (hplus rest)

end Numbers

end TextParsing
end WbfMatrixClient
