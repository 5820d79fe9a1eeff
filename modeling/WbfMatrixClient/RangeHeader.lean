import Mathlib.Algebra.Group.Nat.Defs
import WbfMatrixClient.Lib.TextParsing
import WbfMatrixClient.TextSplits

/-!
# The part of a medium that is asked for

The value of a range header names the bytes of a medium in one of three forms. A
value of another form, or of more than one, asks for the whole medium. The reply
names in its own headers what it brings.
-/

namespace WbfMatrixClient
namespace DataPlane

open AccountNames (Text splitOnce stripPrefix)
open TextParsing (trim fromStrRadix Numeral isWhitespace)

def u64Max : Nat := 2 ^ 64 - 1

/-- Half open, as everywhere. -/
inductive RangeAsked where
  | whole
  | part (start stop : Nat)
  | unsatisfiable
deriving DecidableEq

def parseU64 (text : Text) : Option Nat :=
  fromStrRadix 10 u64Max text

def bytesUnit : Text := "bytes=".toList

def parseRange (value : Option Text) (size : Nat) : RangeAsked :=
  match value.bind fun value => stripPrefix bytesUnit (trim value) with
  | none => .whole
  | some spec =>
      if ',' ∈ spec then
        .whole
      else
        match splitOnce ['-'] (trim spec) with
        | none => .whole
        | some (firstPart, lastPart) =>
            let first := trim firstPart
            let last := trim lastPart
            if first = [] then
              match parseU64 last with
              | none => .whole
              | some suffix =>
                  if suffix = 0 ∨ size = 0 then .unsatisfiable else .part (size - suffix) size
            else
              match parseU64 first with
              | none => .whole
              | some start =>
                  let stop :=
                    if last = [] then
                      some size
                    else
                      match parseU64 last with
                      | some last =>
                          if start ≤ last then some (min (min (last + 1) u64Max) size) else none
                      | none => none
                  match stop with
                  | none => .whole
                  | some stop => if size ≤ start then .unsatisfiable else .part start stop

/-- The three forms with their numbers. -/
inductive RangeForm where
  | span (first last : Nat)
  | openEnd (first : Nat)
  | suffix (count : Nat)

namespace RangeForm

/-- The bytes of a medium that the form names, if there are any. -/
def named (size : Nat) : RangeForm → Option (Nat × Nat)
  | span first last => if first < size then some (first, min (last + 1) size) else none
  | openEnd first => if first < size then some (first, size) else none
  | suffix count => if 0 < count ∧ 0 < size then some (size - count, size) else none

/-- The two sides of the dash are this form, where the numbers are written in the given way. -/
def Spelled (Writes : Text → Nat → Prop) (firstPart lastPart : Text) : RangeForm → Prop
  | span first last => Writes firstPart first ∧ Writes lastPart last ∧ first ≤ last
  | openEnd first => Writes firstPart first ∧ lastPart = []
  | suffix count => firstPart = [] ∧ Writes lastPart count

/-- The value is the unit and the form, with white space around them and around the numbers. -/
def IsValue (Writes : Text → Nat → Prop) (value : Text) (form : RangeForm) : Prop :=
  ∃ firstPart lastPart, trim value = bytesUnit ++ (firstPart ++ '-' :: lastPart) ∧
    form.Spelled Writes (trim firstPart) (trim lastPart)

end RangeForm

/-- A number of digits alone. -/
def Digits (text : Text) (n : Nat) : Prop :=
  Numeral 10 u64Max text n

/-- A number as it is read, with a plus sign before its digits or none. -/
def SignedDigits (text : Text) (n : Nat) : Prop :=
  Digits text n ∨ ∃ rest, text = '+' :: rest ∧ Digits rest n

/-- What a form asks for. -/
def RangeForm.asked (size : Nat) (form : RangeForm) : RangeAsked :=
  match form.named size with
  | some (start, stop) => .part start stop
  | none => .unsatisfiable

section Reading

variable {value : Text} {size n : Nat} {form : RangeForm} {text : Text}

theorem parseU64_eq_some_iff :
    parseU64 text = some n ↔ SignedDigits text n := TextParsing.fromStrRadix_eq_some_iff (by decide)

theorem SignedDigits.ne_nil (h : SignedDigits text n) : text ≠ [] := by
  rcases h with h | ⟨rest, rfl, -⟩
  · exact h.1
  · exact List.cons_ne_nil _ _

theorem SignedDigits.not_mem {c : Char} (hc : TextParsing.digitOf 10 c = none) (hplus : c ≠ '+')
    (h : SignedDigits text n) : c ∉ text := by
  rcases h with h | ⟨rest, rfl, h⟩
  · exact TextParsing.not_mem_of_numeral hc h
  · rw [List.mem_cons]
    exact not_or_intro hplus (TextParsing.not_mem_of_numeral hc h)

/-- No side of a dash that spells a form has such a character. -/
theorem RangeForm.Spelled.not_mem {firstPart lastPart : Text} {c : Char}
    (hc : TextParsing.digitOf 10 c = none) (hplus : c ≠ '+')
    (h : form.Spelled SignedDigits firstPart lastPart) : c ∉ firstPart ∧ c ∉ lastPart := by
  cases form with
  | span first last => exact ⟨h.1.not_mem hc hplus, h.2.1.not_mem hc hplus⟩
  | openEnd first => exact ⟨h.1.not_mem hc hplus, h.2 ▸ List.not_mem_nil⟩
  | suffix count => exact ⟨h.1 ▸ List.not_mem_nil, h.2.not_mem hc hplus⟩

/-- A value of one of the forms is read as what the form asks for. -/
theorem parseRange_of_isValue (hsize : size ≤ u64Max) (h : form.IsValue SignedDigits value) :
    parseRange (some value) size = form.asked size := by
  obtain ⟨firstPart, lastPart, hvalue, hform⟩ := h
  have hcomma := hform.not_mem (by decide : TextParsing.digitOf 10 ',' = none) (by decide)
  have hdash := hform.not_mem (by decide : TextParsing.digitOf 10 '-' = none) (by decide)
  rw [TextParsing.mem_trim_iff (by decide), TextParsing.mem_trim_iff (by decide)] at hcomma hdash
  have hnot : ',' ∉ firstPart ++ '-' :: lastPart := by simp [hcomma.1, hcomma.2]
  have hfirst : '-' ∉ TextParsing.trimStart firstPart := fun hmem =>
    hdash.1 ((List.dropWhile_suffix _).subset hmem)
  have hstrip := AccountNames.stripPrefix_eq_some_iff.mpr hvalue
  rw [parseRange, Option.bind_some, hstrip]
  simp only [if_neg hnot, TextParsing.trim_append_cons (by decide : isWhitespace '-' = false),
    AccountNames.splitOnce_char hfirst, TextParsing.trim_trimStart, TextParsing.trim_trimEnd]
  cases form with
  | suffix count =>
    obtain ⟨hempty, hlast⟩ := hform
    simp only [hempty, if_true, parseU64_eq_some_iff.mpr hlast, RangeForm.asked, RangeForm.named]
    by_cases hnone : count = 0 ∨ size = 0
    · rw [if_pos hnone, if_neg (by omega)]
    · rw [if_neg hnone, if_pos (by omega)]
  | openEnd first =>
    obtain ⟨hfirst, hempty⟩ := hform
    simp only [if_neg hfirst.ne_nil, parseU64_eq_some_iff.mpr hfirst, hempty, if_true,
      RangeForm.asked, RangeForm.named]
    by_cases hstart : size ≤ first
    · rw [if_pos hstart, if_neg (by omega)]
    · rw [if_neg hstart, if_pos (by omega)]
  | span first last =>
    obtain ⟨hfirst, hlast, hle⟩ := hform
    simp only [if_neg hfirst.ne_nil, parseU64_eq_some_iff.mpr hfirst, if_neg hlast.ne_nil,
      parseU64_eq_some_iff.mpr hlast, if_pos hle, RangeForm.asked, RangeForm.named]
    have hstop : min (min (last + 1) u64Max) size = min (last + 1) size := by omega
    by_cases hstart : size ≤ first
    · rw [if_pos hstart, if_neg (by omega)]
    · rw [if_neg hstart, if_pos (by omega), hstop]

/-- What is not read as the whole medium is a value of one of the forms. -/
theorem isValue_of_parseRange (h : parseRange (some value) size ≠ .whole) :
    ∃ form : RangeForm, form.IsValue SignedDigits value := by
  rw [parseRange, Option.bind_some] at h
  cases hstrip : stripPrefix bytesUnit (trim value) with
  | none =>
    rw [hstrip] at h
    exact absurd rfl h
  | some spec =>
    simp only [hstrip] at h
    split_ifs at h
    · exact absurd rfl h
    · cases hsplit : splitOnce ['-'] (trim spec) with
      | none =>
        rw [hsplit] at h
        exact absurd rfl h
      | some parts =>
        obtain ⟨firstPart, lastPart⟩ := parts
        simp only [hsplit] at h
        obtain ⟨htrim, -⟩ := AccountNames.splitOnce_char_eq_some_iff.mp hsplit
        obtain ⟨before, after, hspec, hbefore, hafter⟩ := TextParsing.exists_trim spec
        have hvalue : trim value = bytesUnit ++
            ((before ++ firstPart) ++ '-' :: (lastPart ++ after)) := by
          rw [AccountNames.stripPrefix_eq_some_iff.mp hstrip, hspec, htrim]
          simp
        have hfirst : trim (before ++ firstPart) = trim firstPart :=
          TextParsing.trim_append_of_white hbefore firstPart
        have hlast : trim (lastPart ++ after) = trim lastPart := by
          rw [← TextParsing.trim_trimEnd, TextParsing.trimEnd_append_of_white hafter,
            TextParsing.trim_trimEnd]
        by_cases hempty : trim firstPart = []
        · simp only [if_pos hempty] at h
          cases hsuffix : parseU64 (trim lastPart) with
          | none =>
            rw [hsuffix] at h
            exact absurd rfl h
          | some suffix =>
            exact ⟨.suffix suffix, _, _, hvalue, hfirst.trans hempty,
              hlast ▸ parseU64_eq_some_iff.mp hsuffix⟩
        · simp only [if_neg hempty] at h
          cases hstart : parseU64 (trim firstPart) with
          | none =>
            rw [hstart] at h
            exact absurd rfl h
          | some start =>
            simp only [hstart] at h
            have hwrites := hfirst ▸ parseU64_eq_some_iff.mp hstart
            by_cases hopen : trim lastPart = []
            · exact ⟨.openEnd start, _, _, hvalue, hwrites, hlast.trans hopen⟩
            · simp only [if_neg hopen] at h
              cases hstop : parseU64 (trim lastPart) with
              | none =>
                rw [hstop] at h
                exact absurd rfl h
              | some last =>
                simp only [hstop] at h
                by_cases hle : start ≤ last
                · exact ⟨.span start last, _, _, hvalue, hwrites,
                    hlast ▸ parseU64_eq_some_iff.mp hstop, hle⟩
                · simp only [if_neg hle] at h
                  exact absurd rfl h

/-- A form names bytes that the medium has. -/
theorem RangeForm.named_bounds {start stop : Nat}
    (hform : ∀ first last, form = .span first last → first ≤ last)
    (h : form.named size = some (start, stop)) : start < stop ∧ stop ≤ size := by
  cases form with
  | span first last =>
    have hle := hform first last rfl
    rw [RangeForm.named] at h
    split_ifs at h with hfirst
    cases h
    omega
  | openEnd first =>
    rw [RangeForm.named] at h
    split_ifs at h with hfirst
    cases h
    omega
  | suffix count =>
    rw [RangeForm.named] at h
    split_ifs at h with hsome
    cases h
    omega

theorem parseRange_part_bounds (hsize : size ≤ u64Max) {value : Option Text} {start stop : Nat}
    (h : parseRange value size = .part start stop) : start < stop ∧ stop ≤ size := by
  cases value with
  | none => cases h
  | some value =>
    obtain ⟨form, hform⟩ := isValue_of_parseRange (h ▸ nofun :
      parseRange (some value) size ≠ .whole)
    rw [parseRange_of_isValue hsize hform, RangeForm.asked] at h
    cases hnamed : form.named size with
    | none =>
      rw [hnamed] at h
      cases h
    | some bytes =>
      obtain ⟨start', stop'⟩ := bytes
      simp only [hnamed, RangeAsked.part.injEq] at h
      obtain ⟨rfl, rfl⟩ := h
      refine RangeForm.named_bounds ?_ hnamed
      rintro first last rfl
      obtain ⟨_, _, _, -, -, hle⟩ := hform
      exact hle

end Reading

structure MediaReply where
  status : Nat
  contentLength : Option Nat
  contentRange : Option Text
  streamed : Option (Nat × Nat)

def statusForTrust (status : Nat) (trusted : Bool) : Nat :=
  if trusted then status else 412

def digitsOf (n : Nat) : Text := (toString n).toList

def contentRangeText (start stop size : Nat) : Text :=
  "bytes ".toList ++ digitsOf start ++ '-' :: digitsOf (stop - 1) ++ '/' :: digitsOf size

/-- The status of a reply, the bytes it streams and what its headers say of them. -/
def getMedia (range : Option Text) (size : Nat) (isHead trusted : Bool) : MediaReply :=
  let bring (status start stop : Nat) : MediaReply :=
    { status := statusForTrust status trusted
      contentLength := some (stop - start)
      contentRange := if status = 206 then some (contentRangeText start stop size) else none
      streamed := if isHead ∨ start = stop then none else some (start, stop) }
  match parseRange range size with
  | .whole => bring 200 0 size
  | .part start stop => bring 206 start stop
  | .unsatisfiable =>
      { status := 416
        contentLength := none
        contentRange := some ("bytes */".toList ++ digitsOf size)
        streamed := none }

/-- Exactly the forms are ranges, each with the bytes it names. -/
structure ReadsExactly (value : Option Text) (size : Nat) (asked : RangeAsked) : Prop where
  part_iff : ∀ start stop, asked = .part start stop ↔
    ∃ text, ∃ form : RangeForm, value = some text ∧ form.IsValue Digits text ∧
      form.named size = some (start, stop)
  unsatisfiable_iff : asked = .unsatisfiable ↔
    ∃ text, ∃ form : RangeForm, value = some text ∧ form.IsValue Digits text ∧
      form.named size = none
  whole_iff : asked = .whole ↔
    ¬ ∃ text, ∃ form : RangeForm, value = some text ∧ form.IsValue Digits text

/-- The value is one of the forms and has a number with a plus sign. -/
def HasPlus (value : Option Text) : Prop :=
  ∃ text, ∃ form : RangeForm, value = some text ∧ form.IsValue SignedDigits text ∧ '+' ∈ text

section Exactness

variable {value : Option Text} {text : Text} {size : Nat} {form : RangeForm}

theorem RangeForm.IsValue.signed (h : form.IsValue Digits text) :
    form.IsValue SignedDigits text := by
  obtain ⟨firstPart, lastPart, hvalue, hform⟩ := h
  refine ⟨firstPart, lastPart, hvalue, ?_⟩
  cases form with
  | span first last => exact ⟨.inl hform.1, .inl hform.2.1, hform.2.2⟩
  | openEnd first => exact ⟨.inl hform.1, hform.2⟩
  | suffix count => exact ⟨hform.1, .inl hform.2⟩

theorem SignedDigits.digits {n : Nat} (h : SignedDigits text n) (hplus : '+' ∉ text) :
    Digits text n := by
  rcases h with h | ⟨rest, rfl, -⟩
  · exact h
  · exact absurd List.mem_cons_self hplus

/-- The sides of the dash have a plus sign where the value has one. -/
theorem plus_mem_iff {firstPart lastPart : Text}
    (hvalue : trim text = bytesUnit ++ (firstPart ++ '-' :: lastPart)) :
    '+' ∈ text ↔ '+' ∈ trim firstPart ∨ '+' ∈ trim lastPart := by
  have hplus : isWhitespace '+' = false := by decide
  rw [← TextParsing.mem_trim_iff hplus, hvalue, TextParsing.mem_trim_iff hplus,
    TextParsing.mem_trim_iff hplus]
  simp [bytesUnit]

theorem RangeForm.IsValue.digits (h : form.IsValue SignedDigits text) (hplus : '+' ∉ text) :
    form.IsValue Digits text := by
  obtain ⟨firstPart, lastPart, hvalue, hform⟩ := h
  rw [plus_mem_iff hvalue, not_or] at hplus
  refine ⟨firstPart, lastPart, hvalue, ?_⟩
  cases form with
  | span first last => exact ⟨hform.1.digits hplus.1, hform.2.1.digits hplus.2, hform.2.2⟩
  | openEnd first => exact ⟨hform.1.digits hplus.1, hform.2⟩
  | suffix count => exact ⟨hform.1, hform.2.digits hplus.2⟩

theorem RangeForm.IsValue.not_plus (h : form.IsValue Digits text) : '+' ∉ text := by
  obtain ⟨firstPart, lastPart, hvalue, hform⟩ := h
  have hnumber : ∀ {part n}, Digits part n → '+' ∉ part :=
    fun hdigits => TextParsing.not_mem_of_numeral TextParsing.digitOf_plus hdigits
  rw [plus_mem_iff hvalue, not_or]
  cases form with
  | span first last => exact ⟨hnumber hform.1, hnumber hform.2.1⟩
  | openEnd first => exact ⟨hnumber hform.1, hform.2 ▸ List.not_mem_nil⟩
  | suffix count => exact ⟨hform.1 ▸ List.not_mem_nil, hnumber hform.2⟩

theorem asked_ne_whole (form : RangeForm) : form.asked size ≠ .whole := by
  rw [RangeForm.asked]
  cases form.named size <;> exact nofun

theorem readsExactly_of_not_hasPlus (hsize : size ≤ u64Max) (hplus : ¬ HasPlus value) :
    ReadsExactly value size (parseRange value size) := by
  have hread : ∀ text (form : RangeForm), value = some text → form.IsValue Digits text →
      parseRange value size = form.asked size := by
    rintro text form rfl hform
    exact parseRange_of_isValue hsize hform.signed
  have hform : parseRange value size ≠ .whole →
      ∃ text, ∃ form : RangeForm, value = some text ∧ form.IsValue Digits text := by
    intro hne
    cases value with
    | none => exact absurd rfl hne
    | some text =>
      obtain ⟨form, hsigned⟩ := isValue_of_parseRange hne
      exact ⟨text, form, rfl, hsigned.digits fun hmem => hplus ⟨text, form, rfl, hsigned, hmem⟩⟩
  constructor
  case part_iff =>
    intro start stop
    constructor
    · intro hpart
      obtain ⟨text, form, hvalue, hdigits⟩ := hform (hpart ▸ nofun)
      refine ⟨text, form, hvalue, hdigits, ?_⟩
      rw [hread text form hvalue hdigits, RangeForm.asked] at hpart
      cases hnamed : form.named size with
      | none =>
        rw [hnamed] at hpart
        cases hpart
      | some bytes =>
        simp only [hnamed] at hpart
        cases hpart
        rfl
    · rintro ⟨text, form, hvalue, hdigits, hnamed⟩
      rw [hread text form hvalue hdigits, RangeForm.asked, hnamed]
  case unsatisfiable_iff =>
    constructor
    · intro hnone
      obtain ⟨text, form, hvalue, hdigits⟩ := hform (hnone ▸ nofun)
      refine ⟨text, form, hvalue, hdigits, ?_⟩
      rw [hread text form hvalue hdigits, RangeForm.asked] at hnone
      cases hnamed : form.named size with
      | none => rfl
      | some bytes =>
        rw [hnamed] at hnone
        cases hnone
    · rintro ⟨text, form, hvalue, hdigits, hnamed⟩
      rw [hread text form hvalue hdigits, RangeForm.asked, hnamed]
  case whole_iff =>
    constructor
    · rintro hwhole ⟨text, form, hvalue, hdigits⟩
      rw [hread text form hvalue hdigits] at hwhole
      exact asked_ne_whole form hwhole
    · intro hnot
      by_contra hne
      exact hnot (hform hne)

/-- Exactly where no form has a number with a plus sign ranges are read exactly. Whatever the
value, a part has bytes and lies in the medium, and the reply brings it and says so. -/
theorem ranges_exact_iff (hsize : size ≤ u64Max) (value : Option Text) :
    (ReadsExactly value size (parseRange value size) ↔ ¬ HasPlus value) ∧
    ∀ start stop, parseRange value size = .part start stop →
      start < stop ∧ stop ≤ size ∧ ∀ isHead trusted,
        (getMedia value size isHead trusted).contentLength = some (stop - start) ∧
        (getMedia value size isHead trusted).contentRange =
          some (contentRangeText start stop size) ∧
        (getMedia value size isHead trusted).streamed =
          if isHead then none else some (start, stop) := by
  refine ⟨⟨?_, readsExactly_of_not_hasPlus hsize⟩, fun start stop hpart => ?_⟩
  · rintro hexact ⟨text, form, rfl, hsigned, hplus⟩
    have hread := parseRange_of_isValue hsize hsigned
    have hne : parseRange (some text) size ≠ .whole := hread ▸ asked_ne_whole form
    obtain ⟨text', form', hvalue, hdigits⟩ := not_not.mp (mt hexact.whole_iff.mpr hne)
    cases hvalue
    exact hdigits.not_plus hplus
  · obtain ⟨hlt, hle⟩ := parseRange_part_bounds hsize hpart
    refine ⟨hlt, hle, fun isHead trusted => ?_⟩
    rw [getMedia, hpart]
    simp only [if_true, hlt.ne, or_false, true_and]

theorem ranges_exact_of_hundred :
    ReadsExactly (some "bytes=100-199".toList) 1000
      (parseRange (some "bytes=100-199".toList) 1000) ∧
    (getMedia (some "bytes=100-199".toList) 1000 false true).contentRange =
      some (contentRangeText 100 200 1000) := by
  obtain ⟨hexact, hparts⟩ :=
    ranges_exact_iff (by decide : 1000 ≤ u64Max) (some "bytes=100-199".toList)
  refine ⟨hexact.mpr ?_, ((hparts 100 200 (by decide)).2.2 false true).2.1⟩
  rintro ⟨text, form, hvalue, -, hplus⟩
  cases hvalue
  exact absurd hplus (by decide)

/-- A number with a plus sign is read as the number. -/
theorem plus_is_read :
    parseRange (some "bytes=+0-5".toList) 1000 = .part 0 6 ∧
    ¬ ReadsExactly (some "bytes=+0-5".toList) 1000
      (parseRange (some "bytes=+0-5".toList) 1000) := by
  have hpart : parseRange (some "bytes=+0-5".toList) 1000 = .part 0 6 := by decide
  refine ⟨hpart, fun hexact => ?_⟩
  obtain ⟨text, form, hvalue, hdigits, -⟩ := (hexact.part_iff 0 6).mp hpart
  cases hvalue
  exact hdigits.not_plus (by decide)

end Exactness

end DataPlane
end WbfMatrixClient
