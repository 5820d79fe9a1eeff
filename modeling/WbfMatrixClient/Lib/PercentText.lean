import WbfMatrixClient.Lib.TextParsing
import WbfMatrixClient.Lib.Utf8

/-!
# Texts with escaped bytes

A percent sign and the two characters after it stand for a byte; every other
character stands for its own bytes. Which pairs are bytes is a parameter, so that
readers that take more than two hexadecimal digits can be compared with those
that do not.
-/

namespace WbfMatrixClient
namespace PercentText

open TextParsing (digitOf fromStrRadix)

section Escapes

variable (pair : Char → Char → Option UInt8)

def decodeBytes : List Char → Option (List UInt8)
  | [] => some []
  | '%' :: a :: b :: rest =>
      match pair a b with
      | none => none
      | some byte => (decodeBytes rest).map (byte :: ·)
  | ['%'] => none
  | ['%', _] => none
  | c :: rest => (decodeBytes rest).map (String.utf8EncodeChar c ++ ·)

/-- The bytes that a text stands for. -/
inductive Escaped : List Char → List UInt8 → Prop
  | nil : Escaped [] []
  | plain {c : Char} {rest : List Char} {bytes : List UInt8}
      (hc : c ≠ '%') (hrest : Escaped rest bytes) :
      Escaped (c :: rest) (String.utf8EncodeChar c ++ bytes)
  | byte {a b : Char} {rest : List Char} {value : UInt8} {bytes : List UInt8}
      (hpair : pair a b = some value) (hrest : Escaped rest bytes) :
      Escaped ('%' :: a :: b :: rest) (value :: bytes)

variable {pair} {text rest : List Char} {bytes : List UInt8}

theorem decodeBytes_cons {c : Char} (hc : c ≠ '%') (rest : List Char) :
    decodeBytes pair (c :: rest) =
      (decodeBytes pair rest).map (String.utf8EncodeChar c ++ ·) := by
  rw [decodeBytes.eq_def]
  split
  · next h => cases h
  · next h => exact absurd (List.cons.inj h).1 hc
  · next h => exact absurd (List.cons.inj h).1 hc
  · next h => exact absurd (List.cons.inj h).1 hc
  · next h =>
      obtain ⟨rfl, rfl⟩ := List.cons.inj h
      rfl

theorem decodeBytes_of_escaped (h : Escaped pair text bytes) :
    decodeBytes pair text = some bytes := by
  induction h with
  | nil => rfl
  | plain hc hrest ih => rw [decodeBytes_cons hc, ih, Option.map_some]
  | byte hpair hrest ih => simp only [decodeBytes, hpair, ih, Option.map_some]

theorem escaped_of_decodeBytes (h : decodeBytes pair text = some bytes) :
    Escaped pair text bytes := by
  fun_induction decodeBytes pair text generalizing bytes with
  | case1 =>
    cases h
    exact .nil
  | case2 a b rest hpair | case4 | case5 a => cases h
  | case3 a b rest byte hpair ih =>
    obtain ⟨bytes', hrest, rfl⟩ := Option.map_eq_some_iff.mp h
    exact .byte hpair (ih hrest)
  | case6 c rest hlong hone htwo ih =>
    obtain ⟨bytes', hrest, rfl⟩ := Option.map_eq_some_iff.mp h
    refine .plain ?_ (ih hrest)
    rintro rfl
    match rest with
    | [] => exact hone rfl rfl
    | [a] => exact htwo a rfl rfl
    | a :: b :: rest => exact hlong a b rest rfl rfl

theorem decodeBytes_eq_some_iff :
    decodeBytes pair text = some bytes ↔ Escaped pair text bytes :=
  ⟨escaped_of_decodeBytes, decodeBytes_of_escaped⟩

theorem Escaped.mono {pair' : Char → Char → Option UInt8}
    (hpair : ∀ a b value, pair a b = some value → pair' a b = some value)
    (h : Escaped pair text bytes) : Escaped pair' text bytes := by
  induction h with
  | nil => exact .nil
  | plain hc hrest ih => exact .plain hc ih
  | byte hbyte hrest ih => exact .byte (hpair _ _ _ hbyte) ih

end Escapes

/-- Two hexadecimal digits. -/
def hexPair (a b : Char) : Option UInt8 :=
  match digitOf 16 a, digitOf 16 b with
  | some high, some low => some (UInt8.ofNat (16 * high + low))
  | _, _ => none

/-- What is read as a number of one byte, so also one digit after a plus sign. -/
def numberPair (a b : Char) : Option UInt8 :=
  (fromStrRadix 16 255 [a, b]).map UInt8.ofNat

section Pairs

variable {a b c : Char} {d high low : Nat} {value : UInt8} {text : List Char} {bytes : List UInt8}

theorem digitOf_lt (h : digitOf 16 c = some d) : d < 16 := by
  simp only [digitOf, Option.ite_none_right_eq_some, Option.some.injEq] at h
  exact h.2 ▸ h.1

theorem hexPair_eq_some_iff :
    hexPair a b = some value ↔ ∃ high low, digitOf 16 a = some high ∧ digitOf 16 b = some low ∧
      value = UInt8.ofNat (16 * high + low) := by
  rw [hexPair.eq_def]
  constructor
  · intro h
    split at h
    · next high low hhigh hlow => exact ⟨high, low, hhigh, hlow, (Option.some.inj h).symm⟩
    · cases h
  · rintro ⟨high, low, hhigh, hlow, rfl⟩
    simp only [hhigh, hlow]

theorem numberPair_of_hexPair (h : hexPair a b = some value) : numberPair a b = some value := by
  obtain ⟨high, low, hhigh, hlow, rfl⟩ := hexPair_eq_some_iff.mp h
  have hlt := digitOf_lt hhigh
  have hlt' := digitOf_lt hlow
  have hplus : a ≠ '+' := by
    rintro rfl
    rw [TextParsing.digitOf_plus] at hhigh
    cases hhigh
  have hread : fromStrRadix 16 255 [a, b] = some (16 * high + low) := by
    rw [TextParsing.fromStrRadix_eq_some_iff (by decide)]
    refine .inl ⟨nofun, by omega, [high, low], .cons hhigh (.cons hlow .nil), ?_⟩
    simp only [List.foldl_cons, List.foldl_nil]
    omega
  rw [numberPair, hread, Option.map_some]

/-- A number of two characters that are not two digits has a plus sign. -/
theorem eq_plus_or_hexPair (h : numberPair a b = some value) :
    a = '+' ∨ hexPair a b = some value := by
  obtain ⟨n, hread, rfl⟩ := Option.map_eq_some_iff.mp h
  obtain ⟨-, -, digits, hdigits, rfl⟩ | ⟨rest, hplus, -⟩ :=
    (TextParsing.fromStrRadix_eq_some_iff (by decide)).mp hread
  · cases hdigits with
    | cons hhigh htail =>
      cases htail with
      | cons hlow hnil =>
        cases hnil
        refine .inr (hexPair_eq_some_iff.mpr ⟨_, _, hhigh, hlow, ?_⟩)
        simp only [List.foldl_cons, List.foldl_nil, Nat.zero_mul, Nat.zero_add, Nat.mul_comm]
  · exact .inl (List.cons.inj hplus).1

theorem escaped_numberPair (h : Escaped hexPair text bytes) :
    Escaped numberPair text bytes := h.mono fun _ _ _ => numberPair_of_hexPair

theorem not_plus_of_escaped (h : Escaped hexPair text bytes) : ¬ ['%', '+'] <:+: text := by
  induction h with
  | nil => simp
  | plain hc hrest ih =>
    rw [List.infix_cons_iff, List.cons_prefix_cons]
    rintro (⟨hpercent, -⟩ | hin)
    · exact hc hpercent.symm
    · exact ih hin
  | byte hpair hrest ih =>
    obtain ⟨high, low, hhigh, hlow, -⟩ := hexPair_eq_some_iff.mp hpair
    have hdigit : ∀ {c d}, digitOf 16 c = some d → c ≠ '+' ∧ c ≠ '%' := by
      rintro c d hd
      constructor
      · rintro rfl
        rw [TextParsing.digitOf_plus] at hd
        cases hd
      · rintro rfl
        cases hd
    simp only [List.infix_cons_iff, List.cons_prefix_cons]
    rintro (⟨-, hplus, -⟩ | ⟨hpercent, -⟩ | ⟨hpercent, -⟩ | hin)
    · exact (hdigit hhigh).1 hplus.symm
    · exact (hdigit hhigh).2 hpercent.symm
    · exact (hdigit hlow).2 hpercent.symm
    · exact ih hin

/-- Without a plus sign after a percent sign every number is two digits. -/
theorem escaped_hexPair (h : Escaped numberPair text bytes) (hnot : ¬ ['%', '+'] <:+: text) :
    Escaped hexPair text bytes := by
  induction h with
  | nil => exact .nil
  | plain hc hrest ih => exact .plain hc (ih fun hin => hnot (List.infix_cons_iff.mpr (.inr hin)))
  | byte hpair hrest ih =>
    simp only [List.infix_cons_iff, List.cons_prefix_cons, not_or] at hnot
    obtain rfl | hhex := eq_plus_or_hexPair hpair
    · exact absurd ⟨trivial, rfl, List.nil_prefix⟩ hnot.1
    · exact .byte hhex (ih hnot.2.2.2)

end Pairs

def escapeByte (byte : UInt8) : List Char :=
  ['%', (Nat.digitChar (byte.toNat / 16)).toUpper, (Nat.digitChar (byte.toNat % 16)).toUpper]

/-- The text with the bytes of all characters escaped but of those that are kept. -/
def encode (keep : Char → Bool) (text : List Char) : List Char :=
  text.flatMap fun c => if keep c then [c] else (String.utf8EncodeChar c).flatMap escapeByte

section Escaping

variable {keep : Char → Bool} {rest : List Char} {bytes : List UInt8}

theorem digitOf_digitChar {n : Nat} (h : n < 16) :
    digitOf 16 (Nat.digitChar n).toUpper = some n := by
  revert n
  decide

theorem escaped_escapeByte (hrest : Escaped hexPair rest bytes) (byte : UInt8) :
    Escaped hexPair (escapeByte byte ++ rest) (byte :: bytes) := by
  have hlt := byte.toNat_lt
  refine .byte (hexPair_eq_some_iff.mpr ⟨_, _, digitOf_digitChar (by omega),
    digitOf_digitChar (by omega), ?_⟩) hrest
  rw [Nat.div_add_mod, UInt8.ofNat_toNat]

theorem escaped_escapeBytes (hrest : Escaped hexPair rest bytes) (first : List UInt8) :
    Escaped hexPair (first.flatMap escapeByte ++ rest) (first ++ bytes) := by
  induction first with
  | nil => exact hrest
  | cons byte first ih =>
    rw [List.flatMap_cons, List.append_assoc]
    exact escaped_escapeByte ih byte

/-- What has been escaped stands for the bytes of the text. -/
theorem escaped_encode (hkeep : keep '%' = false) (text : List Char) :
    Escaped hexPair (encode keep text) (Utf8.encode text) := by
  induction text with
  | nil => exact .nil
  | cons c text ih =>
    rw [encode, List.flatMap_cons, ← encode, Utf8.encode_cons]
    split_ifs with hc
    · exact .plain (fun h => by rw [h, hkeep] at hc; cases hc) ih
    · exact escaped_escapeBytes ih _

/-- A character of what has been escaped is one that is kept, a percent sign or a digit. -/
theorem mem_encode {c : Char} {text : List Char} (h : c ∈ encode keep text) :
    keep c = true ∨ c = '%' ∨ ∃ d, digitOf 16 c = some d := by
  obtain ⟨k, hk, hc⟩ := List.mem_flatMap.mp h
  split_ifs at hc with hkeep
  · rw [List.mem_singleton.mp hc]
    exact .inl hkeep
  · obtain ⟨byte, hbyte, hc⟩ := List.mem_flatMap.mp hc
    have hlt := byte.toNat_lt
    simp only [escapeByte, List.mem_cons, List.not_mem_nil, or_false] at hc
    obtain rfl | rfl | rfl := hc
    · exact .inr (.inl rfl)
    · exact .inr (.inr ⟨_, digitOf_digitChar (by omega)⟩)
    · exact .inr (.inr ⟨_, digitOf_digitChar (by omega)⟩)

end Escaping

end PercentText
end WbfMatrixClient
