import Mathlib.Data.List.Basic

/-!
# Bytes written as text

A text form of bytes, given by its two operations. Its alphabet leaves a
separator out, so that two parts with the separator between them can be told
apart.
-/

namespace WbfMatrixClient

structure Armor where
  encode : List UInt8 → List Char
  decode : List Char → Option (List UInt8)

/-- Every text is the form of what it is read as, and the separator is in no text. -/
structure Armor.Lawful (armor : Armor) (sep : Char) : Prop where
  decode_eq_some_iff : ∀ text bytes, armor.decode text = some bytes ↔ armor.encode bytes = text
  sep_notMem : ∀ bytes, sep ∉ armor.encode bytes

namespace Armor.Lawful

variable {armor : Armor} {sep : Char}

theorem decode_encode (h : armor.Lawful sep) (bytes : List UInt8) :
    armor.decode (armor.encode bytes) = some bytes := (h.decode_eq_some_iff _ _).mpr rfl

theorem encode_injective (h : armor.Lawful sep) : Function.Injective armor.encode := by
  intro a b hab
  have hdecode := congrArg armor.decode hab
  rw [h.decode_encode, h.decode_encode] at hdecode
  exact Option.some.inj hdecode

end Armor.Lawful
end WbfMatrixClient
