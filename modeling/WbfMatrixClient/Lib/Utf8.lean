import Mathlib.Data.List.Basic

/-!
# Texts as bytes

The UTF-8 encoding of a text as a list of bytes. Decoding accepts exactly what
encoding makes, so a text and its bytes determine each other. A character of the
first 128 is one byte, and no other character has a byte below 128.
-/

namespace WbfMatrixClient
namespace Utf8

def encode (text : List Char) : List UInt8 :=
  text.flatMap String.utf8EncodeChar

def decode (bytes : List UInt8) : Option (List Char) :=
  bytes.toByteArray.utf8Decode?.map Array.toList

variable {text text' : List Char} {bytes : List UInt8}

theorem toByteArray_encode (text : List Char) : (encode text).toByteArray = text.utf8Encode := rfl

theorem decode_eq_some_iff : decode bytes = some text ↔ encode text = bytes := by
  constructor
  · intro h
    obtain ⟨chars, hchars, rfl⟩ := Option.map_eq_some_iff.mp h
    have hsome : bytes.toByteArray.utf8Decode?.isSome := by
      rw [hchars]
      rfl
    have hget : bytes.toByteArray.utf8Decode?.get hsome = chars := by
      simp only [hchars, Option.get_some]
    have hback : (bytes.toByteArray.utf8Decode?.get hsome).toList.utf8Encode =
        bytes.toByteArray :=
      ByteArray.utf8Encode_get_utf8Decode?
    rw [hget, ← toByteArray_encode] at hback
    exact List.toByteArray_inj.mp hback
  · rintro rfl
    rw [decode, toByteArray_encode, List.utf8Decode?_utf8Encode]
    rfl

@[simp] theorem decode_encode (text : List Char) : decode (encode text) = some text :=
  decode_eq_some_iff.mpr rfl

theorem encode_injective : Function.Injective encode := by
  intro text text' h
  have hdecode := congrArg decode h
  rw [decode_encode, decode_encode] at hdecode
  exact Option.some.inj hdecode

@[simp] theorem encode_nil : encode [] = [] := rfl

@[simp] theorem encode_cons (c : Char) (text : List Char) :
    encode (c :: text) = String.utf8EncodeChar c ++ encode text := List.flatMap_cons

@[simp] theorem encode_append (text text' : List Char) :
    encode (text ++ text') = encode text ++ encode text' := List.flatMap_append

variable {c : Char}

/-- Where the bytes of a character end is told by these bytes. -/
theorem utf8EncodeChar_append_inj {d : Char} {bytes bytes' : List UInt8}
    (h : String.utf8EncodeChar c ++ bytes = String.utf8EncodeChar d ++ bytes') :
    c = d ∧ bytes = bytes' := by
  have hfirst : ∀ (c : Char) (bytes : List UInt8),
      (String.utf8EncodeChar c ++ bytes).toByteArray.utf8DecodeChar? 0 = some c := by
    intro c bytes
    rw [List.toByteArray_append]
    exact ByteArray.utf8DecodeChar?_utf8EncodeChar_append
  have hsame := hfirst c bytes
  rw [h, hfirst d bytes'] at hsame
  obtain rfl := Option.some.inj hsame
  exact ⟨rfl, List.append_cancel_left h⟩

/-- A text whose bytes begin with those of a character begins with this character. -/
theorem exists_cons_of_encode (h : encode text = String.utf8EncodeChar c ++ bytes) :
    ∃ rest, text = c :: rest ∧ encode rest = bytes := by
  cases text with
  | nil =>
    have hlength := congrArg List.length h
    rw [encode_nil, List.length_append, String.length_utf8EncodeChar] at hlength
    have hpos := c.utf8Size_pos
    simp only [List.length_nil] at hlength
    omega
  | cons d rest =>
    rw [encode_cons] at h
    obtain ⟨rfl, hrest⟩ := utf8EncodeChar_append_inj h
    exact ⟨rest, rfl, hrest⟩

theorem length_le_length_encode (text : List Char) : text.length ≤ (encode text).length := by
  induction text with
  | nil => exact Nat.le_refl 0
  | cons c text ih =>
    have hpos : 0 < (String.utf8EncodeChar c).length := by
      rw [String.length_utf8EncodeChar]
      exact c.utf8Size_pos
    rw [encode_cons, List.length_append, List.length_cons]
    omega

theorem utf8EncodeChar_of_lt (h : c.toNat < 0x80) : String.utf8EncodeChar c = [c.toUInt8] := by
  have hle : c.val.toNat ≤ 0x7f := Nat.le_of_lt_succ h
  rw [String.utf8EncodeChar]
  simp only [if_pos hle]
  rfl

theorem le_of_mem_utf8EncodeChar {byte : UInt8} (h : 0x80 ≤ c.toNat)
    (hbyte : byte ∈ String.utf8EncodeChar c) : 0x80 ≤ byte.toNat := by
  have hnot : ¬ c.val.toNat ≤ 0x7f := Nat.not_le.mpr h
  rw [String.utf8EncodeChar] at hbyte
  simp only [if_neg hnot] at hbyte
  split_ifs at hbyte <;>
    simp only [List.mem_cons, List.not_mem_nil, or_false] at hbyte <;>
    rcases hbyte with rfl | rfl | rfl | rfl <;>
    simp only [UInt8.toNat_ofNat'] <;>
    omega

end Utf8
end WbfMatrixClient
