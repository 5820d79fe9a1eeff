import Mathlib.Data.Nat.Digits.Lemmas
import WbfMatrixClient.Lib.Armor

/-!
# Base58

A list of digits in one base as a list of digits in another one: the number it
denotes is written again, and every zero at its front stays. This is one to one,
since the zeros and the number determine the digits. Bytes as Base58 text are
digits in base 256 written in base 58.
-/

namespace WbfMatrixClient
namespace Radix

/-- The same number in another base, most significant digit first, with the same zeros before
it. -/
def transcode (b c : Nat) (digits : List Nat) : List Nat :=
  digits.takeWhile (· = 0) ++ (Nat.digits c (Nat.ofDigits b digits.reverse)).reverse

section Transcode

variable {b c : Nat} {digits : List Nat}

theorem takeWhile_zero_eq (digits : List Nat) :
    digits.takeWhile (· = 0) = List.replicate (digits.takeWhile (· = 0)).length 0 := by
  rw [List.eq_replicate_iff]
  refine ⟨rfl, fun d hd => ?_⟩
  have hzero := List.all_takeWhile (p := fun d : Nat => decide (d = 0)) (l := digits)
  exact of_decide_eq_true (List.all_eq_true.mp hzero d hd)

theorem ofDigits_dropWhile (digits : List Nat) :
    Nat.ofDigits b digits.reverse = Nat.ofDigits b (digits.dropWhile (· = 0)).reverse := by
  conv_lhs => rw [← List.takeWhile_append_dropWhile (p := fun d : Nat => decide (d = 0))
    (l := digits)]
  rw [List.reverse_append, takeWhile_zero_eq, List.reverse_replicate,
    Nat.ofDigits_append_replicate_zero]

/-- Written in its own base a number has the digits after the zeros. -/
theorem digits_ofDigits_reverse (hb : 1 < b) (hdigits : ∀ d ∈ digits, d < b) :
    Nat.digits b (Nat.ofDigits b digits.reverse) = (digits.dropWhile (· = 0)).reverse := by
  rw [ofDigits_dropWhile]
  refine Nat.digits_ofDigits b hb _ ?_ ?_
  · intro d hd
    exact hdigits d ((List.dropWhile_suffix _).subset (List.mem_reverse.mp hd))
  · intro hne
    rw [List.getLast_reverse]
    have hhead := List.head_dropWhile_not (p := fun d : Nat => decide (d = 0)) (l := digits)
      (by simpa using hne)
    simpa using hhead

theorem takeWhile_transcode (digits : List Nat) :
    (transcode b c digits).takeWhile (· = 0) = digits.takeWhile (· = 0) := by
  have hzero : ∀ d ∈ digits.takeWhile (· = 0), decide (d = 0) = true := by
    have h := List.all_takeWhile (p := fun d : Nat => decide (d = 0)) (l := digits)
    exact List.all_eq_true.mp h
  rw [transcode, List.takeWhile_append_of_pos hzero]
  have hrest : ((Nat.digits c (Nat.ofDigits b digits.reverse)).reverse).takeWhile
      (fun d => decide (d = 0)) = [] := by
    generalize Nat.ofDigits b digits.reverse = n
    by_cases hn : n = 0
    · rw [hn, Nat.digits_zero]
      rfl
    · have hlast := Nat.getLast_digit_ne_zero c hn
      rw [← List.head_reverse (by simpa using Nat.digits_ne_nil_iff_ne_zero.mpr hn)] at hlast
      cases hrev : (Nat.digits c n).reverse with
      | nil => rfl
      | cons d rest =>
        simp only [hrev, List.head_cons] at hlast
        rw [List.takeWhile_cons, if_neg (by simpa using hlast)]
  rw [hrest, List.append_nil]

/-- Back in the first base it is what it was. -/
theorem transcode_transcode (hb : 1 < b) (hdigits : ∀ d ∈ digits, d < b) :
    transcode c b (transcode b c digits) = digits := by
  have hvalue : Nat.ofDigits c (transcode b c digits).reverse =
      Nat.ofDigits b digits.reverse := by
    rw [transcode, List.reverse_append, List.reverse_reverse, takeWhile_zero_eq,
      List.reverse_replicate, Nat.ofDigits_append_replicate_zero, Nat.ofDigits_digits]
  rw [transcode, takeWhile_transcode, hvalue, digits_ofDigits_reverse hb hdigits,
    List.reverse_reverse, List.takeWhile_append_dropWhile]

theorem lt_of_mem_transcode (hc : 1 < c) {d : Nat} (hd : d ∈ transcode b c digits) : d < c := by
  rcases List.mem_append.mp hd with hd | hd
  · have hzero := List.all_takeWhile (p := fun d : Nat => decide (d = 0)) (l := digits)
    have hd0 := of_decide_eq_true (List.all_eq_true.mp hzero d hd)
    omega
  · exact Nat.digits_lt_base hc (List.mem_reverse.mp hd)

end Transcode

end Radix

namespace Base58

def alphabet : List Char :=
  "123456789ABCDEFGHJKLMNPQRSTUVWXYZabcdefghijkmnopqrstuvwxyz".toList

def encode (bytes : List UInt8) : List Char :=
  (Radix.transcode 256 58 (bytes.map UInt8.toNat)).map fun d => alphabet.getD d '1'

def decode (text : List Char) : Option (List UInt8) :=
  if text.all fun c => decide (c ∈ alphabet) then
    some ((Radix.transcode 58 256 (text.map fun c => alphabet.idxOf c)).map UInt8.ofNat)
  else
    none

def armor : Armor :=
  { encode := encode, decode := decode }

theorem length_alphabet : alphabet.length = 58 := by decide

theorem nodup_alphabet : alphabet.Nodup := by decide

variable {c : Char}

theorem idxOf_lt (h : c ∈ alphabet) :
    alphabet.idxOf c < 58 := length_alphabet ▸ List.idxOf_lt_length_of_mem h

variable {d : Nat}

theorem getD_mem (h : d < 58) : alphabet.getD d '1' ∈ alphabet := by
  rw [List.getD_eq_getElem?_getD, List.getElem?_eq_getElem (length_alphabet ▸ h), Option.getD_some]
  exact List.getElem_mem _

theorem idxOf_getD (h : d < 58) : alphabet.idxOf (alphabet.getD d '1') = d := by
  rw [List.getD_eq_getElem?_getD, List.getElem?_eq_getElem (length_alphabet ▸ h), Option.getD_some]
  exact nodup_alphabet.idxOf_getElem d _

theorem getD_idxOf (h : c ∈ alphabet) : alphabet.getD (alphabet.idxOf c) '1' = c := by
  rw [List.getD_eq_getElem?_getD, List.getElem?_idxOf h, Option.getD_some]

variable {bytes : List UInt8}

theorem mem_alphabet_of_mem_encode (h : c ∈ encode bytes) : c ∈ alphabet := by
  obtain ⟨d, hd, rfl⟩ := List.mem_map.mp h
  exact getD_mem (Radix.lt_of_mem_transcode (by decide) hd)

theorem toNat_lt_of_mem (h : d ∈ bytes.map UInt8.toNat) : d < 256 := by
  obtain ⟨byte, -, rfl⟩ := List.mem_map.mp h
  exact byte.toNat_lt

theorem decode_encode (bytes : List UInt8) : decode (encode bytes) = some bytes := by
  have hindices : (encode bytes).map (fun c => alphabet.idxOf c) =
      Radix.transcode 256 58 (bytes.map UInt8.toNat) := by
    rw [encode, List.map_map]
    refine (List.map_congr_left fun d hd => ?_).trans (List.map_id _)
    exact idxOf_getD (Radix.lt_of_mem_transcode (by decide) hd)
  rw [decode, if_pos (List.all_eq_true.mpr fun c hc => decide_eq_true (mem_alphabet_of_mem_encode hc)),
    hindices,
    Radix.transcode_transcode (by decide) fun d hd => toNat_lt_of_mem hd, List.map_map]
  exact congrArg some (List.map_id'' (fun _ => UInt8.ofNat_toNat) bytes)

theorem encode_of_decode {text : List Char} (h : decode text = some bytes) :
    encode bytes = text := by
  rw [decode] at h
  split_ifs at h with halphabet
  cases h
  have hmem : ∀ c ∈ text, c ∈ alphabet := fun c hc =>
    of_decide_eq_true (List.all_eq_true.mp halphabet c hc)
  have hdigits : ∀ d ∈ text.map (fun c => alphabet.idxOf c), d < 58 := by
    intro d hd
    obtain ⟨c, hc, rfl⟩ := List.mem_map.mp hd
    exact idxOf_lt (hmem c hc)
  have hbytes : ((Radix.transcode 58 256 (text.map fun c => alphabet.idxOf c)).map
      UInt8.ofNat).map UInt8.toNat =
        Radix.transcode 58 256 (text.map fun c => alphabet.idxOf c) := by
    rw [List.map_map]
    refine (List.map_congr_left fun d hd => ?_).trans (List.map_id _)
    exact UInt8.toNat_ofNat_of_lt' (Radix.lt_of_mem_transcode (by decide) hd)
  rw [encode, hbytes, Radix.transcode_transcode (by decide) hdigits, List.map_map]
  refine (List.map_congr_left fun c hc => ?_).trans (List.map_id _)
  exact getD_idxOf (hmem c hc)

theorem lawful :
    armor.Lawful '_' where
  decode_eq_some_iff _ _ := ⟨encode_of_decode, fun h => h ▸ decode_encode _⟩
  sep_notMem _ h := absurd (mem_alphabet_of_mem_encode h) (by decide)

end Base58
end WbfMatrixClient
