import Mathlib.Data.List.Basic
import Mathlib.Tactic.Ring

/-!
# Numbers as bytes

Little-endian and big-endian encodings of a fixed width. Within the width they
are injective, and reading one back gives the number. Every list of bytes is the
encoding of what it denotes.
-/

namespace WbfMatrixClient
namespace Bytes

/-- The lowest bytes of a number, least significant first. -/
def toLittleEndian : (width : Nat) → (n : Nat) → List UInt8
  | 0, _ => []
  | width + 1, n => UInt8.ofNat n :: toLittleEndian width (n / 256)

/-- The number a list of bytes denotes, least significant first. -/
def ofLittleEndian : List UInt8 → Nat
  | [] => 0
  | byte :: bytes => byte.toNat + 256 * ofLittleEndian bytes

@[simp] theorem length_toLittleEndian (width n : Nat) :
    (toLittleEndian width n).length = width := by
  induction width generalizing n with
  | zero => rfl
  | succ width ih => simp [toLittleEndian, ih]

theorem ofLittleEndian_toLittleEndian (width : Nat) :
    ∀ n, n < 256 ^ width → ofLittleEndian (toLittleEndian width n) = n := by
  induction width with
  | zero =>
    intro n h
    simp only [Nat.pow_zero] at h
    simp only [toLittleEndian, ofLittleEndian]
    omega
  | succ width ih =>
    intro n h
    rw [Nat.pow_succ] at h
    have hdiv : n / 256 < 256 ^ width := by
      rw [Nat.div_lt_iff_lt_mul (by decide)]
      exact h
    simp only [toLittleEndian, ofLittleEndian, ih (n / 256) hdiv, UInt8.toNat_ofNat']
    omega

variable {width n : Nat}

theorem toLittleEndian_injective {m : Nat} (hm : m < 256 ^ width) (hn : n < 256 ^ width)
    (h : toLittleEndian width m = toLittleEndian width n) : m = n := by
  rw [← ofLittleEndian_toLittleEndian width m hm, h, ofLittleEndian_toLittleEndian width n hn]

theorem ofLittleEndian_lt (bytes : List UInt8) : ofLittleEndian bytes < 256 ^ bytes.length := by
  induction bytes with
  | nil => decide
  | cons byte bytes ih =>
    have hbyte : byte.toNat < 256 := byte.toNat_lt
    rw [ofLittleEndian, List.length_cons, Nat.pow_succ]
    omega

theorem toLittleEndian_ofLittleEndian (bytes : List UInt8) :
    toLittleEndian bytes.length (ofLittleEndian bytes) = bytes := by
  induction bytes with
  | nil => rfl
  | cons byte bytes ih =>
    have hbyte : byte.toNat < 256 := byte.toNat_lt
    have hdiv : (byte.toNat + 256 * ofLittleEndian bytes) / 256 = ofLittleEndian bytes := by omega
    have hlow : UInt8.ofNat (byte.toNat + 256 * ofLittleEndian bytes) = byte := by
      apply UInt8.toNat_inj.mp
      rw [UInt8.toNat_ofNat']
      omega
    rw [ofLittleEndian, List.length_cons, toLittleEndian, hdiv, hlow, ih]

/-- The lowest bytes of a number, most significant first. -/
def toBigEndian (width n : Nat) : List UInt8 :=
  (toLittleEndian width n).reverse

@[simp] theorem length_toBigEndian (width n : Nat) : (toBigEndian width n).length = width := by
  simp [toBigEndian]

theorem toBigEndian_injective {m : Nat} (hm : m < 256 ^ width) (hn : n < 256 ^ width)
    (h : toBigEndian width m = toBigEndian width n) :
    m = n := toLittleEndian_injective hm hn (List.reverse_injective h)

/-- The number a list of bytes denotes, most significant first. -/
def ofBigEndian (bytes : List UInt8) : Nat :=
  ofLittleEndian bytes.reverse

theorem ofBigEndian_toBigEndian (h : n < 256 ^ width) : ofBigEndian (toBigEndian width n) = n := by
  rw [ofBigEndian, toBigEndian, List.reverse_reverse, ofLittleEndian_toLittleEndian width n h]

theorem ofBigEndian_lt (bytes : List UInt8) : ofBigEndian bytes < 256 ^ bytes.length := by
  have h := ofLittleEndian_lt bytes.reverse
  rwa [List.length_reverse] at h

theorem toBigEndian_ofBigEndian (bytes : List UInt8) :
    toBigEndian bytes.length (ofBigEndian bytes) = bytes := by
  have h := toLittleEndian_ofLittleEndian bytes.reverse
  rw [List.length_reverse] at h
  rw [toBigEndian, ofBigEndian, h, List.reverse_reverse]

/-- Two lower-case digits for every byte. -/
def toHex (bytes : List UInt8) : List Char :=
  bytes.flatMap fun byte => [Nat.digitChar (byte.toNat / 16), Nat.digitChar (byte.toNat % 16)]

theorem length_toHex (bytes : List UInt8) : (toHex bytes).length = 2 * bytes.length := by
  induction bytes with
  | nil => rfl
  | cons byte bytes ih =>
    rw [toHex, List.flatMap_cons, ← toHex, List.length_append, ih, List.length_cons]
    simp only [List.length_cons, List.length_nil]
    omega

/-- Every character is one of the sixteen digits. -/
theorem mem_toHex {bytes : List UInt8} {c : Char} (h : c ∈ toHex bytes) :
    ∃ n, n < 16 ∧ c = Nat.digitChar n := by
  obtain ⟨byte, _, hc⟩ := List.mem_flatMap.mp h
  have hbyte : byte.toNat < 256 := byte.toNat_lt
  simp only [List.mem_cons, List.not_mem_nil, or_false] at hc
  rcases hc with rfl | rfl
  · exact ⟨byte.toNat / 16, by omega, rfl⟩
  · exact ⟨byte.toNat % 16, by omega, rfl⟩

/-- Bytes can be told by their text. -/
theorem toHex_injective : Function.Injective toHex := by
  have hdigit : ∀ a b : Fin 16, Nat.digitChar a = Nat.digitChar b → a = b := by decide
  intro xs
  induction xs with
  | nil =>
    intro ys h
    cases ys with
    | nil => rfl
    | cons y ys => cases h
  | cons x xs ih =>
    intro ys h
    cases ys with
    | nil => cases h
    | cons y ys =>
      rw [toHex, toHex, List.flatMap_cons, List.flatMap_cons, ← toHex, ← toHex] at h
      obtain ⟨hhigh, hrest⟩ := List.cons_eq_cons.mp h
      obtain ⟨hlow, hrest⟩ := List.cons_eq_cons.mp hrest
      have hx := x.toNat_lt
      have hy := y.toNat_lt
      have hhigh' := Fin.mk.inj (hdigit ⟨x.toNat / 16, by omega⟩ ⟨y.toNat / 16, by omega⟩ hhigh)
      have hlow' := Fin.mk.inj (hdigit ⟨x.toNat % 16, by omega⟩ ⟨y.toNat % 16, by omega⟩ hlow)
      have hxy : x = y := UInt8.toNat_inj.mp (by omega)
      rw [hxy, ih hrest]

end Bytes
end WbfMatrixClient
