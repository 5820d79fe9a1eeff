import Mathlib.Data.List.Basic

/-!
# Authenticated encryption and its nonces

An authenticated cipher given by its two operations and the two facts the
developments rely on: what was sealed opens again, and sealing adds a tag of
fixed length. The plaintexts sealed in a run are kept in a log, and a log uses
its nonces uniquely when a key and a nonce determine the sealed pair.
-/

namespace WbfMatrixClient
namespace Sealing

universe u v w

/-- A cipher over keys K and nonces N whose tag has the given length. -/
structure Aead (K : Type u) (N : Type v) (tagLen : Nat) where
  encrypt : K → N → (aad plain : List UInt8) → List UInt8
  decrypt : K → N → (aad sealed : List UInt8) → Option (List UInt8)
  decrypt_encrypt : ∀ k n aad plain, decrypt k n aad (encrypt k n aad plain) = some plain
  length_encrypt : ∀ k n aad plain, (encrypt k n aad plain).length = plain.length + tagLen

/-- The cipher that leaves the plaintext as it is and adds a tag of zeros. -/
def Aead.transparent (K : Type u) (N : Type v) (tagLen : Nat) : Aead K N tagLen where
  encrypt _ _ _ plain := plain ++ List.replicate tagLen 0
  decrypt _ _ _ sealed := some (sealed.take (sealed.length - tagLen))
  decrypt_encrypt := by
    intro k n aad plain
    simp
  length_encrypt := by
    intro k n aad plain
    simp

/-- The first bytes of a text, and zeros in place of the others. -/
def torn (text : List UInt8) (kept : Nat) : List UInt8 :=
  text.take kept ++ List.replicate (text.length - kept) 0

theorem torn_of_length_le {text : List UInt8} {kept : Nat} (h : text.length ≤ kept) :
    torn text kept = text := by
  rw [torn, List.take_of_length_le h, Nat.sub_eq_zero_of_le h, List.replicate_zero,
    List.append_nil]

theorem drop_torn (first rest : List UInt8) {kept : Nat} (h : first.length ≤ kept) :
    (torn (first ++ rest) kept).drop first.length = torn rest (kept - first.length) := by
  rw [torn, List.take_append, List.take_of_length_le h, List.append_assoc, List.drop_left' rfl,
    torn, List.length_append]
  congr 2
  omega

/-- What nobody has sealed does not open: neither zeros, nor a sealed text of which
only the first bytes are there. -/
structure Aead.RejectsTorn {K : Type u} {N : Type v} {tagLen : Nat} (aead : Aead K N tagLen) :
    Prop where
  blank : ∀ k n aad len, aead.decrypt k n aad (List.replicate len 0) = none
  torn : ∀ k n aad plain kept,
    torn (aead.encrypt k n aad plain) kept ≠ aead.encrypt k n aad plain →
    aead.decrypt k n aad (torn (aead.encrypt k n aad plain) kept) = none

/-- The cipher that leaves the plaintext as it is, adds a tag of ones, and looks for
this tag. -/
def Aead.marked (K : Type u) (N : Type v) (tagLen : Nat) : Aead K N tagLen where
  encrypt _ _ _ plain := plain ++ List.replicate tagLen 1
  decrypt _ _ _ sealed :=
    if sealed.drop (sealed.length - tagLen) = List.replicate tagLen 1 ∧ tagLen ≤ sealed.length then
      some (sealed.take (sealed.length - tagLen))
    else
      none
  decrypt_encrypt := by
    intro k n aad plain
    simp
  length_encrypt := by
    intro k n aad plain
    simp

/-- A text that ends in a zero does not end in the tag. -/
theorem Aead.marked_decrypt_zero {K : Type u} {N : Type v} {tagLen : Nat} (h : 0 < tagLen) (k : K)
    (n : N) (aad text : List UInt8) :
    (Aead.marked K N tagLen).decrypt k n aad (text ++ [0]) = none := by
  refine if_neg ?_
  rintro ⟨htag, hlength⟩
  have hlast := congrArg List.getLast? htag
  rw [List.getLast?_drop, if_neg (by omega), List.getLast?_append, List.getLast?_singleton,
    List.getLast?_replicate, if_neg (by omega)] at hlast
  simp at hlast

theorem Aead.marked_rejectsTorn (K : Type u) (N : Type v) {tagLen : Nat} (h : 0 < tagLen) :
    (Aead.marked K N tagLen).RejectsTorn := by
  constructor
  · intro k n aad len
    cases len with
    | zero => exact if_neg fun hboth => absurd hboth.2 (by simp; omega)
    | succ len =>
      rw [List.replicate_succ']
      exact marked_decrypt_zero h k n aad _
  · intro k n aad plain kept hne
    have hkept : kept < ((Aead.marked K N tagLen).encrypt k n aad plain).length := by
      by_contra hle
      exact hne (torn_of_length_le (by omega))
    obtain ⟨more, hmore⟩ := Nat.exists_eq_add_of_lt hkept
    have hgap : ((Aead.marked K N tagLen).encrypt k n aad plain).length - kept = more + 1 := by
      omega
    rw [Sealing.torn, hgap, List.replicate_succ', ← List.append_assoc]
    exact marked_decrypt_zero h k n aad _

/-- One call of the sealing operation. -/
structure Sealed (K : Type u) (N : Type v) where
  key : K
  nonce : N
  aad : List UInt8
  plain : List UInt8
deriving DecidableEq

/-- A cipher given by its two operations alone. -/
structure Cipher (K : Type u) (N : Type v) where
  encrypt : K → N → (aad plain : List UInt8) → Option (List UInt8)
  decrypt : K → N → (aad sealed : List UInt8) → Option (List UInt8)

namespace Cipher

variable {K : Type u} {N : Type v} {cipher : Cipher K N} {log : List (Sealed K N)}

/-- What opens is what sealing makes, and it opens to what has been sealed. -/
def Exact (cipher : Cipher K N) : Prop :=
  ∀ k n aad plain sealed,
    cipher.decrypt k n aad sealed = some plain ↔ cipher.encrypt k n aad plain = some sealed

/-- What one call makes. -/
def text (cipher : Cipher K N) (call : Sealed K N) : Option (List UInt8) :=
  cipher.encrypt call.key call.nonce call.aad call.plain

/-- No two calls make one text. -/
def Apart (cipher : Cipher K N) (log : List (Sealed K N)) : Prop :=
  ∀ a ∈ log, ∀ b ∈ log, ∀ sealed,
    cipher.text a = some sealed → cipher.text b = some sealed → a = b

/-- The ideal cipher for what has ever been sealed: this opens, and nothing else does. -/
structure Ideal (cipher : Cipher K N) (log : List (Sealed K N)) : Prop where
  opens_iff : ∀ k n aad plain sealed,
    cipher.decrypt k n aad sealed = some plain ↔
      (⟨k, n, aad, plain⟩ : Sealed K N) ∈ log ∧ cipher.encrypt k n aad plain = some sealed
  apart : cipher.Apart log

/-- To open a text is to look up the call that has made it. -/
def ofLog [DecidableEq K] [DecidableEq N]
    (encrypt : K → N → (aad plain : List UInt8) → Option (List UInt8))
    (log : List (Sealed K N)) : Cipher K N where
  encrypt := encrypt
  decrypt k n aad sealed :=
    (log.find? fun call => call.key = k ∧ call.nonce = n ∧ call.aad = aad ∧
      encrypt call.key call.nonce call.aad call.plain = some sealed).map Sealed.plain

theorem ofLog_ideal [DecidableEq K] [DecidableEq N]
    {encrypt : K → N → (aad plain : List UInt8) → Option (List UInt8)}
    (hapart : (ofLog encrypt log).Apart log) : (ofLog encrypt log).Ideal log := by
  refine ⟨fun k n aad plain sealed => ⟨fun h => ?_, fun ⟨hcall, hsealed⟩ => ?_⟩, hapart⟩
  · obtain ⟨call, hfound, rfl⟩ := Option.map_eq_some_iff.mp h
    have hmem := List.mem_of_find?_eq_some hfound
    obtain ⟨rfl, rfl, rfl, hsealed⟩ := of_decide_eq_true (List.find?_some hfound :)
    exact ⟨hmem, hsealed⟩
  · have hsome : (log.find? fun call => call.key = k ∧ call.nonce = n ∧ call.aad = aad ∧
        encrypt call.key call.nonce call.aad call.plain = some sealed).isSome := by
      rw [List.find?_isSome]
      exact ⟨_, hcall, decide_eq_true ⟨rfl, rfl, rfl, hsealed⟩⟩
    obtain ⟨call, hfound⟩ := Option.isSome_iff_exists.mp hsome
    have hmem := List.mem_of_find?_eq_some hfound
    obtain ⟨_, _, _, hmade⟩ := of_decide_eq_true (List.find?_some hfound :)
    have hsame := hapart call hmem _ hcall sealed hmade hsealed
    rw [ofLog]
    simp only [hfound, hsame, Option.map_some]

/-- The plaintext with a tag after it, which is taken off again where it is the right one. -/
def tagged (tag : K → N → List UInt8 → List UInt8) : Cipher K N where
  encrypt k n aad plain := some (plain ++ tag k n aad)
  decrypt k n aad sealed :=
    if tag k n aad <:+ sealed then some (sealed.take (sealed.length - (tag k n aad).length))
    else none

theorem tagged_exact (tag : K → N → List UInt8 → List UInt8) : (tagged tag).Exact := by
  intro k n aad plain sealed
  simp only [tagged]
  split_ifs with htag
  · obtain ⟨kept, rfl⟩ := htag
    simp [eq_comm]
  · constructor
    · exact nofun
    · intro h
      exact absurd ⟨plain, Option.some.inj h⟩ htag

end Cipher

section Logs

variable {K : Type u} {N : Type v} {ι : Type w}

/-- No key and nonce seal two different pairs. -/
def NonceUnique (log : List (Sealed K N)) : Prop :=
  ∀ a ∈ log, ∀ b ∈ log, a.key = b.key → a.nonce = b.nonce → a = b

theorem nonceUnique_nil : NonceUnique ([] : List (Sealed K N)) := by
  intro a ha
  simp at ha

/-- A log whose entries are drawn from a family that its nonces index. -/
theorem nonceUnique_of_family {log : List (Sealed K N)} {used : ι → Prop} {entry : ι → Sealed K N}
    (hlog : ∀ a ∈ log, ∃ i, used i ∧ a = entry i)
    (hinj : ∀ i j, used i → used j → (entry i).key = (entry j).key → (entry i).nonce = (entry
      j).nonce → entry i = entry j) : NonceUnique log := by
  intro a ha b hb hkey hnonce
  obtain ⟨i, hi, rfl⟩ := hlog a ha
  obtain ⟨j, hj, rfl⟩ := hlog b hb
  exact hinj i j hi hj hkey hnonce

end Logs

end Sealing
end WbfMatrixClient
