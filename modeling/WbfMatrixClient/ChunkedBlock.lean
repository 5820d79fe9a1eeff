import WbfMatrixClient.Lib.Bytes
import WbfMatrixClient.Lib.Sealing
import WbfMatrixClient.Wire
import Mathlib.Logic.Equiv.List

/-!
# The chunked block

The parameters of one chunked file. The same record is the event block, which
carries the file key, and the description kept by the server, which does not;
two checks tell which of the two a block may serve as.

The ciphers, the hash function and the JSON codec of the block come from other
packages. They are collected in one structure together with what the program
relies on: a cipher opens what it sealed and adds a tag of sixteen bytes, a
digest has thirty-two bytes, and a block that was written as JSON is read back.
-/

namespace WbfMatrixClient

open Sealing

def keyLen : Nat := 32

def nonceBaseLen : Nat := 8

def tagLen : Nat := 16

def conventionV : Nat := 1

inductive Cipher where
  | chaCha20Poly1305
  | aes256Gcm
  | none
deriving DecidableEq

def Cipher.isEncrypting : Cipher → Bool
  | .none => false
  | _ => true

abbrev FileKey : Type := Vector UInt8 keyLen

abbrev NonceBase : Type := Vector UInt8 nonceBaseLen

/-- The event block, or the description when it has no key. A hash is kept as
the characters of its text. -/
structure ChunkedBlock where
  v : Nat
  cipher : Cipher
  key : Option FileKey
  nonceBase : Option NonceBase
  chunkSize : Nat
  fileSize : Option Nat
  name : Option String
  mimetype : Option String
  sha256 : Option (List Char)
deriving DecidableEq

inductive BlockError where
  | unknownVersion (v : Nat)
  | missingKey
  | unexpectedKey
  | missingNonceBase
  | unexpectedNonceBase
  | chunkSizeZero
  | missingFileSize

def BlockError.message : BlockError → String
  | .unknownVersion v => "unknown convention version " ++ toString v
  | .missingKey => "encrypted mode but no key"
  | .unexpectedKey => "key present where it must not be"
  | .missingNonceBase => "encrypted mode but no nonce_base"
  | .unexpectedNonceBase => "plaintext mode but nonce_base present"
  | .chunkSizeZero => "chunk_size is 0"
  | .missingFileSize => "event block has no file_size"

def BlockError.toSdkError (e : BlockError) : SdkError := .integrity e.message

namespace ChunkedBlock

def checkSharedRules (block : ChunkedBlock) : Except BlockError Unit :=
  if block.v ≠ conventionV then
    .error (.unknownVersion block.v)
  else if block.chunkSize = 0 then
    .error .chunkSizeZero
  else if block.cipher.isEncrypting then
    if block.nonceBase.isNone then .error .missingNonceBase else .ok ()
  else if block.key.isSome then
    .error .unexpectedKey
  else if block.nonceBase.isSome then
    .error .unexpectedNonceBase
  else
    .ok ()

def checkAsEventBlock (block : ChunkedBlock) : Except BlockError Unit :=
  match block.checkSharedRules with
  | .error e => .error e
  | .ok () =>
      if block.cipher.isEncrypting ∧ block.key.isNone then
        .error .missingKey
      else if block.fileSize.isNone then
        .error .missingFileSize
      else
        .ok ()

def checkAsDescription (block : ChunkedBlock) : Except BlockError Unit :=
  match block.checkSharedRules with
  | .error e => .error e
  | .ok () => if block.key.isSome then .error .unexpectedKey else .ok ()

/-- The description is the block without its key. -/
def toDescription (block : ChunkedBlock) : ChunkedBlock :=
  { block with key := none }

/-- Two optional fields agree unless both are there and differ. -/
def bothOrAbsent {α : Type} [DecidableEq α] (mine theirs : Option α) : Bool :=
  match mine, theirs with
  | some a, some b => a = b
  | _, _ => true

def isConsistentWithDescription (block description : ChunkedBlock) : Bool :=
  block.v = description.v
    ∧ block.cipher = description.cipher
    ∧ block.nonceBase = description.nonceBase
    ∧ block.chunkSize = description.chunkSize
    ∧ bothOrAbsent block.fileSize description.fileSize
    ∧ bothOrAbsent block.name description.name
    ∧ bothOrAbsent block.mimetype description.mimetype
    ∧ bothOrAbsent block.sha256 description.sha256

end ChunkedBlock

/-- What the program takes from other packages. -/
structure Packages where
  chaCha20Poly1305 : Aead FileKey (List UInt8) tagLen
  aes256Gcm : Aead FileKey (List UInt8) tagLen
  sha256 : List UInt8 → Vector UInt8 32
  toJson : ChunkedBlock → List UInt8
  fromJson : List UInt8 → Except String ChunkedBlock
  fromJson_toJson : ∀ block, fromJson (toJson block) = .ok block
  toJson_ne_nil : ∀ block, toJson block ≠ []

namespace Packages

/-- One call of the cipher a file is sealed with. -/
def «seal» (packages : Packages) (cipher : Cipher) (key : FileKey)
    (nonce aad plain : List UInt8) : List UInt8 :=
  match cipher with
  | .chaCha20Poly1305 => packages.chaCha20Poly1305.encrypt key nonce aad plain
  | .aes256Gcm => packages.aes256Gcm.encrypt key nonce aad plain
  | .none => plain

def «open» (packages : Packages) (cipher : Cipher) (key : FileKey)
    (nonce aad sealed : List UInt8) : Option (List UInt8) :=
  match cipher with
  | .chaCha20Poly1305 => packages.chaCha20Poly1305.decrypt key nonce aad sealed
  | .aes256Gcm => packages.aes256Gcm.decrypt key nonce aad sealed
  | .none => some sealed

@[simp] theorem open_seal (packages : Packages) (cipher : Cipher) (key : FileKey)
    (nonce aad plain : List UInt8) :
    packages.open cipher key nonce aad (packages.seal cipher key nonce aad plain) =
      some plain := by
  cases cipher with
  | chaCha20Poly1305 => exact packages.chaCha20Poly1305.decrypt_encrypt key nonce aad plain
  | aes256Gcm => exact packages.aes256Gcm.decrypt_encrypt key nonce aad plain
  | none => rfl

theorem length_seal (packages : Packages) {cipher : Cipher} (key : FileKey)
    (nonce aad plain : List UInt8) (h : cipher.isEncrypting) :
    (packages.seal cipher key nonce aad plain).length = plain.length + tagLen := by
  cases cipher with
  | chaCha20Poly1305 => exact packages.chaCha20Poly1305.length_encrypt key nonce aad plain
  | aes256Gcm => exact packages.aes256Gcm.length_encrypt key nonce aad plain
  | none => simp [Cipher.isEncrypting] at h

/-- The digest as lower-case text. -/
def sha256Hex (packages : Packages) (bytes : List UInt8) : List Char :=
  Bytes.toHex (packages.sha256 bytes).toList

end Packages

namespace ChunkedBlock

def toDescriptionJson (packages : Packages) (block : ChunkedBlock) : List UInt8 :=
  packages.toJson block.toDescription

def fromDescriptionJson (packages : Packages) (json : List UInt8) :
    Except String ChunkedBlock :=
  match packages.fromJson json with
  | .error message => .error message
  | .ok block =>
      match block.checkAsDescription with
      | .error e => .error e.message
      | .ok () => .ok block

variable {block : ChunkedBlock}

/-- Both checks come after the shared rules. -/
theorem checkSharedRules_of_checkAsEventBlock (h : block.checkAsEventBlock = .ok ()) :
    block.checkSharedRules = .ok () := by
  unfold checkAsEventBlock at h
  rcases hshared : block.checkSharedRules with e | u
  · rw [hshared] at h
    cases h
  · rfl

theorem toDescription_checkSharedRules (h : block.checkSharedRules = .ok ()) :
    block.toDescription.checkSharedRules = .ok () := by
  unfold checkSharedRules at h
  split_ifs at h with hv hsize hcipher hnone hkey hbase
  · simp_all [checkSharedRules, toDescription]
  · simp_all [checkSharedRules, toDescription]

/-- The description of an event block is a well-formed description. -/
theorem checkAsDescription_toDescription (h : block.checkAsEventBlock = .ok ()) :
    block.toDescription.checkAsDescription = .ok () := by
  have hshared := toDescription_checkSharedRules (checkSharedRules_of_checkAsEventBlock h)
  unfold checkAsDescription
  rw [hshared]
  simp [toDescription]

/-- A description that was written is read back. -/
theorem fromDescriptionJson_toDescriptionJson (packages : Packages)
    (h : block.checkAsEventBlock = .ok ()) :
    fromDescriptionJson packages (block.toDescriptionJson packages) =
      .ok block.toDescription := by
  unfold fromDescriptionJson toDescriptionJson
  rw [packages.fromJson_toJson]
  simp only
  rw [checkAsDescription_toDescription h]

end ChunkedBlock

abbrev BlockNumbers : Type :=
  Nat × Nat × Option (List Nat) × Option (List Nat) × Nat × Option Nat × Option (List Nat) ×
    Option (List Nat) × Option (List Nat)

namespace ChunkedBlock

def bytesOfNumbers (n : Nat) (numbers : List Nat) : Vector UInt8 n :=
  Vector.ofFn fun i => UInt8.ofNat (numbers.getD i 0)

def textOfNumbers (numbers : List Nat) : List Char :=
  numbers.map Char.ofNat

def cipherOfNumber : Nat → Cipher
  | 0 => .chaCha20Poly1305
  | 1 => .aes256Gcm
  | _ => .none

def cipherNumber : Cipher → Nat
  | .chaCha20Poly1305 => 0
  | .aes256Gcm => 1
  | .none => 2

def numbers (block : ChunkedBlock) : BlockNumbers :=
  (block.v, cipherNumber block.cipher,
    block.key.map fun key => key.toList.map UInt8.toNat,
    block.nonceBase.map fun base => base.toList.map UInt8.toNat,
    block.chunkSize, block.fileSize,
    block.name.map fun name => name.toList.map Char.toNat,
    block.mimetype.map fun mimetype => mimetype.toList.map Char.toNat,
    block.sha256.map fun sha256 => sha256.map Char.toNat)

def ofNumbers : BlockNumbers → ChunkedBlock
  | (v, cipher, key, nonceBase, chunkSize, fileSize, name, mimetype, sha256) =>
      { v := v
        cipher := cipherOfNumber cipher
        key := key.map (bytesOfNumbers keyLen)
        nonceBase := nonceBase.map (bytesOfNumbers nonceBaseLen)
        chunkSize := chunkSize
        fileSize := fileSize
        name := name.map fun name => String.ofList (textOfNumbers name)
        mimetype := mimetype.map fun mimetype => String.ofList (textOfNumbers mimetype)
        sha256 := sha256.map textOfNumbers }

theorem bytesOfNumbers_toNat {n : Nat} (bytes : Vector UInt8 n) :
    bytesOfNumbers n (bytes.toList.map UInt8.toNat) = bytes := by
  ext i hi
  simp [bytesOfNumbers]

theorem textOfNumbers_toNat (text : List Char) : textOfNumbers (text.map Char.toNat) = text := by
  induction text with
  | nil => rfl
  | cons c text ih =>
    simp only [textOfNumbers, List.map_cons, Char.ofNat_toNat]
    simp only [textOfNumbers] at ih
    rw [ih]

theorem ofNumbers_numbers (block : ChunkedBlock) : ofNumbers block.numbers = block := by
  obtain ⟨v, cipher, key, nonceBase, chunkSize, fileSize, name, mimetype, sha256⟩ := block
  have hcipher : cipherOfNumber (cipherNumber cipher) = cipher := by cases cipher <;> rfl
  have hkey : (key.map fun key => key.toList.map UInt8.toNat).map (bytesOfNumbers keyLen) =
      key := by
    cases key <;> simp [bytesOfNumbers_toNat]
  have hbase : (nonceBase.map fun base => base.toList.map UInt8.toNat).map
      (bytesOfNumbers nonceBaseLen) = nonceBase := by
    cases nonceBase <;> simp [bytesOfNumbers_toNat]
  have htext : ∀ text : Option String,
      ((text.map fun t => t.toList.map Char.toNat).map fun t =>
        String.ofList (textOfNumbers t)) = text := by
    intro text
    cases text <;> simp [textOfNumbers_toNat]
  have hsha256 : (sha256.map fun t => t.map Char.toNat).map textOfNumbers = sha256 := by
    cases sha256 <;> simp [textOfNumbers_toNat]
  simp only [numbers, ofNumbers]
  rw [hcipher, hkey, hbase, htext, htext, hsha256]

instance : Encodable ChunkedBlock :=
  Encodable.ofLeftInverse numbers ofNumbers ofNumbers_numbers

end ChunkedBlock

namespace Packages

def numbered (sha256 : List UInt8 → Vector UInt8 32) : Packages where
  chaCha20Poly1305 := Aead.transparent _ _ _
  aes256Gcm := Aead.transparent _ _ _
  sha256 := sha256
  toJson block := List.replicate (Encodable.encode block + 1) 0
  fromJson bytes :=
    match Encodable.decode (bytes.length - 1) with
    | some block => .ok block
    | none => .error "no such block"
  fromJson_toJson := by
    intro block
    simp
  toJson_ne_nil := by
    intro block
    simp

/-- A block that is written as the given text. -/
def withText (packages : Packages) (block : ChunkedBlock) (text : List UInt8)
    (hfree : ∀ other, packages.toJson other ≠ text) (hnil : text ≠ []) : Packages :=
  { packages with
    toJson := fun other => if other = block then text else packages.toJson other
    fromJson := fun bytes => if bytes = text then .ok block else packages.fromJson bytes
    fromJson_toJson := by
      intro other
      by_cases heq : other = block
      · simp [heq]
      · simp [heq, hfree, packages.fromJson_toJson]
    toJson_ne_nil := by
      intro other
      by_cases heq : other = block
      · simpa [heq] using hnil
      · simpa [heq] using packages.toJson_ne_nil other }

theorem numbered_toJson_ne {sha256 : List UInt8 → Vector UInt8 32} {text : List UInt8}
    (h : text.head? ≠ some 0) (block : ChunkedBlock) : (numbered sha256).toJson block ≠ text := by
  rintro rfl
  exact h (by simp [numbered, List.replicate_succ])

theorem withText_toJson_ne {packages : Packages} {block : ChunkedBlock} {text text' : List UInt8}
    {hfree : ∀ other, packages.toJson other ≠ text} {hnil : text ≠ []} (htext : text ≠ text')
    (h : ∀ other, packages.toJson other ≠ text') (other : ChunkedBlock) :
    (packages.withText block text hfree hnil).toJson other ≠ text' := by
  simp only [withText]
  split_ifs
  · exact htext
  · exact h other

end Packages

/-- A text in ASCII as bytes. -/
def asciiBytes (text : String) : List UInt8 :=
  text.toList.map fun c => UInt8.ofNat c.toNat

end WbfMatrixClient
