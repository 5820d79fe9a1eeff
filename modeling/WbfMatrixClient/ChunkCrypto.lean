import WbfMatrixClient.ChunkedBlock

/-!
# Sealing chunks and descriptions

The cipher of one file with its chunk size, the arithmetic that cuts the file
into chunks, and the sealing and opening of a chunk or of a description. Every
call of the cipher takes its nonce from an index: chunks use their own, and the
two descriptions use two indices above the last one a chunk may have.

An index, a size and a position are natural numbers here. The program keeps an
index in 32 bits, which the check against the reserved indices guarantees.
-/

namespace WbfMatrixClient

open Sealing

/-- The bytes of "wbf-chunk-v1". -/
def chunkAad : List UInt8 :=
  [0x77, 0x62, 0x66, 0x2d, 0x63, 0x68, 0x75, 0x6e, 0x6b, 0x2d, 0x76, 0x31]

/-- The bytes of "wbf-desc-v1". -/
def descriptionAad : List UInt8 :=
  [0x77, 0x62, 0x66, 0x2d, 0x64, 0x65, 0x73, 0x63, 0x2d, 0x76, 0x31]

def maxChunkIndex : Nat := 0xFFFFFFFD

def createDescriptionIndex : Nat := 0xFFFFFFFF

def sealDescriptionIndex : Nat := 0xFFFFFFFE

/-- The two descriptions of a file. -/
inductive DescriptionSlot where
  | create
  | «seal»
deriving DecidableEq

def DescriptionSlot.nonceIndex : DescriptionSlot → Nat
  | .create => createDescriptionIndex
  | .seal => sealDescriptionIndex

inductive CryptoError where
  | indexReserved (index : Nat)
  | lengthMismatch (expected actual : Nat)
  | tagInvalid
  | chunkTooLong (chunkSize actual : Nat)

def CryptoError.message : CryptoError → String
  | .indexReserved index =>
      "chunk index 0x" ++ String.ofList (Nat.toDigits 16 index) ++ " is reserved"
  | .lengthMismatch expected actual =>
      "chunk length " ++ toString actual ++ ", expected " ++ toString expected
  | .tagInvalid => "AEAD tag invalid"
  | .chunkTooLong chunkSize actual =>
      "plaintext chunk " ++ toString actual ++ " bytes exceeds chunk_size " ++ toString chunkSize

def CryptoError.toSdkError (e : CryptoError) : SdkError := .integrity e.message

/-- Encrypting always comes with a key and a nonce base, and with a cipher
that encrypts. -/
inductive Mode where
  | plain
  | encrypted (cipher : Cipher) (key : FileKey) (nonceBase : NonceBase)
      (encrypting : cipher.isEncrypting = true)
deriving DecidableEq

structure FileCipher where
  chunkSize : Nat
  mode : Mode
deriving DecidableEq

def buildNonce (nonceBase : NonceBase) (index : Nat) : List UInt8 :=
  nonceBase.toList ++ Bytes.toBigEndian 4 index

theorem buildNonce_injective {nonceBase : NonceBase} {i j : Nat} (hi : i < 256 ^ 4)
    (hj : j < 256 ^ 4) (h : buildNonce nonceBase i = buildNonce nonceBase j) :
    i = j := Bytes.toBigEndian_injective hi hj (List.append_cancel_left h)

namespace FileCipher

def fromEventBlock (block : ChunkedBlock) : Except BlockError FileCipher :=
  match block.checkAsEventBlock with
  | .error e => .error e
  | .ok () =>
      if h : block.cipher.isEncrypting = true then
        match block.key, block.nonceBase with
        | some key, some nonceBase =>
            .ok { chunkSize := block.chunkSize,
                  mode := .encrypted block.cipher key nonceBase h }
        | none, _ => .error .missingKey
        | some _, none => .error .missingNonceBase
      else
        match block.key, block.nonceBase with
        | none, none => .ok { chunkSize := block.chunkSize, mode := .plain }
        | some _, _ => .error .unexpectedKey
        | none, some _ => .error .unexpectedNonceBase

def cipher (file : FileCipher) : Cipher :=
  match file.mode with
  | .plain => .none
  | .encrypted cipher _ _ _ => cipher

def key (file : FileCipher) : Option FileKey :=
  match file.mode with
  | .plain => none
  | .encrypted _ key _ _ => some key

def nonceBase (file : FileCipher) : Option NonceBase :=
  match file.mode with
  | .plain => none
  | .encrypted _ _ nonceBase _ => some nonceBase

def toEventBlock (file : FileCipher) (fileSize : Nat) : ChunkedBlock :=
  { v := conventionV, cipher := file.cipher, key := file.key, nonceBase := file.nonceBase,
    chunkSize := file.chunkSize, fileSize := some fileSize, name := none, mimetype := none,
    sha256 := none }

/-- The call of the cipher made for an index; a file that is not encrypted
makes none. -/
def sealCall (file : FileCipher) (index : Nat) (aad plain : List UInt8) :
    Option (Sealed FileKey (List UInt8)) :=
  match file.mode with
  | .plain => none
  | .encrypted _ key nonceBase _ =>
      some { key := key, nonce := buildNonce nonceBase index, aad := aad, plain := plain }

def sealWithIndex (packages : Packages) (file : FileCipher) (index : Nat)
    (aad plain : List UInt8) : List UInt8 :=
  match file.mode with
  | .plain => plain
  | .encrypted cipher key nonceBase _ =>
      packages.seal cipher key (buildNonce nonceBase index) aad plain

def openWithIndex (packages : Packages) (file : FileCipher) (index : Nat)
    (aad sealed : List UInt8) : Option (List UInt8) :=
  match file.mode with
  | .plain => some sealed
  | .encrypted cipher key nonceBase _ =>
      packages.open cipher key (buildNonce nonceBase index) aad sealed

def sealedLen (file : FileCipher) (plainLen : Nat) : Nat :=
  match file.mode with
  | .plain => plainLen
  | .encrypted _ _ _ _ => plainLen + tagLen

def sealChunk (packages : Packages) (file : FileCipher) (index : Nat) (plain : List UInt8) :
    Except CryptoError (List UInt8) :=
  if maxChunkIndex < index then
    .error (.indexReserved index)
  else if file.chunkSize < plain.length then
    .error (.chunkTooLong file.chunkSize plain.length)
  else
    .ok (file.sealWithIndex packages index chunkAad plain)

def openChunk (packages : Packages) (file : FileCipher) (index : Nat) (sealed : List UInt8)
    (expectedPlainLen : Nat) : Except CryptoError (List UInt8) :=
  if maxChunkIndex < index then
    .error (.indexReserved index)
  else if sealed.length ≠ file.sealedLen expectedPlainLen then
    .error (.lengthMismatch (file.sealedLen expectedPlainLen) sealed.length)
  else
    match file.openWithIndex packages index chunkAad sealed with
    | none => .error .tagInvalid
    | some plain =>
        if plain.length ≠ expectedPlainLen then
          .error (.lengthMismatch expectedPlainLen plain.length)
        else
          .ok plain

def sealDescription (packages : Packages) (file : FileCipher) (slot : DescriptionSlot)
    (json : List UInt8) : List UInt8 :=
  file.sealWithIndex packages slot.nonceIndex descriptionAad json

def openDescription (packages : Packages) (file : FileCipher) (slot : DescriptionSlot)
    (data : List UInt8) : Except CryptoError (List UInt8) :=
  match file.openWithIndex packages slot.nonceIndex descriptionAad data with
  | none => .error .tagInvalid
  | some json => .ok json

@[simp] theorem openWithIndex_sealWithIndex (packages : Packages) (file : FileCipher) (index : Nat)
    (aad plain : List UInt8) :
    file.openWithIndex packages index aad (file.sealWithIndex packages index aad plain) =
      some plain := by
  unfold openWithIndex sealWithIndex
  cases file.mode <;> simp

theorem length_sealWithIndex (packages : Packages) (file : FileCipher) (index : Nat)
    (aad plain : List UInt8) :
    (file.sealWithIndex packages index aad plain).length = file.sealedLen plain.length := by
  unfold sealWithIndex sealedLen
  cases file.mode with
  | plain => rfl
  | encrypted cipher key nonceBase encrypting =>
    exact packages.length_seal key _ aad plain encrypting

variable {plain : List UInt8}

theorem sealWithIndex_ne_nil (packages : Packages) (file : FileCipher) (index : Nat)
    (aad : List UInt8) (h : plain ≠ []) : file.sealWithIndex packages index aad plain ≠ [] := by
  rw [← List.length_pos_iff, length_sealWithIndex, sealedLen]
  have hpos : 0 < plain.length := List.length_pos_iff.mpr h
  cases file.mode with
  | plain => exact hpos
  | encrypted cipher key nonceBase encrypting => exact Nat.add_pos_left hpos tagLen

variable {file : FileCipher}

/-- What sealing a chunk succeeds on, and what it gives. -/
theorem sealChunk_eq_ok_iff {packages : Packages} {index : Nat} {sealed : List UInt8} :
    file.sealChunk packages index plain = .ok sealed ↔
      index ≤ maxChunkIndex ∧ plain.length ≤ file.chunkSize ∧
        sealed = file.sealWithIndex packages index chunkAad plain := by
  unfold sealChunk
  split_ifs with hindex hlength
  · simp
    omega
  · simp
    omega
  · simp only [Except.ok.injEq]
    constructor
    · rintro rfl
      exact ⟨by omega, by omega, rfl⟩
    · rintro ⟨_, _, rfl⟩
      rfl

/-- A sealed chunk opens under its index and its length. -/
theorem openChunk_sealChunk {packages : Packages} {index : Nat} {sealed : List UInt8}
    (h : file.sealChunk packages index plain = .ok sealed) :
    file.openChunk packages index sealed plain.length = .ok plain := by
  obtain ⟨hindex, _, rfl⟩ := sealChunk_eq_ok_iff.mp h
  unfold openChunk
  rw [if_neg (by omega), if_neg (by simp [length_sealWithIndex]),
    openWithIndex_sealWithIndex]
  simp

theorem openDescription_sealDescription (packages : Packages) (file : FileCipher)
    (slot : DescriptionSlot) (json : List UInt8) :
    file.openDescription packages slot (file.sealDescription packages slot json) =
      .ok json := by
  unfold openDescription sealDescription
  rw [openWithIndex_sealWithIndex]

/-- A file cipher is its parameters. -/
theorem eq_of_params {a b : FileCipher} (hcipher : a.cipher = b.cipher) (hkey : a.key = b.key)
    (hbase : a.nonceBase = b.nonceBase) (hsize : a.chunkSize = b.chunkSize) : a = b := by
  obtain ⟨sizeA, modeA⟩ := a
  obtain ⟨sizeB, modeB⟩ := b
  cases modeA with
  | plain =>
    cases modeB with
    | plain => simp_all
    | encrypted cipher key nonceBase encrypting => simp [FileCipher.key] at hkey
  | encrypted cipher key nonceBase encrypting =>
    cases modeB with
    | plain => simp [FileCipher.key] at hkey
    | encrypted cipher' key' nonceBase' encrypting' =>
      simp_all [FileCipher.key, FileCipher.cipher, FileCipher.nonceBase]

/-- A block that carries the parameters of a file cipher gives it back. -/
theorem fromEventBlock_of_params {block : ChunkedBlock} (hv : block.v = conventionV)
    (hcipher : block.cipher = file.cipher) (hkey : block.key = file.key)
    (hbase : block.nonceBase = file.nonceBase) (hsize : block.chunkSize = file.chunkSize)
    (hpos : file.chunkSize ≠ 0) (hfile : block.fileSize.isSome = true) :
    block.checkAsEventBlock = .ok () ∧ fromEventBlock block = .ok file := by
  obtain ⟨chunkSize, mode⟩ := file
  obtain ⟨v, cipher, key, nonceBase, size, fileSize, name, mimetype, sha256⟩ := block
  obtain ⟨bytes, rfl⟩ := Option.isSome_iff_exists.mp hfile
  simp only at hv hcipher hkey hbase hsize hpos
  subst hv hcipher hkey hbase hsize
  cases mode with
  | plain =>
    simp [fromEventBlock, ChunkedBlock.checkAsEventBlock, ChunkedBlock.checkSharedRules,
      FileCipher.cipher, FileCipher.key, FileCipher.nonceBase, Cipher.isEncrypting, hpos]
  | encrypted cipher key nonceBase encrypting =>
    simp [fromEventBlock, ChunkedBlock.checkAsEventBlock, ChunkedBlock.checkSharedRules,
      FileCipher.cipher, FileCipher.key, FileCipher.nonceBase, encrypting, hpos]

/-- The parameters of the block a file cipher came from. -/
theorem params_of_fromEventBlock {block : ChunkedBlock} (h : fromEventBlock block = .ok file) :
    block.checkAsEventBlock = .ok () ∧ block.v = conventionV ∧ block.cipher = file.cipher ∧
      block.key = file.key ∧ block.nonceBase = file.nonceBase ∧
      block.chunkSize = file.chunkSize ∧ file.chunkSize ≠ 0 := by
  unfold fromEventBlock at h
  rcases hcheck : block.checkAsEventBlock with e | u
  · rw [hcheck] at h
    cases h
  have hshared := ChunkedBlock.checkSharedRules_of_checkAsEventBlock hcheck
  rw [hcheck] at h
  simp only at h
  unfold ChunkedBlock.checkSharedRules at hshared
  split_ifs at hshared with hv hsize hcipher hnone hkey hbase
  · rw [dif_pos hcipher] at h
    rcases hk : block.key with _ | key <;> rcases hb : block.nonceBase with _ | nonceBase <;>
      rw [hk, hb] at h <;> simp only [Except.ok.injEq, reduceCtorEq] at h
    subst h
    exact ⟨rfl, by simpa using hv, rfl, rfl, rfl, rfl, hsize⟩
  · rw [dif_neg hcipher] at h
    rcases hk : block.key with _ | key <;> rcases hb : block.nonceBase with _ | nonceBase <;>
      rw [hk, hb] at h <;> simp only [Except.ok.injEq, reduceCtorEq] at h
    subst h
    refine ⟨rfl, by simpa using hv, ?_, rfl, rfl, rfl, hsize⟩
    cases hc : block.cipher with
    | none => rfl
    | chaCha20Poly1305 | aes256Gcm => simp [hc, Cipher.isEncrypting] at hcipher

end FileCipher

/-- Division that rounds up. -/
def divCeil (n d : Nat) : Nat :=
  if n % d = 0 then n / d else n / d + 1

def chunkCount (fileSize chunkSize : Nat) : Option Nat :=
  if chunkSize = 0 then
    none
  else if maxChunkIndex + 1 < divCeil fileSize chunkSize then
    none
  else
    some (divCeil fileSize chunkSize)

def expectedPlainLen (fileSize chunkSize index : Nat) : Option Nat :=
  match chunkCount fileSize chunkSize with
  | none => none
  | some count =>
      if count ≤ index then
        none
      else
        some (min (fileSize - index * chunkSize) chunkSize)

structure SeekTarget where
  index : Nat
  offset : Nat

def locate (pos chunkSize : Nat) : Option SeekTarget :=
  if chunkSize = 0 then
    none
  else if maxChunkIndex < pos / chunkSize then
    none
  else
    some { index := pos / chunkSize, offset := pos % chunkSize }

theorem divCeil_le_iff {n d k : Nat} (hd : 0 < d) : divCeil n d ≤ k ↔ n ≤ k * d := by
  unfold divCeil
  have hdiv := Nat.div_add_mod n d
  have hmod := Nat.mod_lt n hd
  split_ifs with hzero
  · rw [hzero, Nat.add_zero] at hdiv
    constructor
    · intro h
      calc n = d * (n / d) := hdiv.symm
        _ ≤ d * k := Nat.mul_le_mul_left d h
        _ = k * d := Nat.mul_comm d k
    · intro h
      rw [← Nat.mul_le_mul_left_iff hd, hdiv, Nat.mul_comm d k]
      exact h
  · constructor
    · intro h
      have := Nat.mul_le_mul_left d h
      rw [Nat.mul_add, Nat.mul_one, Nat.mul_comm d k] at this
      omega
    · intro h
      rw [Nat.add_one_le_iff, Nat.div_lt_iff_lt_mul hd]
      by_contra hle
      have heq : n = k * d := by omega
      rw [heq, Nat.mul_mod_left] at hzero
      exact hzero rfl

variable {fileSize chunkSize count : Nat}

theorem chunkCount_eq_some_iff :
    chunkCount fileSize chunkSize = some count ↔
      0 < chunkSize ∧ count ≤ maxChunkIndex + 1 ∧ count = divCeil fileSize chunkSize := by
  unfold chunkCount
  split_ifs with hzero hlarge
  · simp [hzero]
  · simp only [false_iff]
    rintro ⟨_, hle, rfl⟩
    omega
  · simp only [Option.some.injEq]
    constructor
    · rintro rfl
      exact ⟨by omega, by omega, rfl⟩
    · rintro ⟨_, _, rfl⟩
      rfl

section

variable (h : chunkCount fileSize chunkSize = some count)

include h

/-- An index is below the count exactly when its chunk begins inside the
file. -/
theorem lt_chunkCount_iff {index : Nat} : index < count ↔ index * chunkSize < fileSize := by
  obtain ⟨hpos, _, rfl⟩ := chunkCount_eq_some_iff.mp h
  rw [← not_le, divCeil_le_iff hpos, not_le]

theorem chunkCount_le : fileSize ≤ count * chunkSize := by
  have := @lt_chunkCount_iff fileSize chunkSize count h count
  omega

theorem expectedPlainLen_of_lt {index : Nat} (hindex : index < count) :
    expectedPlainLen fileSize chunkSize index =
      some (min (fileSize - index * chunkSize) chunkSize) := by
  unfold expectedPlainLen
  rw [h]
  simp only
  rw [if_neg (by omega)]

end

end WbfMatrixClient
