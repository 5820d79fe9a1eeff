import WbfMatrixClient.Lib.Base58
import WbfMatrixClient.Lib.Utf8
import WbfMatrixClient.TextSplits
import WbfMatrixClient.Upload

/-!
# Keys of the data plane

A URL of the data plane and the header of an upload are texts that the daemon
makes itself and opens again: the one is the purpose and the mxc, the other is
the state of the upload. Both are sealed under one key, or, where encryption is
off, written as they are.

The cipher, the text form of bytes and the JSON form of the state are parameters.
-/

namespace WbfMatrixClient
namespace DataPlane

open AccountNames (Text splitOnce stripPrefix)

def accessContext : Text := "wbf-matrix-client data plane v1".toList

def urlAad : List UInt8 := Utf8.encode "wbf-data url v1".toList

def metaAad (mxc : Text) : List UInt8 :=
  Utf8.encode "wbf-data meta v1 ".toList ++ Utf8.encode mxc

def nonceLen : Nat := 24

def encryptedPrefix : Text := "e-".toList

def plainPrefix : Text := "c-".toList

def separator : Char := '_'

def purposeUpload : UInt8 := 0x01

def purposeMedia : UInt8 := 0x02

/-- An upload as an account without chunks has it. -/
structure MatrixUpload where
  server : String
  userId : String
  mxc : String
  name : String
  mimetype : Option String
  size : Nat
  encrypted : Bool
deriving DecidableEq

inductive CreatedUpload where
  | chunked (upload : UploadState)
  | matrix (upload : MatrixUpload)
deriving DecidableEq

def CreatedUpload.mxc : CreatedUpload → Text
  | chunked upload => upload.mxc.toList
  | matrix upload => upload.mxc.toList

structure UploadMeta where
  upload : CreatedUpload
  sourceUri : Option String
deriving DecidableEq

inductive CoreError where
  | io (message : String)

structure Packages where
  deriveKey : (context : Text) → (token : List UInt8) → List UInt8
  cipher : Sealing.Cipher (List UInt8) (List UInt8)
  base58 : Armor
  toJson : UploadMeta → Except String (List UInt8)
  fromJson : List UInt8 → Option UploadMeta

structure AccessKeys where
  key : List UInt8

/-- What the system gives when random bytes for a nonce are asked for. -/
abbrev Randomness : Type := Except String {nonce : List UInt8 // nonce.length = nonceLen}

namespace AccessKeys

variable (packages : Packages)

def fromToken (token : List UInt8) : AccessKeys :=
  { key := packages.deriveKey accessContext token }

variable (keys : AccessKeys)

def toText (plain aad : List UInt8) (encrypted : Bool) (random : Randomness) :
    Except CoreError Text :=
  if !encrypted then
    .ok (plainPrefix ++ packages.base58.encode plain)
  else
    match random with
    | .error e => .error (.io ("no randomness for the data plane: " ++ e))
    | .ok nonce =>
        match packages.cipher.encrypt keys.key nonce.1 aad plain with
        | none => .error (.io "cannot seal for the data plane")
        | some sealed =>
            .ok (encryptedPrefix ++
              (packages.base58.encode nonce.1 ++ separator :: packages.base58.encode sealed))

def openText (text : Text) (aad : List UInt8) (encryptionEnforced : Bool) :
    Option (List UInt8) :=
  match stripPrefix encryptedPrefix text with
  | some encrypted =>
      match splitOnce [separator] encrypted with
      | none => none
      | some (noncePart, sealedPart) =>
          match packages.base58.decode noncePart with
          | none => none
          | some nonce =>
              if nonce.length ≠ nonceLen then
                none
              else
                match packages.base58.decode sealedPart with
                | none => none
                | some sealed => packages.cipher.decrypt keys.key nonce aad sealed
  | none =>
      match stripPrefix plainPrefix text with
      | none => none
      | some plain => if encryptionEnforced then none else packages.base58.decode plain

def toUrlKey (purpose : UInt8) (mxc : Text) (encrypted : Bool) (random : Randomness) :
    Except CoreError Text :=
  toText packages keys (purpose :: Utf8.encode mxc) urlAad encrypted random

def openUrlKey (purpose : UInt8) (urlKey : Text) (encryptionEnforced : Bool) : Option Text :=
  match openText packages keys urlKey urlAad encryptionEnforced with
  | none | some [] => none
  | some (found :: mxc) => if found ≠ purpose then none else Utf8.decode mxc

def toUploadUrlKey (mxc : Text) (encrypted : Bool) (random : Randomness) :
    Except CoreError Text :=
  toUrlKey packages keys purposeUpload mxc encrypted random

def toMediaUrlKey (mxc : Text) (encrypted : Bool) (random : Randomness) : Except CoreError Text :=
  toUrlKey packages keys purposeMedia mxc encrypted random

def openUploadUrlKey (urlKey : Text) (encryptionEnforced : Bool) : Option Text :=
  openUrlKey packages keys purposeUpload urlKey encryptionEnforced

def openMediaUrlKey (urlKey : Text) (encryptionEnforced : Bool) : Option Text :=
  openUrlKey packages keys purposeMedia urlKey encryptionEnforced

def toUploadMeta (uploadMeta : UploadMeta) (encrypted : Bool) (random : Randomness) :
    Except CoreError Text :=
  match packages.toJson uploadMeta with
  | .error e => .error (.io ("cannot serialise the upload: " ++ e))
  | .ok json => toText packages keys json (metaAad uploadMeta.upload.mxc) encrypted random

def openUploadMeta (text mxc : Text) (encryptionEnforced : Bool) : Option UploadMeta :=
  match openText packages keys text (metaAad mxc) encryptionEnforced with
  | none => none
  | some json =>
      match packages.fromJson json with
      | none => none
      | some found => if found.upload.mxc = mxc then some found else none

end AccessKeys

/-- What a text of the data plane is issued for. -/
inductive Capability where
  | uploadUrl (mxc : Text)
  | mediaUrl (mxc : Text)
  | uploadMeta (found : UploadMeta)

namespace Capability

def aad : Capability → List UInt8
  | uploadUrl _ | mediaUrl _ => urlAad
  | uploadMeta found => metaAad found.upload.mxc

def plain (packages : Packages) : Capability → Except String (List UInt8)
  | uploadUrl mxc => .ok (purposeUpload :: Utf8.encode mxc)
  | mediaUrl mxc => .ok (purposeMedia :: Utf8.encode mxc)
  | uploadMeta found => packages.toJson found

/-- The bytes are read as what the capability is for. -/
def Reads (packages : Packages) (bytes : List UInt8) : Capability → Prop
  | uploadUrl mxc => bytes = purposeUpload :: Utf8.encode mxc
  | mediaUrl mxc => bytes = purposeMedia :: Utf8.encode mxc
  | uploadMeta found => packages.fromJson bytes = some found

end Capability

/-- A request for a capability, with the random bytes that were at hand. -/
structure Issue where
  keys : AccessKeys
  what : Capability
  encrypted : Bool
  random : Randomness

section Issues

variable (packages : Packages)

def Issue.text (issue : Issue) : Except CoreError Text :=
  match issue.what with
  | .uploadUrl mxc => issue.keys.toUploadUrlKey packages mxc issue.encrypted issue.random
  | .mediaUrl mxc => issue.keys.toMediaUrlKey packages mxc issue.encrypted issue.random
  | .uploadMeta found => issue.keys.toUploadMeta packages found issue.encrypted issue.random

/-- What the cipher seals for a request. -/
def Issue.call (issue : Issue) : Option (Sealing.Sealed (List UInt8) (List UInt8)) :=
  match issue.encrypted, issue.random, issue.what.plain packages with
  | true, .ok nonce, .ok plain =>
      some { key := issue.keys.key, nonce := nonce.1, aad := issue.what.aad, plain := plain }
  | _, _, _ => none

/-- All that has been sealed. -/
def sealedLog (issues : List Issue) : List (Sealing.Sealed (List UInt8) (List UInt8)) :=
  issues.filterMap (Issue.call packages)

/-- A text opens as what the capability is for. -/
def AccessKeys.Opens (keys : AccessKeys) (text : Text) (encryptionEnforced : Bool) :
    Capability → Prop
  | .uploadUrl mxc => keys.openUploadUrlKey packages text encryptionEnforced = some mxc
  | .mediaUrl mxc => keys.openMediaUrlKey packages text encryptionEnforced = some mxc
  | .uploadMeta found =>
      keys.openUploadMeta packages text found.upload.mxc encryptionEnforced = some found

end Issues

/-- What is relied on: the ideal cipher for all that was sealed, a text form that is one to one and
has no separator, and JSON that is read as what it was written from. -/
structure Packages.Sound (packages : Packages) (issues : List Issue) : Prop where
  ideal : packages.cipher.Ideal (sealedLog packages issues)
  base58 : packages.base58.Lawful separator
  fromJson_toJson : ∀ found json, packages.toJson found = .ok json →
    packages.fromJson json = some found

section Texts

variable {packages : Packages} {issues : List Issue} {keys : AccessKeys} {text : Text}
  {plain aad : List UInt8} {encrypted encryptionEnforced : Bool} {random : Randomness}

/-- The form of an encrypted text. -/
def sealedText (packages : Packages) (nonce sealed : List UInt8) : Text :=
  encryptedPrefix ++ (packages.base58.encode nonce ++ separator :: packages.base58.encode sealed)

theorem encryptedPrefix_append_ne (rest rest' : Text) :
    encryptedPrefix ++ rest ≠ plainPrefix ++ rest' := by
  intro h
  exact absurd (List.cons_eq_cons.mp h).1 (by decide)

theorem sealedText_injective (h : packages.base58.Lawful separator)
    {nonce sealed nonce' sealed' : List UInt8}
    (htext : sealedText packages nonce sealed = sealedText packages nonce' sealed') :
    nonce = nonce' ∧ sealed = sealed' := by
  have hsplit := congrArg (splitOnce [separator]) (List.append_cancel_left htext)
  rw [AccountNames.splitOnce_char (h.sep_notMem _), AccountNames.splitOnce_char (h.sep_notMem _),
    Option.some.injEq, Prod.mk.injEq] at hsplit
  exact ⟨h.encode_injective hsplit.1, h.encode_injective hsplit.2⟩

theorem toText_eq_ok_iff :
    keys.toText packages plain aad encrypted random = .ok text ↔
      (encrypted = true ∧ ∃ nonce sealed, random = .ok nonce ∧
        packages.cipher.encrypt keys.key nonce.1 aad plain = some sealed ∧
        sealedText packages nonce.1 sealed = text) ∨
      (encrypted = false ∧ plainPrefix ++ packages.base58.encode plain = text) := by
  cases encrypted with
  | false => simp [AccessKeys.toText]
  | true =>
    cases random with
    | error e => simp [AccessKeys.toText]
    | ok nonce =>
      cases hsealed : packages.cipher.encrypt keys.key nonce.1 aad plain with
      | none => simp [AccessKeys.toText, hsealed]
      | some sealed => simp [AccessKeys.toText, hsealed, sealedText]

theorem openText_eq_some_iff (h : packages.base58.Lawful separator) :
    keys.openText packages text aad encryptionEnforced = some plain ↔
      (∃ nonce sealed, nonce.length = nonceLen ∧ sealedText packages nonce sealed = text ∧
        packages.cipher.decrypt keys.key nonce aad sealed = some plain) ∨
      (encryptionEnforced = false ∧ plainPrefix ++ packages.base58.encode plain = text) := by
  constructor
  · intro hopen
    rw [AccessKeys.openText] at hopen
    cases hbegin : stripPrefix encryptedPrefix text with
    | some rest =>
      obtain rfl := AccountNames.stripPrefix_eq_some_iff.mp hbegin
      simp only [hbegin] at hopen
      cases hsplit : splitOnce [separator] rest with
      | none =>
        rw [hsplit] at hopen
        cases hopen
      | some parts =>
        obtain ⟨noncePart, sealedPart⟩ := parts
        simp only [hsplit] at hopen
        obtain ⟨rfl, -⟩ := AccountNames.splitOnce_char_eq_some_iff.mp hsplit
        cases hnonce : packages.base58.decode noncePart with
        | none =>
          rw [hnonce] at hopen
          cases hopen
        | some nonce =>
          simp only [hnonce] at hopen
          split_ifs at hopen with hlength
          cases hsealed : packages.base58.decode sealedPart with
          | none =>
            rw [hsealed] at hopen
            cases hopen
          | some sealed =>
            simp only [hsealed] at hopen
            refine .inl ⟨nonce, sealed, not_not.mp hlength, ?_, hopen⟩
            rw [sealedText, (h.decode_eq_some_iff _ _).mp hnonce,
              (h.decode_eq_some_iff _ _).mp hsealed]
    | none =>
      simp only [hbegin] at hopen
      cases hplain : stripPrefix plainPrefix text with
      | none =>
        rw [hplain] at hopen
        cases hopen
      | some rest =>
        obtain rfl := AccountNames.stripPrefix_eq_some_iff.mp hplain
        simp only [hplain] at hopen
        cases encryptionEnforced with
        | true => cases hopen
        | false =>
          rw [if_neg Bool.false_ne_true, h.decode_eq_some_iff] at hopen
          exact .inr ⟨rfl, by rw [hopen]⟩
  · rintro (⟨nonce, sealed, hlength, rfl, hopen⟩ | ⟨rfl, rfl⟩)
    · rw [AccessKeys.openText, sealedText, AccountNames.stripPrefix_eq_some_iff.mpr rfl]
      simp only [AccountNames.splitOnce_char (h.sep_notMem _), h.decode_encode, hlength, ne_eq,
        not_true_eq_false, if_false]
      exact hopen
    · have hbegin : stripPrefix encryptedPrefix (plainPrefix ++ packages.base58.encode plain) =
          none := by
        refine Option.eq_none_iff_forall_ne_some.mpr fun rest hrest => ?_
        exact encryptedPrefix_append_ne _ _ (AccountNames.stripPrefix_eq_some_iff.mp hrest).symm
      rw [AccessKeys.openText, hbegin]
      simp only [AccountNames.stripPrefix_eq_some_iff.mpr rfl, Bool.false_eq_true, if_false,
        h.decode_encode]

end Texts

section Readings

variable {packages : Packages} {issues : List Issue} {what what' : Capability}
  {bytes : List UInt8}

theorem metaAad_ne_urlAad (mxc : Text) : metaAad mxc ≠ urlAad := by
  intro h
  exact absurd (congrArg (fun aad : List UInt8 => aad[9]?) h)
    (by rw [metaAad, List.getElem?_append_left (by decide)]; decide)

theorem reads_of_plain
    (hjson : ∀ found json, packages.toJson found = .ok json → packages.fromJson json = some found)
    (h : what.plain packages = .ok bytes) : what.Reads packages bytes := by
  cases what with
  | uploadUrl mxc | mediaUrl mxc => exact (Except.ok.inj h).symm
  | uploadMeta found => exact hjson found bytes h

/-- Under one aad no two capabilities read the same bytes. -/
theorem eq_of_reads (haad : what.aad = what'.aad) (h : what.Reads packages bytes)
    (h' : what'.Reads packages bytes) : what = what' := by
  cases what <;> cases what' <;> simp only [Capability.aad] at haad <;>
    simp only [Capability.Reads] at h h'
  case uploadUrl.uploadUrl mxc mxc' =>
    rw [Utf8.encode_injective (List.cons_eq_cons.mp (h.symm.trans h')).2]
  case mediaUrl.mediaUrl mxc mxc' =>
    rw [Utf8.encode_injective (List.cons_eq_cons.mp (h.symm.trans h')).2]
  case uploadUrl.mediaUrl mxc mxc' =>
    exact absurd (List.cons_eq_cons.mp (h.symm.trans h')).1 (by decide)
  case mediaUrl.uploadUrl mxc mxc' =>
    exact absurd (List.cons_eq_cons.mp (h.symm.trans h')).1 (by decide)
  case uploadMeta.uploadMeta found found' => rw [Option.some.inj (h.symm.trans h')]
  case uploadUrl.uploadMeta mxc found => exact absurd haad.symm (metaAad_ne_urlAad _)
  case mediaUrl.uploadMeta mxc found => exact absurd haad.symm (metaAad_ne_urlAad _)
  case uploadMeta.uploadUrl found mxc => exact absurd haad (metaAad_ne_urlAad _)
  case uploadMeta.mediaUrl found mxc => exact absurd haad (metaAad_ne_urlAad _)

variable {keys : AccessKeys} {text : Text} {encryptionEnforced : Bool}

theorem openUrlKey_eq_some_iff {purpose : UInt8} {mxc : Text} :
    keys.openUrlKey packages purpose text encryptionEnforced = some mxc ↔
      keys.openText packages text urlAad encryptionEnforced =
        some (purpose :: Utf8.encode mxc) := by
  rw [AccessKeys.openUrlKey]
  cases hopen : keys.openText packages text urlAad encryptionEnforced with
  | none => simp
  | some plain =>
    cases plain with
    | nil => simp
    | cons found rest =>
      simp only [ne_eq, ite_not, Option.some.injEq, List.cons.injEq]
      split_ifs with hfound
      · rw [Utf8.decode_eq_some_iff, eq_comm]
        simp [hfound]
      · simp [hfound]

theorem openUploadMeta_eq_some_iff {mxc : Text} {found : UploadMeta} :
    keys.openUploadMeta packages text mxc encryptionEnforced = some found ↔
      found.upload.mxc = mxc ∧ ∃ json,
        keys.openText packages text (metaAad mxc) encryptionEnforced = some json ∧
        packages.fromJson json = some found := by
  rw [AccessKeys.openUploadMeta]
  cases hopen : keys.openText packages text (metaAad mxc) encryptionEnforced with
  | none => simp
  | some json =>
    cases hjson : packages.fromJson json with
    | none => simp [hjson]
    | some read =>
      simp only [hjson, Option.some.injEq, exists_eq_left']
      split_ifs with hmxc
      · rw [Option.some.injEq]
        constructor
        · rintro rfl
          exact ⟨hmxc, rfl⟩
        · exact And.right
      · constructor
        · exact nofun
        · rintro ⟨hfound, rfl⟩
          exact absurd hfound hmxc

/-- A text opens as a capability where it opens to bytes that are read as it. -/
theorem opens_iff :
    keys.Opens packages text encryptionEnforced what ↔
      ∃ bytes, keys.openText packages text what.aad encryptionEnforced = some bytes ∧
        what.Reads packages bytes := by
  cases what with
  | uploadUrl mxc =>
    rw [AccessKeys.Opens, AccessKeys.openUploadUrlKey, openUrlKey_eq_some_iff]
    simp [Capability.aad, Capability.Reads]
  | mediaUrl mxc =>
    rw [AccessKeys.Opens, AccessKeys.openMediaUrlKey, openUrlKey_eq_some_iff]
    simp [Capability.aad, Capability.Reads]
  | uploadMeta found =>
    rw [AccessKeys.Opens, openUploadMeta_eq_some_iff]
    simp [Capability.aad, Capability.Reads]

/-- A request is a sealing or a writing of the plain bytes. -/
theorem text_eq_ok_iff {issue : Issue} :
    issue.text packages = .ok text ↔
      ∃ plain, issue.what.plain packages = .ok plain ∧
        issue.keys.toText packages plain issue.what.aad issue.encrypted issue.random =
          .ok text := by
  rw [Issue.text]
  cases issue.what with
  | uploadUrl mxc =>
    simp [Capability.plain, Capability.aad, AccessKeys.toUploadUrlKey, AccessKeys.toUrlKey]
  | mediaUrl mxc =>
    simp [Capability.plain, Capability.aad, AccessKeys.toMediaUrlKey, AccessKeys.toUrlKey]
  | uploadMeta found =>
    simp only [AccessKeys.toUploadMeta, Capability.plain, Capability.aad]
    cases hjson : packages.toJson found with
    | error e | ok json => simp

theorem call_eq_some_iff {issue : Issue} {call : Sealing.Sealed (List UInt8) (List UInt8)} :
    issue.call packages = some call ↔
      issue.encrypted = true ∧ ∃ nonce plain, issue.random = .ok nonce ∧
        issue.what.plain packages = .ok plain ∧
        { key := issue.keys.key, nonce := nonce.1, aad := issue.what.aad, plain := plain } =
          call := by
  rw [Issue.call]
  cases issue.encrypted with
  | false => simp
  | true =>
    cases hrandom : issue.random with
    | error e => simp
    | ok nonce =>
      cases hplain : issue.what.plain packages with
      | error e | ok plain => simp

end Readings

section Exactness

variable {packages : Packages} {issues : List Issue} {keys : AccessKeys} {text : Text}
  {what : Capability}

/-- Under enforcement a text opens by the cipher alone, so it was sealed for a request. -/
theorem opens_enforced_iff (h : packages.Sound issues) :
    keys.Opens packages text true what ↔
      ∃ issue ∈ issues, issue.keys = keys ∧ issue.what = what ∧ issue.encrypted = true ∧
        issue.text packages = .ok text := by
  rw [opens_iff]
  constructor
  · rintro ⟨bytes, hopen, hreads⟩
    rcases (openText_eq_some_iff h.base58).mp hopen with
      ⟨nonce, sealed, -, rfl, hdecrypt⟩ | ⟨henforced, -⟩
    · obtain ⟨hlog, hsealed⟩ := (h.ideal.opens_iff _ _ _ _ _).mp hdecrypt
      obtain ⟨issue, hissue, hcall⟩ := List.mem_filterMap.mp hlog
      obtain ⟨hencrypted, nonce', plain, hrandom, hplain, heq⟩ := call_eq_some_iff.mp hcall
      simp only [Sealing.Sealed.mk.injEq] at heq
      obtain ⟨hkey, rfl, haad, rfl⟩ := heq
      have hwhat := eq_of_reads haad (reads_of_plain h.fromJson_toJson hplain) hreads
      refine ⟨issue, hissue, congrArg AccessKeys.mk hkey, hwhat, hencrypted,
        text_eq_ok_iff.mpr ⟨plain, hplain, toText_eq_ok_iff.mpr ?_⟩⟩
      exact .inl ⟨hencrypted, nonce', sealed, hrandom, by rw [hkey, haad]; exact hsealed, rfl⟩
    · cases henforced
  · rintro ⟨issue, hissue, rfl, rfl, hencrypted, htext⟩
    obtain ⟨plain, hplain, hmade⟩ := text_eq_ok_iff.mp htext
    refine ⟨plain, (openText_eq_some_iff h.base58).mpr (.inl ?_),
      reads_of_plain h.fromJson_toJson hplain⟩
    rcases toText_eq_ok_iff.mp hmade with
      ⟨-, nonce, sealed, hrandom, hsealed, hsame⟩ | ⟨hnot, -⟩
    · refine ⟨nonce.1, sealed, nonce.2, hsame, (h.ideal.opens_iff _ _ _ _ _).mpr ⟨?_, hsealed⟩⟩
      exact List.mem_filterMap.mpr ⟨issue, hissue,
        call_eq_some_iff.mpr ⟨hencrypted, nonce, plain, hrandom, hplain, rfl⟩⟩
    · rw [hencrypted] at hnot
      cases hnot

/-- No text is two capabilities, not even of two daemons. -/
theorem opens_unique (h : packages.Sound issues) {keys' : AccessKeys} {what' : Capability}
    (hopen : keys.Opens packages text true what) (hopen' : keys'.Opens packages text true what') :
    keys = keys' ∧ what = what' := by
  obtain ⟨bytes, hplain, hreads⟩ := opens_iff.mp hopen
  obtain ⟨bytes', hplain', hreads'⟩ := opens_iff.mp hopen'
  rcases (openText_eq_some_iff h.base58).mp hplain with
    ⟨nonce, sealed, -, rfl, hdecrypt⟩ | ⟨henforced, -⟩
  · rcases (openText_eq_some_iff h.base58).mp hplain' with
      ⟨nonce', sealed', -, htext, hdecrypt'⟩ | ⟨henforced, -⟩
    · obtain ⟨rfl, rfl⟩ := sealedText_injective h.base58 htext
      obtain ⟨hlog, hsealed⟩ := (h.ideal.opens_iff _ _ _ _ _).mp hdecrypt
      obtain ⟨hlog', hsealed'⟩ := (h.ideal.opens_iff _ _ _ _ _).mp hdecrypt'
      have hcall := h.ideal.apart _ hlog _ hlog' _ hsealed hsealed'
      simp only [Sealing.Sealed.mk.injEq] at hcall
      obtain ⟨hkey, -, haad, rfl⟩ := hcall
      exact ⟨congrArg AccessKeys.mk hkey, eq_of_reads haad hreads hreads'⟩
    · cases henforced
  · cases henforced

section

variable (h : packages.base58.Lawful separator)

include h

/-- Without enforcement a text opens that opens with it, and a plain text of bytes that are read as
the capability. -/
theorem opens_plain_iff : keys.Opens packages text false what ↔
      keys.Opens packages text true what ∨
        ∃ bytes, what.Reads packages bytes ∧
          plainPrefix ++ packages.base58.encode bytes = text := by
  simp only [opens_iff, openText_eq_some_iff h]
  constructor
  · rintro ⟨bytes, hsealed | ⟨-, hplain⟩, hreads⟩
    · exact .inl ⟨bytes, .inl hsealed, hreads⟩
    · exact .inr ⟨bytes, hreads, hplain⟩
  · rintro (⟨bytes, hsealed | ⟨henforced, -⟩, hreads⟩ | ⟨bytes, hreads, hplain⟩)
    · exact ⟨bytes, .inl hsealed, hreads⟩
    · cases henforced
    · exact ⟨bytes, .inr ⟨trivial, hplain⟩, hreads⟩

theorem not_opens_plainPrefix (rest : Text) :
    ¬ keys.Opens packages (plainPrefix ++ rest) true what := by
  intro hopen
  obtain ⟨bytes, hplain, -⟩ := opens_iff.mp hopen
  rcases (openText_eq_some_iff h).mp hplain with ⟨nonce, sealed, -, htext, -⟩ | ⟨henforced, -⟩
  · exact encryptedPrefix_append_ne _ _ htext
  · cases henforced

theorem opens_plainPrefix_iff {rest : Text} :
    keys.Opens packages (plainPrefix ++ rest) false what ↔
      ∃ bytes, what.Reads packages bytes ∧ packages.base58.encode bytes = rest := by
  rw [opens_plain_iff h, or_iff_right (not_opens_plainPrefix h rest)]
  simp only [List.append_cancel_left_eq]

end

/-- An issued text opens where it may. -/
theorem opens_of_issued (h : packages.Sound issues) {issue : Issue} (hissue : issue ∈ issues)
    (htext : issue.text packages = .ok text) {encryptionEnforced : Bool}
    (hmode : issue.encrypted = true ∨ encryptionEnforced = false) :
    issue.keys.Opens packages text encryptionEnforced issue.what := by
  have hsealed : issue.encrypted = true → issue.keys.Opens packages text true issue.what :=
    fun hencrypted => (opens_enforced_iff h).mpr ⟨issue, hissue, rfl, rfl, hencrypted, htext⟩
  cases encryptionEnforced with
  | true => exact hsealed (hmode.resolve_right nofun)
  | false =>
    rw [opens_plain_iff h.base58]
    obtain ⟨plain, hplain, hmade⟩ := text_eq_ok_iff.mp htext
    rcases toText_eq_ok_iff.mp hmade with ⟨hencrypted, -⟩ | ⟨-, hsame⟩
    · exact .inl (hsealed hencrypted)
    · exact .inr ⟨plain, reads_of_plain h.fromJson_toJson hplain, hsame⟩

theorem plainUrl_iff {purpose : UInt8} {mxc rest : Text} {random : Randomness} :
    keys.toUrlKey packages purpose mxc false random = .ok (plainPrefix ++ rest) ↔
      ∃ bytes, bytes = purpose :: Utf8.encode mxc ∧ packages.base58.encode bytes = rest := by
  simp [AccessKeys.toUrlKey, AccessKeys.toText]

/-- Under enforcement exactly the issued texts open, each as what it was issued for, with the key
and for the mxc it was issued for, and plain texts never. Without it the issued texts open too, a
plain URL exactly where it is the issued one, and a plain header exactly where its bytes are read
as an upload of this mxc. -/
theorem capabilities_exact (h : packages.Sound issues) :
    (∀ (keys : AccessKeys) text mxc, keys.openUploadUrlKey packages text true = some mxc ↔
      ∃ issue ∈ issues, issue.keys = keys ∧ issue.what = .uploadUrl mxc ∧
        issue.encrypted = true ∧ issue.text packages = .ok text) ∧
    (∀ (keys : AccessKeys) text mxc, keys.openMediaUrlKey packages text true = some mxc ↔
      ∃ issue ∈ issues, issue.keys = keys ∧ issue.what = .mediaUrl mxc ∧
        issue.encrypted = true ∧ issue.text packages = .ok text) ∧
    (∀ (keys : AccessKeys) text mxc found,
      keys.openUploadMeta packages text mxc true = some found ↔
        found.upload.mxc = mxc ∧ ∃ issue ∈ issues, issue.keys = keys ∧
          issue.what = .uploadMeta found ∧ issue.encrypted = true ∧
            issue.text packages = .ok text) ∧
    (∀ (keys keys' : AccessKeys) text what what', keys.Opens packages text true what →
      keys'.Opens packages text true what' → keys = keys' ∧ what = what') ∧
    (∀ issue ∈ issues, ∀ text, issue.text packages = .ok text → ∀ encryptionEnforced,
      issue.encrypted = true ∨ encryptionEnforced = false →
        issue.keys.Opens packages text encryptionEnforced issue.what) ∧
    (∀ (keys : AccessKeys) rest what, ¬ keys.Opens packages (plainPrefix ++ rest) true what) ∧
    (∀ (keys : AccessKeys) text what, (∀ rest, text ≠ plainPrefix ++ rest) →
      (keys.Opens packages text false what ↔ keys.Opens packages text true what)) ∧
    (∀ (keys : AccessKeys) rest random mxc,
      (keys.openUploadUrlKey packages (plainPrefix ++ rest) false = some mxc ↔
        keys.toUploadUrlKey packages mxc false random = .ok (plainPrefix ++ rest)) ∧
      (keys.openMediaUrlKey packages (plainPrefix ++ rest) false = some mxc ↔
        keys.toMediaUrlKey packages mxc false random = .ok (plainPrefix ++ rest))) ∧
    ∀ (keys : AccessKeys) rest mxc found,
      keys.openUploadMeta packages (plainPrefix ++ rest) mxc false = some found ↔
        found.upload.mxc = mxc ∧ ∃ json, packages.fromJson json = some found ∧
          packages.base58.encode json = rest := by
  refine ⟨fun keys text mxc => ?_, fun keys text mxc => ?_, fun keys text mxc found => ?_,
    fun keys keys' text what what' => opens_unique h,
    fun issue hissue text htext enforced => opens_of_issued h hissue htext,
    fun keys rest what => not_opens_plainPrefix h.base58 rest, fun keys text what hnot => ?_,
    fun keys rest random mxc => ⟨?_, ?_⟩, fun keys rest mxc found => ?_⟩
  · exact (opens_enforced_iff h : keys.Opens packages text true (.uploadUrl mxc) ↔ _)
  · exact (opens_enforced_iff h : keys.Opens packages text true (.mediaUrl mxc) ↔ _)
  · constructor
    · intro hopen
      obtain ⟨rfl, -⟩ := openUploadMeta_eq_some_iff.mp hopen
      exact ⟨rfl, (opens_enforced_iff h : keys.Opens packages text true (.uploadMeta found) ↔ _).mp
        hopen⟩
    · rintro ⟨rfl, hissued⟩
      exact (opens_enforced_iff h).mpr hissued
  · rw [opens_plain_iff h.base58]
    refine or_iff_left ?_
    rintro ⟨bytes, -, htext⟩
    exact hnot _ htext.symm
  · rw [AccessKeys.toUploadUrlKey, plainUrl_iff]
    exact (opens_plainPrefix_iff h.base58 :
      keys.Opens packages (plainPrefix ++ rest) false (.uploadUrl mxc) ↔ _)
  · rw [AccessKeys.toMediaUrlKey, plainUrl_iff]
    exact (opens_plainPrefix_iff h.base58 :
      keys.Opens packages (plainPrefix ++ rest) false (.mediaUrl mxc) ↔ _)
  · constructor
    · intro hopen
      obtain ⟨rfl, -⟩ := openUploadMeta_eq_some_iff.mp hopen
      exact ⟨rfl, (opens_plainPrefix_iff h.base58 :
        keys.Opens packages (plainPrefix ++ rest) false (.uploadMeta found) ↔ _).mp hopen⟩
    · rintro ⟨rfl, hread⟩
      exact (opens_plainPrefix_iff h.base58 :
        keys.Opens packages (plainPrefix ++ rest) false (.uploadMeta found) ↔ _).mpr hread

def exampleMeta : UploadMeta where
  upload := .matrix {
    server := "https://localhost", userId := "@alice:localhost", mxc := "mxc://localhost/4d"
    name := "cat.png", mimetype := none, size := 40, encrypted := true }
  sourceUri := none

def exampleJson : List UInt8 :=
  Utf8.encode ("\x7b\"upload\":\x7b\"format\":\"matrix\",\"server\":\"https://localhost\",".toList ++
    "\"user_id\":\"@alice:localhost\",\"mxc\":\"mxc://localhost/4d\",".toList ++
    "\"name\":\"cat.png\",\"size\":40,\"encrypted\":true\x7d\x7d".toList)

def exampleKeys : AccessKeys where
  key := [7]

def exampleNonce : {nonce : List UInt8 // nonce.length = nonceLen} :=
  ⟨List.replicate nonceLen 5, List.length_replicate⟩

def exampleIssues : List Issue :=
  [ { keys := exampleKeys, what := .uploadUrl exampleMeta.upload.mxc, encrypted := true,
      random := .ok exampleNonce },
    { keys := exampleKeys, what := .uploadMeta exampleMeta, encrypted := true,
      random := .ok exampleNonce } ]

/-- JSON of the one upload, which is read with a blank before it too. The cipher opens what is in
the given log. -/
def examplePackages (log : List (Sealing.Sealed (List UInt8) (List UInt8))) : Packages where
  deriveKey _ token := token.take 32
  cipher := .ofLog (fun _ nonce aad plain => some (plain ++ nonce ++ aad)) log
  base58 := Base58.armor
  toJson found := if found = exampleMeta then .ok exampleJson else .error "not this upload"
  fromJson json :=
    if json = exampleJson ∨ json = 0x20 :: exampleJson then some exampleMeta else none

def exampleLog : List (Sealing.Sealed (List UInt8) (List UInt8)) :=
  sealedLog (examplePackages []) exampleIssues

theorem examplePackages_toJson (log : List (Sealing.Sealed (List UInt8) (List UInt8))) :
    (examplePackages log).toJson exampleMeta = .ok exampleJson := by
  simp only [examplePackages, if_true]

theorem exampleLog_eq :
    exampleLog =
      [ { key := [7], nonce := exampleNonce.1, aad := urlAad,
          plain := purposeUpload :: Utf8.encode exampleMeta.upload.mxc },
        { key := [7], nonce := exampleNonce.1, aad := metaAad exampleMeta.upload.mxc,
          plain := exampleJson } ] := by
  simp only [exampleLog, sealedLog, exampleIssues, List.filterMap_cons, List.filterMap_nil,
    Issue.call, Capability.plain, examplePackages_toJson, Capability.aad, exampleKeys]

theorem examplePackages_sound :
    (examplePackages exampleLog).Sound exampleIssues where
  ideal := by
    refine Sealing.Cipher.ofLog_ideal fun a ha b hb sealed hsealed hsealed' => ?_
    have hsame := Option.some.inj (hsealed.trans hsealed'.symm)
    change a ∈ exampleLog at ha
    change b ∈ exampleLog at hb
    simp only [exampleLog_eq, List.mem_cons, List.not_mem_nil, or_false] at ha hb
    rcases ha with rfl | rfl <;> rcases hb with rfl | rfl
    · rfl
    · exact absurd (List.cons_eq_cons.mp hsame).1 (by decide)
    · exact absurd (List.cons_eq_cons.mp hsame).1 (by decide)
    · rfl
  base58 := Base58.lawful
  fromJson_toJson := by
    intro found json hjson
    simp only [examplePackages] at hjson ⊢
    split_ifs at hjson with hfound
    cases hjson
    rw [if_pos (.inl rfl), hfound]

/-- The URL of the upload opens as such, and not as one to read from. -/
theorem capabilities_exact_of_example :
    ∃ text, exampleKeys.toUploadUrlKey (examplePackages exampleLog) exampleMeta.upload.mxc true
        (.ok exampleNonce) = .ok text ∧
      exampleKeys.openUploadUrlKey (examplePackages exampleLog) text true =
        some exampleMeta.upload.mxc ∧
      exampleKeys.openMediaUrlKey (examplePackages exampleLog) text true = none := by
  have hissued : exampleKeys.toUploadUrlKey (examplePackages exampleLog) exampleMeta.upload.mxc
      true (.ok exampleNonce) = .ok (sealedText (examplePackages exampleLog) exampleNonce.1
        (purposeUpload :: Utf8.encode exampleMeta.upload.mxc ++ exampleNonce.1 ++ urlAad)) := by
    rw [AccessKeys.toUploadUrlKey, AccessKeys.toUrlKey, toText_eq_ok_iff]
    exact .inl ⟨rfl, exampleNonce, _, rfl, rfl, rfl⟩
  obtain ⟨hupload, hmedia, -⟩ := capabilities_exact examplePackages_sound
  refine ⟨_, hissued, (hupload _ _ _).mpr ⟨_, List.mem_cons_self, rfl, rfl, rfl, hissued⟩, ?_⟩
  refine Option.eq_none_iff_forall_ne_some.mpr fun mxc hopen => ?_
  obtain ⟨issue, hissue, -, hwhat, -⟩ := (hmedia _ _ _).mp hopen
  simp only [exampleIssues, List.mem_cons, List.not_mem_nil, or_false] at hissue
  rcases hissue with rfl | rfl <;> cases hwhat

/-- Without encryption a header opens whose JSON has a blank before it, which nobody issues. -/
theorem blank_before_plain_meta :
    ∃ text, exampleKeys.openUploadMeta (examplePackages exampleLog) text exampleMeta.upload.mxc
        false = some exampleMeta ∧
      ∀ random, exampleKeys.toUploadMeta (examplePackages exampleLog) exampleMeta false random ≠
        .ok text := by
  have hread : (examplePackages exampleLog).fromJson (0x20 :: exampleJson) = some exampleMeta := by
    simp only [examplePackages, or_true, if_true]
  have hopen : exampleKeys.Opens (examplePackages exampleLog)
      (plainPrefix ++ (examplePackages exampleLog).base58.encode (0x20 :: exampleJson)) false
        (.uploadMeta exampleMeta) :=
    (opens_plainPrefix_iff examplePackages_sound.base58).mpr ⟨_, hread, rfl⟩
  refine ⟨_, hopen, fun random htext => ?_⟩
  simp only [AccessKeys.toUploadMeta, examplePackages_toJson, AccessKeys.toText,
    Bool.not_false, if_true, Except.ok.injEq, List.append_cancel_left_eq] at htext
  exact List.cons_ne_self _ _ (examplePackages_sound.base58.encode_injective htext).symm

end Exactness

end DataPlane
end WbfMatrixClient
