import WbfMatrixClient.ChunkedBlock
import WbfMatrixClient.Incoming

/-!
# What a message shows

The content of an event gives what is shown of it: a text, a file in one of the
two formats, a line about the room, or a mark that it cannot be shown. From a
file the description of its row in the media table is made.

Two things come from elsewhere: how a chunked block is read from JSON, and how
a text is quoted in a line.
-/

namespace WbfMatrixClient

structure ContentPackages where
  blockFromJson : Json → Except String ChunkedBlock
  quoted : String → String

inductive MediaKind where
  | wbfChunked
  | matrixEncrypted
  | matrixPlain
deriving DecidableEq

/-- Whether the hash of a finished file is the one that was promised. -/
inductive Verification where
  | unknown
  | matched
  | mismatched
deriving DecidableEq

structure Attachment where
  mxc : String
  block : ChunkedBlock

structure MatrixAttachment where
  msgtype : String
  mxc : String
  kind : MediaKind
  name : Option String
  mimetype : Option String
  size : Option Nat
  file : Option Json

inductive MessageKind where
  | text (body : String) (formattedHtml : Option String)
  | file (attachment : Attachment) (caption : Option String)
  | matrixFile (attachment : MatrixAttachment) (caption : Option String)
  | deleted (reason : Option String)
  | system (eventType line : String)
  | undecryptable
  | outdated
  | unsupported (eventType : String) (body : Option String)

structure Reaction where
  key : String
  by_ : List String
  mine : Option String

structure Message where
  id : String
  conversation : String
  sender : String
  sentAt : Nat
  kind : MessageKind
  replyTo : Option String
  editedBy : Option String
  reactions : List Reaction
  decrypted : Option Bool
  undecryptableReason : Option String
  rSeq : Option Int
  gSeq : Option Int

def fileMsgtype : String := "org.wbftw.wbfuwunel.file"

def chunkedBlockKey : String := "org.wbftw.wbfuwunel.chunked"

def fileAttachment (packages : ContentPackages) (content : Json) : Except String Attachment :=
  match content.text "url" with
  | none => .error "no url"
  | some mxc =>
      match content.get chunkedBlockKey with
      | none => .error "no chunked block"
      | some json =>
          match packages.blockFromJson json with
          | .error error => .error ("block: " ++ error)
          | .ok block =>
              match block.checkAsEventBlock with
              | .error e => .error e.message
              | .ok () => .ok { mxc := mxc, block := block }

/-- The text in a field, if it has one that is not empty. -/
def nonemptyText (json : Option Json) (key : String) : Option String :=
  (json.bind fun json => json.text key).filter fun text => text ≠ ""

/-- The address in the encrypted description of a file, which must be
complete. -/
def encryptedFileUrl (file : Json) : Except String String :=
  match nonemptyText (some file) "url" with
  | none => .error "encrypted file without url"
  | some mxc =>
      if nonemptyText (some file) "v" ≠ some "v2" then
        .error "encrypted file is not v2"
      else if ((file.get "key").map Json.isObject).getD false = false
          ∨ nonemptyText (some file) "iv" = none
          ∨ nonemptyText (file.get "hashes") "sha256" = none then
        .error "encrypted file without key, iv or sha256"
      else
        .ok mxc

def matrixAttachmentOfContent (packages : ContentPackages) (msgtype : String) (content : Json) :
    Except String MatrixAttachment :=
  let info := content.get "info"
  let found : Except String (MediaKind × String × Option Json) :=
    match content.get "file" with
    | some file =>
        match encryptedFileUrl file with
        | .error e => .error e
        | .ok mxc => .ok (.matrixEncrypted, mxc, some file)
    | none =>
        match nonemptyText (some content) "url" with
        | none => .error "no url"
        | some mxc => .ok (.matrixPlain, mxc, none)
  match found with
  | .error e => .error e
  | .ok (kind, mxc, file) =>
      if "mxc://".toList.isPrefixOf mxc.toList then
        .ok {
          msgtype := msgtype
          mxc := mxc
          kind := kind
          name := (nonemptyText (some content) "filename").or (nonemptyText (some content) "body")
          mimetype := nonemptyText info "mimetype"
          size := (info.bind (Json.get "size")).bind Json.asU64
          file := file }
      else
        .error (packages.quoted mxc ++ " is not an mxc URI")

def matrixCaption (content : Json) : Option String :=
  match content.text "body", content.text "filename" with
  | some body, some filename => if body ≠ "" ∧ body ≠ filename then some body else none
  | _, _ => none

def systemLine (packages : ContentPackages) (eventType : String) (content raw : Json) : String :=
  let sender := (raw.text "sender").getD "?"
  let stateKey := (raw.text "state_key").getD ""
  let field (key : String) : String := (content.text key).getD ""
  match eventType with
  | "m.room.member" => stateKey ++ " " ++ field "membership"
  | "m.room.name" => sender ++ " named the room " ++ packages.quoted (field "name")
  | "m.room.topic" => sender ++ " set the topic " ++ packages.quoted (field "topic")
  | "m.room.encryption" => sender ++ " enabled encryption"
  | "m.room.create" => sender ++ " created the room"
  | other => sender ++ " changed " ++ other

/-- The events about the room that are shown as a line. -/
def systemEventTypes : List String :=
  ["m.room.member", "m.room.name", "m.room.topic", "m.room.power_levels", "m.room.encryption",
    "m.room.pinned_events", "m.room.create", "m.room.join_rules", "m.room.history_visibility",
    "m.room.avatar", "m.room.canonical_alias", "m.room.guest_access"]

def kindOfMessage (packages : ContentPackages) (eventType : String) (content : Json) :
    MessageKind :=
  let body := content.text "body"
  let msgtype := (content.text "msgtype").getD ""
  if msgtype = "m.text" ∨ msgtype = "m.notice" ∨ msgtype = "m.emote" then
    .text (body.getD "") (content.text "formatted_body")
  else if msgtype = fileMsgtype then
    match fileAttachment packages content with
    | .ok attachment => .file attachment (content.text "caption")
    | .error reason => .unsupported (eventType ++ "/" ++ msgtype ++ " (" ++ reason ++ ")") body
  else if msgtype = "m.file" ∨ msgtype = "m.image" ∨ msgtype = "m.video" ∨ msgtype = "m.audio" then
    match matrixAttachmentOfContent packages msgtype content with
    | .ok attachment => .matrixFile attachment (matrixCaption content)
    | .error reason => .unsupported (eventType ++ "/" ++ msgtype ++ " (" ++ reason ++ ")") body
  else
    .unsupported (eventType ++ "/" ++ msgtype) body

def kindFromContent (packages : ContentPackages) (eventType : String) (content raw : Json) :
    MessageKind :=
  if eventType = "m.room.message" then
    kindOfMessage packages eventType content
  else if eventType = "m.room.encrypted" then
    .undecryptable
  else if eventType ∈ systemEventTypes then
    .system eventType (systemLine packages eventType content raw)
  else
    .unsupported eventType (content.text "body")

/-- What is said of a file before it is there. -/
structure MediaDescription where
  kind : MediaKind
  name : Option String
  mimetype : Option String
  hash : Option String
  fileSize : Option Nat
  chunkSize : Option Nat

def blockHash (sha256 : Option (List Char)) : Option String :=
  match sha256 with
  | some (c :: hex) => some ("sha256:" ++ String.ofList ((c :: hex).map Char.toLower))
  | _ => none

namespace MediaDescription

def ofChunkedBlock (block : ChunkedBlock) : Option MediaDescription :=
  block.fileSize.map fun fileSize =>
    { kind := .wbfChunked, name := block.name, mimetype := block.mimetype,
      hash := blockHash block.sha256, fileSize := some fileSize,
      chunkSize := some block.chunkSize }

def ofMatrixAttachment (attachment : MatrixAttachment) : MediaDescription :=
  { kind := attachment.kind, name := attachment.name, mimetype := attachment.mimetype,
    hash := (nonemptyText (attachment.file.bind (Json.get "hashes")) "sha256").map fun hash =>
      "matrix-sha256:" ++ hash,
    fileSize := attachment.size, chunkSize := none }

/-- A chunked file has both its sizes. -/
def isValid (description : MediaDescription) : Bool :=
  description.kind ≠ .wbfChunked ∨
    (description.fileSize.isSome ∧ description.chunkSize.isSome)

end MediaDescription

/-- The file that a stored event brings, if it is one. -/
def attachmentOf (packages : ContentPackages) (eventType : Option String)
    (contentJson : Option Json) : Option Attachment :=
  match contentJson, eventType with
  | some body, some eventType =>
      match kindFromContent packages eventType body .null with
      | .file attachment _ => some attachment
      | _ => none
  | _, _ => none

def matrixAttachmentOf (packages : ContentPackages) (eventType : Option String)
    (contentJson : Option Json) : Option MatrixAttachment :=
  match contentJson, eventType with
  | some body, some eventType =>
      match kindFromContent packages eventType body .null with
      | .matrixFile attachment _ => some attachment
      | _ => none
  | _, _ => none

/-- The media row that a stored event asks for. -/
def mediaOf (packages : ContentPackages) (eventType : Option String)
    (contentJson : Option Json) : Option (String × MediaDescription) :=
  match attachmentOf packages eventType contentJson with
  | some attachment =>
      (MediaDescription.ofChunkedBlock attachment.block).map fun description =>
        (attachment.mxc, description)
  | none =>
      (matrixAttachmentOf packages eventType contentJson).map fun attachment =>
        (attachment.mxc, MediaDescription.ofMatrixAttachment attachment)

variable {packages : ContentPackages}

/-- The kind of a Matrix attachment is never the chunked one. -/
theorem matrixAttachmentOfContent_kind {msgtype : String} {content : Json}
    {attachment : MatrixAttachment}
    (h : matrixAttachmentOfContent packages msgtype content = .ok attachment) :
    attachment.kind ≠ .wbfChunked := by
  simp only [matrixAttachmentOfContent] at h
  cases hfile : content.get "file" with
  | some file =>
    rw [hfile] at h
    cases hurl : encryptedFileUrl file with
    | error e =>
      simp only [hurl] at h
      cases h
    | ok mxc =>
      simp only [hurl] at h
      split_ifs at h
      cases h
      simp
  | none =>
    rw [hfile] at h
    cases hurl : nonemptyText (some content) "url" with
    | none =>
      simp only [hurl] at h
      cases h
    | some mxc =>
      simp only [hurl] at h
      split_ifs at h
      cases h
      simp

/-- Only a Matrix attachment is shown as one. -/
theorem kindFromContent_matrixFile {eventType : String} {content raw : Json}
    {attachment : MatrixAttachment} {caption : Option String}
    (h : kindFromContent packages eventType content raw = .matrixFile attachment caption) :
    ∃ msgtype, matrixAttachmentOfContent packages msgtype content = .ok attachment := by
  rw [kindFromContent] at h
  split_ifs at h
  simp only [kindOfMessage] at h
  split_ifs at h
  · cases hfile : fileAttachment packages content with
    | error e | ok attachment' =>
      rw [hfile] at h
      cases h
  · cases hfile : matrixAttachmentOfContent packages ((content.text "msgtype").getD "")
        content with
    | error e =>
      rw [hfile] at h
      cases h
    | ok attachment' =>
      rw [hfile] at h
      cases h
      exact ⟨_, hfile⟩

/-- What a stored event says of its media always makes a row. -/
theorem mediaOf_isValid {eventType : Option String} {contentJson : Option Json} {mxc : String}
    {description : MediaDescription}
    (h : mediaOf packages eventType contentJson = some (mxc, description)) :
    description.isValid = true := by
  rw [mediaOf] at h
  cases hattachment : attachmentOf packages eventType contentJson with
  | some attachment =>
    rw [hattachment] at h
    simp only [MediaDescription.ofChunkedBlock, Option.map_map, Option.map_eq_some_iff,
      Function.comp_apply, Prod.mk.injEq] at h
    obtain ⟨fileSize, _, _, rfl⟩ := h
    simp [MediaDescription.isValid]
  | none =>
    rw [hattachment] at h
    obtain ⟨attachment, hmatrix, heq⟩ := Option.map_eq_some_iff.mp h
    cases heq
    have hkind : attachment.kind ≠ .wbfChunked := by
      cases contentJson with
      | none => cases hmatrix
      | some body =>
        cases eventType with
        | none => cases hmatrix
        | some eventType =>
          simp only [matrixAttachmentOf] at hmatrix
          cases hkind : kindFromContent packages eventType body .null with
          | matrixFile found caption =>
            rw [hkind] at hmatrix
            cases hmatrix
            obtain ⟨msgtype, hcontent⟩ := kindFromContent_matrixFile hkind
            exact matrixAttachmentOfContent_kind hcontent
          | _ =>
            rw [hkind] at hmatrix
            cases hmatrix
    simp [MediaDescription.isValid, MediaDescription.ofMatrixAttachment, hkind]

end WbfMatrixClient
