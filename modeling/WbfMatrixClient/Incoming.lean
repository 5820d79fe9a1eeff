import Mathlib.Data.String.Basic

/-!
# Events as they come in, and their classes

An event comes in as JSON: in clear, as a ciphertext that was opened, or as one
that was not. What can be read of it gives its class and the event it refers
to. Whether an edit may replace its target is decided by what is known of the
two events.
-/

namespace WbfMatrixClient

/-- A value of JSON. A number that is no integer is kept as its text. -/
inductive Json where
  | null
  | bool (b : Bool)
  | number (n : Int)
  | decimal (text : String)
  | string (text : String)
  | array (items : List Json)
  | object (fields : List (String × Json))

namespace Json

def get (key : String) : Json → Option Json
  | .object fields => fields.lookup key
  | _ => none

def asStr : Json → Option String
  | .string text => some text
  | _ => none

def asI64 : Json → Option Int
  | .number n => if -0x8000000000000000 ≤ n ∧ n ≤ 0x7FFFFFFFFFFFFFFF then some n else none
  | _ => none

def asU64 : Json → Option Nat
  | .number n => if 0 ≤ n ∧ n ≤ 0xFFFFFFFFFFFFFFFF then some n.toNat else none
  | _ => none

def asArray : Json → Option (List Json)
  | .array items => some items
  | _ => none

def isObject : Json → Bool
  | .object _ => true
  | _ => false

/-- The text in a field. -/
def text (json : Json) (key : String) : Option String :=
  (json.get key).bind asStr

end Json

inductive IncomingEvent where
  | plain (event : Json)
  | decrypted (ciphertext : Option Json) (cleartext : Json)
  | undecrypted (ciphertext : Json) (reason : String)

namespace IncomingEvent

def rawEvent : IncomingEvent → Option Json
  | .plain event => some event
  | .decrypted ciphertext _ => ciphertext
  | .undecrypted ciphertext _ => some ciphertext

def cleartext : IncomingEvent → Option Json
  | .plain event => some event
  | .decrypted _ cleartext => some cleartext
  | .undecrypted _ _ => none

/-- The part with the fields that the server sets. -/
def envelope : IncomingEvent → Json
  | .plain event => event
  | .decrypted (some ciphertext) _ => ciphertext
  | .decrypted none cleartext => cleartext
  | .undecrypted ciphertext _ => ciphertext

/-- Whether an encrypted event was opened; nothing for one that was never
encrypted. -/
def decryptedFlag : IncomingEvent → Option Bool
  | .plain _ => none
  | .decrypted _ _ => some true
  | .undecrypted _ _ => some false

def findEventId (incoming : IncomingEvent) : Option String :=
  incoming.envelope.text "event_id"

/-- The event id and the sender, without which an event is not stored. -/
def storableIdentity (incoming : IncomingEvent) : Option (String × String) :=
  match incoming.envelope.text "sender", incoming.findEventId with
  | some sender, some eventId => some (eventId, sender)
  | _, _ => none

def seqs (incoming : IncomingEvent) : Option Int × Option Int :=
  let read (key : String) : Option Int :=
    ((incoming.envelope.get "unsigned").bind (Json.get key)).bind Json.asI64
  (read "org.wbftw.wbfuwunel.r_seq", read "org.wbftw.wbfuwunel.g_seq")

def originServerTs (incoming : IncomingEvent) : Int :=
  ((incoming.envelope.get "origin_server_ts").bind Json.asI64).getD 0

/-- The server delivered the event in its redacted form. -/
def isRedactedByServer (incoming : IncomingEvent) : Bool :=
  ((incoming.envelope.get "unsigned").bind (Json.get "redacted_because")).isSome

end IncomingEvent

inductive EventClass where
  | general
  | msg
  | edit
  | redact
  | reaction
deriving DecidableEq

structure Classified where
  eventClass : EventClass
  eventType : Option String
  contentJson : Option Json
  refEventId : Option String
  isState : Bool

/-- The class, the target and the content of what can be read. -/
def classifyCleartext (cleartext : Json) (eventType : String) (isState : Bool) (content : Json) :
    EventClass × Option String × Json :=
  let relates := content.get "m.relates_to"
  let relatesText (key : String) : Option String := relates.bind fun relates => relates.text key
  match eventType with
  | "m.room.redaction" =>
      match ((content.get "redacts").or (cleartext.get "redacts")).bind Json.asStr with
      | some target => (.redact, some target, content)
      | none => (.msg, none, content)
  | "m.reaction" =>
      match relatesText "rel_type", relatesText "event_id" with
      | some "m.annotation", some target =>
          if (relatesText "key").isSome then (.reaction, some target, content)
          else (.msg, none, content)
      | _, _ => (.msg, none, content)
  | _ =>
      match isState, relatesText "rel_type", relatesText "event_id",
        content.get "m.new_content" with
      | false, some "m.replace", some target, some newContent => (.edit, some target, newContent)
      | _, _, _, _ => (.msg, none, content)

def classify (incoming : IncomingEvent) : Classified :=
  match incoming.cleartext with
  | none =>
      { eventClass := .general, eventType := none, contentJson := none, refEventId := none,
        isState := false }
  | some cleartext =>
      let eventType := (cleartext.text "type").getD "unknown"
      let content := (cleartext.get "content").getD (.object [])
      let isState := (cleartext.get "state_key").isSome
      let (eventClass, refEventId, contentJson) :=
        classifyCleartext cleartext eventType isState content
      { eventClass := eventClass, eventType := some eventType, contentJson := some contentJson,
        refEventId := refEventId, isState := isState }

/-- Only a ciphertext that was not opened is general. -/
theorem classify_eq_general_iff {incoming : IncomingEvent} :
    (classify incoming).eventClass = .general ↔ incoming.cleartext = none := by
  rw [classify]
  cases incoming.cleartext with
  | none => simp
  | some cleartext =>
    simp only [reduceCtorEq, iff_false, classifyCleartext]
    split
    · split <;> simp
    · split
      · split_ifs <;> simp
      · simp
    · split <;> simp

/-- Edits and redactions name their target, and a message names none. -/
theorem classify_target (incoming : IncomingEvent) :
    ((classify incoming).eventClass = .edit → (classify incoming).refEventId.isSome = true) ∧
      ((classify incoming).eventClass = .redact →
        (classify incoming).refEventId.isSome = true) ∧
      ((classify incoming).eventClass = .msg → (classify incoming).refEventId = none) := by
  rw [classify]
  cases incoming.cleartext with
  | none => simp
  | some cleartext =>
    simp only [classifyCleartext]
    split
    · split <;> simp
    · split
      · split_ifs <;> simp
      · simp
    · split <;> simp

/-- What has to be known of an edit, or of its target, to judge the edit. -/
structure ReplacementSide where
  sender : String
  eventClass : EventClass
  eventType : Option String
  isState : Bool
  wasEncrypted : Bool

def checkReplacement (target edit : ReplacementSide) : Except String Unit :=
  if edit.eventClass ≠ .edit then
    .error "not an edit"
  else if target.eventClass ≠ .msg then
    .error "the target is not a message"
  else if target.sender ≠ edit.sender then
    .error "the edit comes from a different sender"
  else if target.isState ∨ edit.isState then
    .error "state events cannot be replaced or be replacements"
  else
    match target.eventType, edit.eventType with
    | some targetType, some editType =>
        if targetType ≠ editType then
          .error "the edit changes the event type"
        else if target.wasEncrypted ∧ edit.wasEncrypted = false then
          .error "a plaintext edit cannot replace an encrypted event"
        else
          .ok ()
    | _, _ => .error "the edit changes the event type"

/-- Only an edit replaces, and only a message of the same sender is
replaced. -/
theorem checkReplacement_ok {target edit : ReplacementSide}
    (h : checkReplacement target edit = .ok ()) :
    target.eventClass = .msg ∧ edit.eventClass = .edit ∧ target.sender = edit.sender := by
  rw [checkReplacement] at h
  by_cases hedit : edit.eventClass = .edit
  · by_cases hmsg : target.eventClass = .msg
    · by_cases hsender : target.sender = edit.sender
      · exact ⟨hmsg, hedit, hsender⟩
      · simp [hedit, hmsg, hsender] at h
    · simp [hedit, hmsg] at h
  · simp [hedit] at h

/-- The content shown for an edited message: the new content, with the relation
of the target. -/
def toReplacedBody (targetContentJson newContent : Json) : Json :=
  let fields :=
    match newContent with
    | .object fields => fields
    | _ => []
  let kept := fields.filter fun field => field.1 ≠ "m.relates_to"
  match targetContentJson.get "m.relates_to" with
  | some relates => .object (kept ++ [("m.relates_to", relates)])
  | none => .object kept

end WbfMatrixClient
