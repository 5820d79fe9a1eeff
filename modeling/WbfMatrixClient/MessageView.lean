import WbfMatrixClient.CacheOperations

/-!
# What an account sees of a message

A message is shown to one account out of the tables that all accounts share. There are
four queries: the row itself, the edit that is shown for it, the reactions to it, and the
reason of a redaction. What the account has not synced is not for it.
-/

namespace WbfMatrixClient

def notDecryptedHere : String := "NotDecryptedHere"

inductive CurrentEdit where
  | notEdited
  | notSynced
  | hidden
  | redacted (reason : Option String)
  | visible (newContent : Json) (editor : String)

def reasonIn (content : Option Json) : Option String :=
  content.bind fun content => content.text "reason"

namespace Reaction

/-- One more reaction, with those that have the same key. -/
def add (user key sender eventId : String) : List Reaction → List Reaction
  | [] =>
      [{ key := key, by_ := [sender], mine := if sender = user then some eventId else none }]
  | reaction :: reactions =>
      if reaction.key = key then
        { reaction with
          by_ := if sender ∈ reaction.by_ then reaction.by_ else reaction.by_ ++ [sender]
          mine := reaction.mine.or (if sender = user then some eventId else none) } :: reactions
      else
        reaction :: add user key sender eventId reactions

/-- A row whose content gives no key is not counted. -/
def addRow (user : String) (reactions : List Reaction) (row : EventRow) : List Reaction :=
  match (row.contentJson.bind (Json.get "m.relates_to")).bind fun relates => relates.text "key" with
  | none => reactions
  | some key => add user key row.sender row.eventId reactions

end Reaction

namespace Cache

variable (packages : ContentPackages) (cache : Cache) (user : String)

/-- Nothing if the account has not synced the event, else whether it hides it. -/
def readerHidden (row : EventRow) : Option Bool :=
  (cache.syncedLog.find? fun log =>
    log.room = row.room ∧ log.eventId = row.eventId ∧ log.user = user).map SyncedRow.hidden

/-- The account has synced the event. -/
def hasSynced (row : EventRow) : Bool :=
  (cache.readerHidden user row).isSome

/-- The first stored redaction of an event. -/
def findRedaction (room eventId : String) : Option EventRow :=
  cache.events.find? fun row =>
    row.room = room ∧ row.refEventId = some eventId ∧ row.eventClass = .redact

/-- The reason in the redaction, or in what the server put into the event. -/
def findRedactionReason (room eventId : String) (rawEvent : Option Json) : Option String :=
  (reasonIn ((cache.findRedaction room eventId).bind EventRow.contentJson)).or
    (reasonIn (((rawEvent.bind (Json.get "unsigned")).bind (Json.get "redacted_because")).bind
      (Json.get "content")))

/-- The edit that the message names, if it names this message back and comes from the
same sender. -/
def findPointedEdit (row : EventRow) : Option EventRow :=
  match row.refEventId with
  | none => none
  | some editEventId =>
      cache.events.find? fun edit =>
        edit.room = row.room ∧ edit.eventId = editEventId ∧ edit.eventClass = .edit ∧
          edit.refEventId = some row.eventId ∧ edit.sender = row.sender

def findCurrentEdit (row : EventRow) : CurrentEdit :=
  match cache.findPointedEdit row with
  | none => .notEdited
  | some edit =>
      match cache.readerHidden user edit with
      | none => .notSynced
      | some true => .hidden
      | some false =>
          if edit.isRedacted then
            .redacted (cache.findRedactionReason row.room edit.eventId edit.rawEvent)
          else
            match edit.contentJson with
            | some newContent => .visible newContent row.sender
            | none => .notEdited

def listReactions (row : EventRow) : List Reaction :=
  (cache.events.filter fun reaction =>
    reaction.room = row.room ∧ reaction.refEventId = some row.eventId ∧
      reaction.eventClass = .reaction ∧ reaction.isRedacted = false ∧
      cache.readerHidden user reaction = some false).foldl (Reaction.addRow user) []

/-- The message before anything is known of its content. -/
def blankMessage (row : EventRow) : Message :=
  { id := row.eventId
    conversation := row.room
    sender := row.sender
    sentAt := row.originServerTs.toNat
    kind := .undecryptable
    replyTo := none
    editedBy := none
    reactions := []
    decrypted := row.decrypted
    undecryptableReason := none
    rSeq := row.rSeq
    gSeq := row.gSeq }

/-- The message with its content, which is its own or that of an edit. -/
def showContent (row : EventRow) (eventType : String) (content : Json)
    (editedBy : Option String) : Message :=
  { blankMessage row with
    kind := kindFromContent packages eventType content
      (row.rawEvent.getD (.object [("sender", .string row.sender)]))
    replyTo := ((content.get "m.relates_to").bind (Json.get "m.in_reply_to")).bind fun reply =>
      reply.text "event_id"
    editedBy := editedBy
    reactions := cache.listReactions user row }

/-- A row as the account sees it. Nothing is shown if the account hides the edit, or if
the row has no content. -/
def toMessage (row : EventRow) : Option Message :=
  if row.isRedacted then
    some { blankMessage row with
      kind := .deleted (cache.findRedactionReason row.room row.eventId row.rawEvent) }
  else if row.eventClass ≠ .msg then
    some { blankMessage row with
      decrypted := some false
      undecryptableReason := some notDecryptedHere }
  else
    match row.eventType, row.contentJson with
    | some eventType, some ownContent =>
        match cache.findCurrentEdit user row with
        | .notEdited => some (cache.showContent packages user row eventType ownContent none)
        | .visible newContent editor =>
            some (cache.showContent packages user row eventType
              (toReplacedBody ownContent newContent) (some editor))
        | .notSynced => some { blankMessage row with kind := .outdated }
        | .hidden => none
        | .redacted reason => some { blankMessage row with kind := .deleted reason }
    | _, _ => none

end Cache

end WbfMatrixClient
