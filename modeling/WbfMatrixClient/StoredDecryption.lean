import WbfMatrixClient.RecentMarks

/-!
# Decrypting what is stored

Ciphertexts come with the pushes of the rooms line and with recent rounds, the keys for
them with the keys line, in any order. A push tries to decrypt before it stores, and
what it could not decrypt it tries again once it is stored. A recent round stores first
and decrypts when it has everything. The keys line commits its keys and then looks for
what is stored and waits for one of them.

Every line is a task here that stands between two of its steps. The account has an
engine; what the engine can open with the keys it has is the engine's.
-/

namespace WbfMatrixClient

structure RoomKey where
  roomId : String
  sessionId : String
deriving DecidableEq

/-- What the engine makes of a ciphertext of a room with the keys it has. -/
abbrev Decrypt : Type := List RoomKey → String → Json → Except String Json

def toIncoming (decrypt : Decrypt) (keys : List RoomKey) (room : String) (event : Json) :
    IncomingEvent :=
  if event.text "type" ≠ some "m.room.encrypted" then
    .plain event
  else
    match decrypt keys room event with
    | .ok cleartext => .decrypted (some event) cleartext
    | .error reason => .undecrypted event reason

inductive StoredToDecrypt where
  | session (sessionId : String)
  | eventIds (eventIds : List String)

def sessionIdOf (rawEvent : Json) : Option String :=
  (rawEvent.get "content").bind fun content => content.text "session_id"

namespace Cache

/-- The account has synced the event, and it could not be opened yet. -/
def isUndecrypted (cache : Cache) (user : String) (row : EventRow) : Bool :=
  row.decrypted = some false ∧ row.rawEvent.isSome ∧ cache.hasSynced user row

/-- The stored ciphertexts that wait, the oldest first or in the order asked for. -/
def listUndecryptedCiphertexts (cache : Cache) (user room : String) : StoredToDecrypt → List Json
  | .session sessionId =>
      ((cache.events.filter fun row =>
        row.room = room ∧ cache.isUndecrypted user row ∧
          row.rawEvent.bind sessionIdOf = some sessionId).mergeSort fun a b =>
            a.originServerTs ≤ b.originServerTs).filterMap EventRow.rawEvent
  | .eventIds eventIds =>
      eventIds.filterMap fun eventId =>
        ((findEvent cache.events room eventId).filter fun row =>
          cache.isUndecrypted user row).bind EventRow.rawEvent

end Cache

/-- What a notice of a message says about the event. -/
structure Notice where
  roomId : String
  eventId : String
  decrypted : Option Bool
deriving DecidableEq

/-- The event that a relation is about. -/
def relationTarget (raw : Json) : Option String :=
  match raw.text "type", raw.get "content" with
  | some eventType, some content =>
      let relates := content.get "m.relates_to"
      let relatesText (key : String) : Option String :=
        relates.bind fun relates => relates.text key
      match eventType with
      | "m.reaction" =>
          if relatesText "rel_type" = some "m.annotation" ∧ (relatesText "key").isSome then
            relatesText "event_id"
          else
            none
      | "m.room.redaction" =>
          ((content.get "redacts").or (raw.get "redacts")).bind Json.asStr
      | _ =>
          if relatesText "rel_type" = some "m.replace" ∧ (content.get "m.new_content").isSome then
            relatesText "event_id"
          else
            none
  | _, _ => none

def noticeId (incoming : IncomingEvent) : String :=
  incoming.findEventId.getD "unknown"

/-- A relation is folded into its target when the target is on the same page. -/
def isFolded (page : List IncomingEvent) (incoming : IncomingEvent) : Bool :=
  ((incoming.cleartext.bind relationTarget).any fun target => target ∈ page.map noticeId)

def messagesFromIncoming (conversation : String) (page : List IncomingEvent) : List Notice :=
  (page.filter fun incoming => !isFolded page incoming).map fun incoming =>
    { roomId := conversation, eventId := noticeId incoming, decrypted := incoming.decryptedFlag }

namespace StoredDecryption

open RecentMarks

/-- What is still to be decrypted of what is stored, room by room. -/
abbrev Jobs : Type := List (String × StoredToDecrypt)

/-- Where a task stands. -/
inductive Task where
  /-- A push, with the events that were not tried yet. -/
  | trying (todo : List Json) (tried : ByRoom IncomingEvent)
  | storing (tried : ByRoom IncomingEvent)
  /-- A recent round, with the ciphertexts it has stored. -/
  | fetching (encrypted : ByRoom String)
  | decrypting (announce : Bool) (jobs : Jobs)
  | opening (announce : Bool) (room : String) (todo : List Json) (opened : List IncomingEvent)
      (jobs : Jobs)
  | storingOpened (announce : Bool) (room : String) (opened : List IncomingEvent) (jobs : Jobs)
  | emitting (announce : Bool) (notices : List Notice) (jobs : Jobs)
  | done

structure State where
  keys : List RoomKey
  cache : Cache
  tasks : Nat → Option Task
  notices : List Notice
  delivered : List Json

def State.start : State :=
  { keys := [], cache := .empty, tasks := fun _ => none, notices := [], delivered := [] }

inductive Action where
  | push (id : Nat) (events : List Json)
  | recent (id : Nat)
  | batch (id : Nat) (raws : List Json)
  | recentEnds (id : Nat)
  /-- The line fails, and the round with it. -/
  | recentFails (id : Nat)
  | roomKeys (id : Nat) (keys : List RoomKey)
  | next (id : Nat)

def isUndecryptedForm : IncomingEvent → Bool
  | .undecrypted _ _ => true
  | _ => false

def isDecryptedForm : IncomingEvent → Bool
  | .decrypted _ _ => true
  | _ => false

/-- What a push has to try again, by room. -/
def undecryptedOf (tried : ByRoom IncomingEvent) : Jobs :=
  (tried.map fun group =>
    (group.1, (group.2.filter isUndecryptedForm).filterMap fun incoming =>
      incoming.storableIdentity.map Prod.fst)).filterMap fun group =>
        if group.2.isEmpty then none else some (group.1, .eventIds group.2)

/-- An event without a room, an id or a sender is dropped. -/
def addTried (tried : ByRoom IncomingEvent) (room : Option String) (incoming : IncomingEvent) :
    ByRoom IncomingEvent :=
  match room with
  | some room => if incoming.storableIdentity.isSome then addToRoom room incoming tried else tried
  | none => tried

/-- The ciphertexts of a batch, by room. -/
def addEncrypted (encrypted : ByRoom String) (raw : Json) : ByRoom String :=
  match raw.text "room_id" with
  | none => encrypted
  | some room =>
      if raw.text "type" = some "m.room.encrypted" then
        match raw.text "event_id" with
        | some eventId => addToRoom room eventId encrypted
        | none => encrypted
      else
        encrypted

namespace State

variable (packages : ContentPackages) (me : String) (decrypt : Decrypt)

def setTask (s : State) (id : Nat) (task : Task) : State :=
  { s with tasks := Function.update s.tasks id (some task) }

/-- The next event of a push is tried. -/
def tryNext (s : State) (id : Nat) (raw : Json) (todo : List Json)
    (tried : ByRoom IncomingEvent) : State :=
  let room := raw.text "room_id"
  let incoming :=
    match room with
    | some room => toIncoming decrypt s.keys room raw
    | none => .fromWsJson raw
  s.setTask id (.trying todo (addTried tried room incoming))

/-- Notices go out when everything is stored. -/
def storeTried (s : State) (id : Nat) (tried : ByRoom IncomingEvent) : State :=
  let stored := storeRooms packages me tried s.cache
  let notices := tried.flatMap fun group => messagesFromIncoming group.1 group.2
  { s with cache := stored.cache }.setTask id
    (if stored.ok then .emitting true notices (undecryptedOf tried) else .done)

/-- What is stored and waits is read once, before anything is opened. -/
def listStored (s : State) (id : Nat) (announce : Bool) (room : String)
    (which : StoredToDecrypt) (jobs : Jobs) : State :=
  s.setTask id
    (.opening announce room (s.cache.listUndecryptedCiphertexts me room which) [] jobs)

def openNext (s : State) (id : Nat) (announce : Bool) (room : String) (raw : Json)
    (todo : List Json) (opened : List IncomingEvent) (jobs : Jobs) : State :=
  let incoming := toIncoming decrypt s.keys room raw
  s.setTask id (.opening announce room todo
    (if isDecryptedForm incoming then opened ++ [incoming] else opened) jobs)

/-- When this fails the next job is taken up. -/
def storeOpened (s : State) (id : Nat) (announce : Bool) (room : String)
    (opened : List IncomingEvent) (jobs : Jobs) : State :=
  match s.cache.upsertEventsCounted packages me room opened with
  | none => s.setTask id (.decrypting announce jobs)
  | some (cache, _, _) =>
      { s with cache := cache }.setTask id
        (.emitting announce (if announce then messagesFromIncoming room opened else []) jobs)

def advance (s : State) (id : Nat) : Task → State
  | .trying [] tried => s.setTask id (.storing tried)
  | .trying (raw :: todo) tried => s.tryNext decrypt id raw todo tried
  | .storing tried => s.storeTried packages me id tried
  | .decrypting _ [] => s.setTask id .done
  | .decrypting announce ((room, which) :: jobs) => s.listStored me id announce room which jobs
  | .opening announce room (raw :: todo) opened jobs =>
      s.openNext decrypt id announce room raw todo opened jobs
  | .opening announce _ [] [] jobs => s.setTask id (.decrypting announce jobs)
  | .opening announce room [] opened jobs =>
      s.setTask id (.storingOpened announce room opened jobs)
  | .storingOpened announce room opened jobs =>
      s.storeOpened packages me id announce room opened jobs
  | .emitting announce [] jobs => s.setTask id (.decrypting announce jobs)
  | .emitting announce (notice :: notices) jobs =>
      { s with notices := s.notices ++ [notice] }.setTask id (.emitting announce notices jobs)
  | .fetching _ => s
  | .done => s

/-- A batch of a recent round is stored as it is, and its ciphertexts are noted. -/
def storeFetched (s : State) (id : Nat) (encrypted : ByRoom String) (raws : List Json) : State :=
  let stored := storeBatch packages me s.cache raws
  { s with cache := stored.cache, delivered := s.delivered ++ raws }.setTask id
    (if stored.ok then .fetching (raws.foldl addEncrypted encrypted) else .done)

/-- One step. A step that a task does not stand at changes nothing. -/
def step (s : State) : Action → State
  | .push id events =>
      match s.tasks id with
      | none => { s with delivered := s.delivered ++ events }.setTask id (.trying events [])
      | some _ => s
  | .recent id =>
      match s.tasks id with
      | none => s.setTask id (.fetching [])
      | some _ => s
  | .batch id raws =>
      match s.tasks id with
      | some (.fetching encrypted) => s.storeFetched packages me id encrypted raws
      | _ => s
  | .recentEnds id =>
      match s.tasks id with
      | some (.fetching encrypted) =>
          s.setTask id (.decrypting false
            (encrypted.map fun (group : String × List String) => (group.1, .eventIds group.2)))
      | _ => s
  | .recentFails id =>
      match s.tasks id with
      | some (.fetching _) => s.setTask id .done
      | _ => s
  | .roomKeys id keys =>
      match s.tasks id with
      | none =>
          { s with keys := s.keys ++ keys }.setTask id
            (.decrypting true (keys.map fun (key : RoomKey) => (key.roomId, .session key.sessionId)))
      | some _ => s
  | .next id =>
      match s.tasks id with
      | some task => s.advance packages me decrypt id task
      | none => s

end State

end StoredDecryption
end WbfMatrixClient
