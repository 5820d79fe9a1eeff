import WbfMatrixClient.Lib.Newest
import WbfMatrixClient.Lib.Table
import WbfMatrixClient.RoomState
import WbfMatrixClient.Upload
import Mathlib.Data.Prod.Lex

/-!
# The event cache

The tables of the cache that all accounts of one server share, and what writes
to them. An event is stored once for all accounts; which account has synced it,
and whether it hides it, is kept apart. A message row refers to the edit that
is shown for it, the rows of edits, redactions and reactions refer to their
targets, and a media row is linked to the events that bring the file.

Rows are named by what identifies them outside the cache and not by their
numbers, and a table is kept in the order of insertion, which is the order of
the numbers. A call that meets a constraint of the tables fails and leaves them
as they were. Times of the local clock are left out.
-/

namespace WbfMatrixClient

structure EventRow where
  room : String
  eventId : String
  sender : String
  rSeq : Option Int
  gSeq : Option Int
  originServerTs : Int
  decrypted : Option Bool
  rawEvent : Option Json
  eventType : Option String
  contentJson : Option Json
  isProcessed : Bool
  isRedacted : Bool
  eventClass : EventClass
  refEventId : Option String
  modifiedTimestamp : Int
  isState : Bool

namespace EventRow

def key (row : EventRow) : String × String := (row.room, row.eventId)

end EventRow

structure SyncedRow where
  room : String
  eventId : String
  user : String
  hidden : Bool
deriving DecidableEq

namespace SyncedRow

def key (row : SyncedRow) : String × String × String := (row.room, row.eventId, row.user)

end SyncedRow

structure RoomRow where
  roomId : String
  encrypted : Option Bool
deriving DecidableEq

/-- An invitation as it is kept. -/
structure StoredInvite where
  inviter : Option String
  isDirect : Bool
  reason : Option String
  state : Option (List Json)

structure RoomListRow where
  room : String
  user : String
  conversation : Option Conversation
  isStateCarriedOver : Bool
  membership : Membership
  invite : Option StoredInvite

namespace RoomListRow

def key (row : RoomListRow) : String × String := (row.room, row.user)

end RoomListRow

structure MediaRow where
  mxc : String
  poolFile : Option String
  name : Option String
  mimetype : Option String
  hash : Option String
  kind : MediaKind
  verified : Verification
  fileSize : Option Nat
  chunkSize : Option Nat
  segmentsWritten : Nat
  complete : Bool
  bytesOnDisk : Nat
  sourceUri : Option String

structure EventMediaRow where
  room : String
  eventId : String
  mxc : String
deriving DecidableEq

structure Cache where
  users : List String
  rooms : List RoomRow
  roomList : List RoomListRow
  events : List EventRow
  syncedLog : List SyncedRow
  media : List MediaRow
  eventMedia : List EventMediaRow

def Cache.empty : Cache :=
  { users := [], rooms := [], roomList := [], events := [], syncedLog := [], media := [],
    eventMedia := [] }

/-- A state event has a state key. Encrypted events have none, so an event
whose original form is not there is no state event. -/
def isStateEvent (rawEvent : Option Json) : Bool :=
  rawEvent.any fun raw => (raw.get "state_key").isSome

namespace EventRow

def replacementSide (row : EventRow) : ReplacementSide :=
  { sender := row.sender, eventClass := row.eventClass, eventType := row.eventType,
    isState := isStateEvent row.rawEvent, wasEncrypted := row.decrypted.isSome }

/-- An edit row may replace a message row. -/
def replaces (edit target : EventRow) : Bool :=
  match checkReplacement target.replacementSide edit.replacementSide with
  | .ok () => true
  | .error _ => false

/-- Later by the server's time, then by the event id. -/
def isLater (a b : EventRow) : Bool :=
  b.originServerTs < a.originServerTs ∨
    (a.originServerTs = b.originServerTs ∧ b.eventId ≤ a.eventId)

end EventRow

def findEvent (events : List EventRow) (room eventId : String) : Option EventRow :=
  Table.find EventRow.key events (room, eventId)

def updateEvent (events : List EventRow) (room eventId : String) (f : EventRow → EventRow) :
    List EventRow :=
  Table.update EventRow.key events (room, eventId) f

/-- The relations of one class that wait for their target. -/
def listWaitingRelations (events : List EventRow) (room target : String)
    (eventClass : EventClass) : List String :=
  (events.filter fun row =>
    row.room = room ∧ row.refEventId = some target ∧ row.eventClass = eventClass
      ∧ row.isProcessed = false).map EventRow.eventId

def setProcessed (events : List EventRow) (room eventId : String) : List EventRow :=
  updateEvent events room eventId fun row => { row with isProcessed := true }

def setCurrentEdit (events : List EventRow) (room target : String) (edit : Option String)
    (modifiedTimestamp : Int) : List EventRow :=
  updateEvent events room target fun row =>
    if row.eventClass = .msg then
      { row with refEventId := edit, modifiedTimestamp := modifiedTimestamp }
    else
      row

/-- An edit is newer than what the target shows now; no edit is older than
every edit of the same time. -/
def isNewer (edit target : EventRow) : Bool :=
  match target.refEventId with
  | none => target.modifiedTimestamp ≤ edit.originServerTs
  | some current =>
      target.modifiedTimestamp < edit.originServerTs ∨
        (target.modifiedTimestamp = edit.originServerTs ∧ current < edit.eventId)

def applyEdit (room : String) (events : List EventRow) (editId : String) : List EventRow :=
  match findEvent events room editId with
  | none => events
  | some edit =>
      if edit.eventClass ≠ .edit ∨ edit.isProcessed then
        events
      else
        match edit.refEventId with
        | none => setProcessed events room editId
        | some targetId =>
            match findEvent events room targetId with
            | none => events
            | some target =>
                if target.eventClass = .general then
                  events
                else if target.isRedacted ∨ edit.isRedacted ∨ edit.replaces target = false then
                  setProcessed events room editId
                else if isNewer edit target then
                  setProcessed
                    (setCurrentEdit events room targetId (some editId) edit.originServerTs)
                    room editId
                else
                  setProcessed events room editId

def setRedacted (events : List EventRow) (room eventId : String) (modifiedTimestamp : Int) :
    List EventRow :=
  updateEvent events room eventId fun row =>
    { row with isRedacted := true, modifiedTimestamp := modifiedTimestamp }

/-- The edits of a message that are not redacted, the latest first. -/
def listCandidates (events : List EventRow) (room edited : String) : List EventRow :=
  (events.filter fun row =>
    row.room = room ∧ row.refEventId = some edited ∧ row.eventClass = .edit
      ∧ row.isRedacted = false).insertionSort fun a b => a.isLater b

/-- The message falls back to the latest of its remaining edits. -/
def reselect (room : String) (events : List EventRow) (edited : EventRow) : List EventRow :=
  match (listCandidates events room edited.eventId).find? fun edit => edit.replaces edited with
  | some previous =>
      setCurrentEdit events room edited.eventId (some previous.eventId) previous.originServerTs
  | none => setCurrentEdit events room edited.eventId none 0

def applyRedaction (room : String) (events : List EventRow) (redactionId : String) :
    List EventRow :=
  match findEvent events room redactionId with
  | none => events
  | some redaction =>
      if redaction.eventClass ≠ .redact ∨ redaction.isProcessed then
        events
      else
        match redaction.refEventId with
        | none => setProcessed events room redactionId
        | some targetId =>
            match findEvent events room targetId with
            | none => events
            | some target =>
                let events := setProcessed
                  (setRedacted events room targetId redaction.originServerTs) room redactionId
                if target.eventClass ≠ .edit then
                  events
                else
                  match target.refEventId with
                  | none => events
                  | some editedId =>
                      match findEvent events room editedId with
                      | none => events
                      | some edited =>
                          if edited.eventClass = .msg ∧ edited.refEventId = some targetId then
                            reselect room events edited
                          else
                            events

/-- What has waited for an event is applied, the redactions first, and then the
event itself. -/
def applyRelations (room : String) (events : List EventRow) (row : EventRow) : List EventRow :=
  let events :=
    (listWaitingRelations events room row.eventId .redact).foldl (applyRedaction room) events
  let events :=
    (listWaitingRelations events room row.eventId .edit).foldl (applyEdit room) events
  match row.eventClass with
  | .redact => applyRedaction room events row.eventId
  | .edit => applyEdit room events row.eventId
  | _ => events

/-- The row of an address, made if there is none. A hash that was not known is
filled in. A row that the table does not take is an error. -/
def mediaRowId (media : List MediaRow) (mxc : String) (description : MediaDescription) :
    Option (List MediaRow) :=
  match Table.find MediaRow.mxc media mxc with
  | some _ =>
      some (Table.update MediaRow.mxc media mxc fun row =>
        { row with hash := row.hash.or description.hash })
  | none =>
      if description.isValid then
        some (media ++ [{
          mxc := mxc
          poolFile := none
          name := description.name
          mimetype := description.mimetype
          hash := description.hash
          kind := description.kind
          verified := .unknown
          fileSize := description.fileSize
          chunkSize := description.chunkSize
          segmentsWritten := 0
          complete := false
          bytesOnDisk := 0
          sourceUri := none }])
      else
        none

namespace Cache

/-- A row that is there already stays. -/
def insertEventMedia (rows : List EventMediaRow) (row : EventMediaRow) : List EventMediaRow :=
  if row ∈ rows then rows else rows ++ [row]

def linkMediaOf (packages : ContentPackages) (cache : Cache) (row : EventRow) : Option Cache :=
  match mediaOf packages row.eventType row.contentJson with
  | none => some cache
  | some (mxc, description) =>
      match mediaRowId cache.media mxc description with
      | none => none
      | some media =>
          some { cache with
            media := media
            eventMedia := insertEventMedia cache.eventMedia
              { room := row.room, eventId := row.eventId, mxc := mxc } }

def processEvent (packages : ContentPackages) (room eventId : String) (cache : Cache) :
    Option Cache :=
  match findEvent cache.events room eventId with
  | none => some cache
  | some row =>
      let linked :=
        if row.eventClass = .msg ∨ row.eventClass = .edit then linkMediaOf packages cache row
        else some cache
      linked.map fun cache => { cache with events := applyRelations room cache.events row }

/-- Another event of the room has the number. -/
def seqTaken (events : List EventRow) (room eventId : String) (rSeq : Option Int) : Bool :=
  events.any fun row =>
    row.room = room ∧ row.eventId ≠ eventId ∧ row.rSeq.isSome ∧ row.rSeq = rSeq

/-- The row of an event that is stored for the first time. -/
def newRow (room eventId sender : String) (incoming : IncomingEvent) : EventRow :=
  let classified := classify incoming
  { room := room
    eventId := eventId
    sender := sender
    rSeq := incoming.seqs.1
    gSeq := incoming.seqs.2
    originServerTs := incoming.originServerTs
    decrypted := incoming.decryptedFlag
    rawEvent := incoming.rawEvent
    eventType := classified.eventType
    contentJson := classified.contentJson
    isProcessed := classified.eventClass = .msg ∨ classified.eventClass = .reaction
    isRedacted := incoming.isRedactedByServer
    eventClass := classified.eventClass
    refEventId := classified.refEventId
    modifiedTimestamp := 0
    isState := classified.isState }

/-- What another delivery fills in. -/
def fillRow (incoming : IncomingEvent) (row : EventRow) : EventRow :=
  { row with
    rawEvent := row.rawEvent.or incoming.rawEvent
    rSeq := row.rSeq.or incoming.seqs.1
    gSeq := row.gSeq.or incoming.seqs.2
    isRedacted := row.isRedacted || incoming.isRedactedByServer }

/-- What is learned when a ciphertext can be read. -/
def classifyRow (incoming : IncomingEvent) (row : EventRow) : EventRow :=
  let classified := classify incoming
  { row with
    decrypted := incoming.decryptedFlag
    eventType := classified.eventType
    contentJson := classified.contentJson
    eventClass := classified.eventClass
    refEventId := classified.refEventId
    isProcessed := classified.eventClass = .msg ∨ classified.eventClass = .reaction
    isState := classified.isState }

/-- The event is there afterwards, and processed if something new is known of
it. -/
def storeEvent (packages : ContentPackages) (room eventId sender : String)
    (incoming : IncomingEvent) (cache : Cache) : Option Cache :=
  match findEvent cache.events room eventId with
  | none =>
      if seqTaken cache.events room eventId incoming.seqs.1 then
        none
      else
        processEvent packages room eventId
          { cache with events := cache.events ++ [newRow room eventId sender incoming] }
  | some stored =>
      if stored.rSeq = none ∧ seqTaken cache.events room eventId incoming.seqs.1 then
        none
      else
        let events := updateEvent cache.events room eventId (fillRow incoming)
        if (classify incoming).eventClass ≠ .general ∧ stored.eventClass = .general then
          processEvent packages room eventId
            { cache with events := updateEvent events room eventId (classifyRow incoming) }
        else
          some { cache with events := events }

def userRowId (cache : Cache) (mxid : String) : Cache :=
  if mxid ∈ cache.users then cache else { cache with users := cache.users ++ [mxid] }

def roomRowId (cache : Cache) (roomId : String) : Cache :=
  if cache.rooms.any fun row => row.roomId = roomId then cache
  else { cache with rooms := cache.rooms ++ [{ roomId := roomId, encrypted := none }] }

/-- A delivery that shows that the room is encrypted. -/
def showsEncryption (incoming : IncomingEvent) : Bool :=
  incoming.decryptedFlag.isSome ∨
    (incoming.envelope.text "type" = some "m.room.encryption" ∧
      (nonemptyText (incoming.envelope.get "content") "algorithm").isSome)

def markEncrypted (cache : Cache) (room : String) (incoming : IncomingEvent) : Cache :=
  if showsEncryption incoming then
    { cache with rooms := Table.update RoomRow.roomId cache.rooms room fun row =>
        { row with encrypted := some true } }
  else
    cache

/-- The account has synced the event. A row that is there keeps its mark. -/
def logSynced (cache : Cache) (user room eventId : String) : Cache :=
  if cache.syncedLog.any fun row => row.room = room ∧ row.eventId = eventId ∧ row.user = user then
    cache
  else
    { cache with syncedLog := cache.syncedLog ++
        [{ room := room, eventId := eventId, user := user, hidden := false }] }

/-- The event that a delivery stores in a room, and its sender. -/
def storable (room : String) (incoming : IncomingEvent) : Option (String × String) :=
  match incoming.storableIdentity with
  | none => none
  | some identity =>
      if (incoming.envelope.text "room_id").any fun ownRoom => ownRoom ≠ room then none
      else some identity

/-- One event of a batch, and whether it was written. -/
def upsertEvent (packages : ContentPackages) (user room : String) (cache : Cache)
    (incoming : IncomingEvent) : Option (Cache × Bool) :=
  match storable room incoming with
  | none => some (cache, false)
  | some (eventId, sender) =>
      (storeEvent packages room eventId sender incoming (cache.userRowId sender)).map
        fun cache => ((cache.markEncrypted room incoming).logSynced user room eventId, true)

/-- The events of a batch one after the other, with the numbers of those that
were written and of those that cannot be stored. -/
def upsertAll (packages : ContentPackages) (user room : String) :
    (events : List IncomingEvent) → Cache → Option (Cache × Nat × Nat)
  | [], cache => some (cache, 0, 0)
  | incoming :: events, cache =>
      match upsertEvent packages user room cache incoming with
      | none => none
      | some (cache, written) =>
          (upsertAll packages user room events cache).map fun (cache, writtenCount, unstorable) =>
            if written then (cache, writtenCount + 1, unstorable)
            else (cache, writtenCount, unstorable + 1)

/-- A batch, in one transaction. -/
def upsertEventsCounted (packages : ContentPackages) (user room : String)
    (events : List IncomingEvent) (cache : Cache) : Option (Cache × Nat × Nat) :=
  upsertAll packages user room events ((cache.userRowId user).roomRowId room)

/-- A batch that fails changes nothing. -/
def upsertEvents (packages : ContentPackages) (user room : String) (cache : Cache)
    (events : List IncomingEvent) : Cache :=
  match upsertEventsCounted packages user room events cache with
  | none => cache
  | some (cache, _) => cache

def hideMessage (cache : Cache) (user room eventId : String) : Cache :=
  { cache with syncedLog := cache.syncedLog.map fun row =>
      if row.user = user ∧ row.room = room ∧ row.eventId = eventId then
        { row with hidden := true }
      else
        row }

def mediaBegin (cache : Cache) (mxc : String) (description : MediaDescription) : Option Cache :=
  (mediaRowId cache.media mxc description).map fun media => { cache with media := media }

def mediaRememberSource (cache : Cache) (manifest : Manifest) (sourceUri : String) :
    Option Cache :=
  match MediaDescription.ofChunkedBlock manifest.block with
  | none => none
  | some description =>
      (mediaRowId cache.media manifest.mxc description).map fun media =>
        { cache with media := Table.update MediaRow.mxc media manifest.mxc fun row =>
            { row with sourceUri := some sourceUri } }

def updateMedia (cache : Cache) (mxc : String) (f : MediaRow → MediaRow) : Cache :=
  { cache with media := Table.update MediaRow.mxc cache.media mxc f }

def mediaProgress (cache : Cache) (mxc : String) (segmentsWritten chunkSize : Nat) : Cache :=
  cache.updateMedia mxc fun row =>
    { row with segmentsWritten := segmentsWritten, chunkSize := some chunkSize,
               complete := false, verified := .unknown }

def mediaFinish (cache : Cache) (mxc poolFile : String)
    (segmentsWritten fileSize bytesOnDisk : Nat) (verified : Verification) : Cache :=
  cache.updateMedia mxc fun row =>
    { row with poolFile := some poolFile, complete := true, segmentsWritten := segmentsWritten,
               fileSize := some fileSize, bytesOnDisk := bytesOnDisk, verified := verified,
               hash := row.hash.or (some ("blake3:" ++ poolFile)) }

def mediaReset (cache : Cache) (mxc : String) : Cache :=
  cache.updateMedia mxc fun row =>
    { row with poolFile := none, complete := false, verified := .unknown, segmentsWritten := 0,
               bytesOnDisk := 0 }

/-- The account must see the event. -/
def mediaLinkEvent (packages : ContentPackages) (cache : Cache) (user room eventId : String) :
    Option (Cache × Bool) :=
  match findEvent cache.events room eventId with
  | none => some (cache, false)
  | some row =>
      if cache.syncedLog.any fun log =>
          log.room = room ∧ log.eventId = eventId ∧ log.user = user then
        (linkMediaOf packages cache row).map fun cache => (cache, true)
      else
        some (cache, false)

def mediaDelete (cache : Cache) (mxc : String) : Cache :=
  { cache with
    media := cache.media.filter fun row => row.mxc ≠ mxc
    eventMedia := cache.eventMedia.filter fun row => row.mxc ≠ mxc }

structure ForgetReport where
  eventsRemoved : Nat
  mediaRemoved : Nat
  orphanPoolFiles : List String

/-- Events go with the rows that hang on them. -/
def deleteEvents (cache : Cache) (gone : EventRow → Bool) : Cache :=
  let kept := cache.events.filter fun row => gone row = false
  let stays (room eventId : String) : Bool := (findEvent kept room eventId).isSome
  { cache with
    events := kept
    syncedLog := cache.syncedLog.filter fun row => stays row.room row.eventId
    eventMedia := cache.eventMedia.filter fun row => stays row.room row.eventId }

def hasLink (cache : Cache) (mxc : String) : Bool :=
  cache.eventMedia.any fun row => row.mxc = mxc

/-- Somebody has synced the event. -/
def isSynced (cache : Cache) (row : EventRow) : Bool :=
  cache.syncedLog.any fun log => log.room = row.room ∧ log.eventId = row.eventId

/-- The rows of an account, the events that nobody has synced any more, the
media that no event brings, and the rooms without events and rows. -/
def forgetAccount (cache : Cache) (user : String) : Cache × ForgetReport :=
  if user ∈ cache.users then
    let unlogged := { cache with
      syncedLog := cache.syncedLog.filter fun row => row.user ≠ user
      roomList := cache.roomList.filter fun row => row.user ≠ user }
    let unsynced := unlogged.deleteEvents fun row => unlogged.isSynced row = false
    let orphans := unsynced.media.filter fun row => unsynced.hasLink row.mxc = false
    let media := unsynced.media.filter fun row => unsynced.hasLink row.mxc
    let files := (orphans.filterMap MediaRow.poolFile).filter fun file =>
      media.all fun row => row.poolFile ≠ some file
    ({ unsynced with
        media := media
        rooms := unsynced.rooms.filter fun room =>
          (unsynced.events.any fun row => row.room = room.roomId) ||
            unsynced.roomList.any fun row => row.room = room.roomId },
      { eventsRemoved := unlogged.events.length - unsynced.events.length
        mediaRemoved := orphans.length
        orphanPoolFiles := (files.insertionSort (· ≤ ·)).dedup })
  else
    (cache, { eventsRemoved := 0, mediaRemoved := 0, orphanPoolFiles := [] })

/-- What an account has of a room, and the whole room once nobody else is
there. -/
def forgetRoom (cache : Cache) (user room : String) : Cache × Bool :=
  if cache.rooms.any fun row => row.roomId = room then
    let left :=
      if user ∈ cache.users then
        { cache with
          roomList := cache.roomList.filter fun row => row.key ≠ (room, user)
          syncedLog := cache.syncedLog.filter fun row => ¬(row.user = user ∧ row.room = room) }
      else
        cache
    if (left.roomList.any fun row => row.room = room) ||
        left.syncedLog.any fun row => row.room = room then
      (left, false)
    else
      let linked := (left.eventMedia.filter fun row => row.room = room).map EventMediaRow.mxc
      let cleared := left.deleteEvents fun row => row.room = room
      ({ cleared with
          rooms := cleared.rooms.filter fun row => row.roomId ≠ room
          roomList := cleared.roomList.filter fun row => row.room ≠ room
          media := cleared.media.filter fun row =>
            cleared.hasLink row.mxc || decide (row.mxc ∉ linked) },
        true)
  else
    (cache, false)

end Cache

end WbfMatrixClient
