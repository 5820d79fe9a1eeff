import WbfMatrixClient.EventCache

/-!
# The room list

What the cache keeps of the rooms an account is in: what it saw of a room, which
membership it has there, and an invitation. Whether a room is encrypted is kept
with the room itself, and what the account saw is read together with it.

When a row was refreshed is a time of the local clock and is left out, and so are
the lists of changes that are only passed on.
-/

namespace WbfMatrixClient

/-- A pending invitation as it is shown. -/
structure Invite where
  inviter : Option String
  isDirect : Bool
  reason : Option String
  state : Option (List Json)
  isFromThisServer : Bool

structure RoomListEntry where
  id : String
  kind : Option ConversationKind
  name : Option String
  topic : Option String
  encrypted : Option Bool
  memberCount : Option Nat
  myPowerLevel : Option Int
  canSendMessage : Option Bool
  directPeer : Option String
  state : Option (List Json)
  membership : Membership
  invite : Option Invite

/-- The server in a user id. -/
def serverOf (mxid : String) : Option (List Char) :=
  match mxid.toList with
  | '@' :: rest =>
      match rest.dropWhile fun c => c ≠ ':' with
      | _ :: server => if server = [] then none else some server
      | [] => none
  | _ => none

def isFromSameServer (inviter : Option String) (me : String) : Bool :=
  match inviter.bind serverOf, serverOf me with
  | some theirs, some ours => theirs = ours
  | _, _ => false

def Invite.fromItem (invite : InviteItem) (me : String) : Invite :=
  { inviter := invite.inviter, isDirect := invite.isDirect, reason := invite.reason,
    state := invite.state, isFromThisServer := isFromSameServer invite.inviter me }

namespace RoomListEntry

def unknown (roomId : String) (membership : Membership) : RoomListEntry :=
  { id := roomId, kind := none, name := none, topic := none, encrypted := none,
    memberCount := none, myPowerLevel := none, canSendMessage := none, directPeer := none,
    state := none, membership := membership, invite := none }

def fromConversation (conversation : Conversation) (membership : Membership) : RoomListEntry :=
  { id := conversation.id, kind := some conversation.kind, name := conversation.name,
    topic := conversation.topic, encrypted := some conversation.encrypted,
    memberCount := some conversation.memberCount,
    myPowerLevel := some conversation.myPowerLevel,
    canSendMessage := some conversation.canSendMessage, directPeer := conversation.directPeer,
    state := conversation.state, membership := membership, invite := none }

/-- By name, rooms without a name first, then by id. -/
def isBefore (left right : RoomListEntry) : Bool :=
  match left.name, right.name with
  | none, none => left.id ≤ right.id
  | none, some _ => true
  | some _, none => false
  | some a, some b => a < b ∨ (a = b ∧ left.id ≤ right.id)

end RoomListEntry

/-- What an account saw and what is known of the room, together. -/
def knownEncryption (seen room : Option Bool) : Option Bool :=
  match seen, room with
  | some true, _ => some true
  | _, some true => some true
  | some false, _ => some false
  | _, some false => some false
  | none, none => none

namespace Cache

/-- A row is inserted, or the one that is there is changed. -/
def upsertRoomListRow (rows : List RoomListRow) (row : RoomListRow)
    (f : RoomListRow → RoomListRow) : List RoomListRow :=
  match Table.find RoomListRow.key rows row.key with
  | some _ => Table.update RoomListRow.key rows row.key f
  | none => rows ++ [row]

/-- Once a room is encrypted it stays so. -/
def raiseEncrypted (cache : Cache) (roomId : String) (encrypted : Bool) : Cache :=
  { cache with rooms := Table.update RoomRow.roomId cache.rooms roomId fun row =>
      { row with encrypted := if row.encrypted = some true then some true else some encrypted } }

def upsertConversation (user : String) (cache : Cache) (conversation : Conversation) : Cache :=
  let cache := cache.roomRowId conversation.id
  let previous := (Table.find RoomListRow.key cache.roomList (conversation.id, user)).bind
    RoomListRow.conversation
  let state := conversation.state.or (previous.bind Conversation.state)
  let isStateCarriedOver : Bool := conversation.state.isNone ∧ state.isSome
  let conversation := { conversation with state := state }
  let new : RoomListRow :=
    { room := conversation.id, user := user, conversation := some conversation,
      isStateCarriedOver := isStateCarriedOver, membership := .join, invite := none }
  let written := { cache with
    roomList := upsertRoomListRow cache.roomList new fun row =>
      { row with conversation := some conversation, isStateCarriedOver := isStateCarriedOver } }
  written.raiseEncrypted conversation.id conversation.encrypted

def upsertConversations (cache : Cache) (user : String) (conversations : List Conversation) :
    Cache :=
  conversations.foldl (upsertConversation user) (cache.userRowId user)

def recordJoinedRoom (user : String) (cache : Cache) (roomId : String) : Cache :=
  let cache := cache.roomRowId roomId
  let new : RoomListRow :=
    { room := roomId, user := user, conversation := none, isStateCarriedOver := false,
      membership := .join, invite := none }
  { cache with
    roomList := upsertRoomListRow cache.roomList new fun row =>
      { row with membership := .join, invite := none } }

def recordJoinedRooms (cache : Cache) (user : String) (roomIds : List String) : Cache :=
  let joined := roomIds.foldl (recordJoinedRoom user) (cache.userRowId user)
  { joined with roomList := joined.roomList.map fun row =>
      if row.user = user ∧ row.membership = .join ∧ row.room ∉ roomIds then
        { row with membership := .leave }
      else
        row }

def recordRoomEncryption (cache : Cache) (roomId : String) (encrypted : Bool) : Cache :=
  (cache.roomRowId roomId).raiseEncrypted roomId encrypted

/-- The membership of an account, if it is the given one now or in any case. -/
def recordMembership (cache : Cache) (user roomId : String) (membership : Membership)
    (onlyIfNow : Option Membership) : Cache × Bool :=
  let cache := (cache.userRowId user).roomRowId roomId
  let change (row : RoomListRow) : RoomListRow :=
    { row with membership := membership,
               invite := if membership = .invite then row.invite else none }
  match onlyIfNow with
  | none =>
      let new : RoomListRow :=
        { room := roomId, user := user, conversation := none, isStateCarriedOver := false,
          membership := membership, invite := none }
      ({ cache with roomList := upsertRoomListRow cache.roomList new change }, true)
  | some now =>
      ({ cache with
          roomList := Table.update RoomListRow.key cache.roomList (roomId, user) fun row =>
            if row.membership = now then change row else row },
        cache.roomList.any fun row => row.key = (roomId, user) ∧ row.membership = now)

/-- An invitation without a state keeps the state that is there. -/
def writeInvite (user : String) (cache : Cache) (invite : InviteItem) : Cache :=
  let cache := (cache.userRowId user).roomRowId invite.roomId
  let before := (Table.find RoomListRow.key cache.roomList (invite.roomId, user)).bind
    RoomListRow.invite
  let stored : StoredInvite :=
    { inviter := invite.inviter, isDirect := invite.isDirect, reason := invite.reason,
      state := invite.state.or (before.bind StoredInvite.state) }
  let new : RoomListRow :=
    { room := invite.roomId, user := user, conversation := none, isStateCarriedOver := false,
      membership := .invite, invite := some stored }
  { cache with
    roomList := upsertRoomListRow cache.roomList new fun row =>
      { row with membership := .invite, invite := some stored } }

/-- A whole round of invitations: those that were pushed later stay, and those
that are gone become what is known of them. -/
def applyInviteRound (cache : Cache) (user : String) (round : List (Nat × InviteItem))
    (touched : List (String × Nat)) (departed : List (String × Membership)) : Cache :=
  let written := round.foldl (fun cache (count, invite) =>
      if (touched.lookup invite.roomId).any fun pushed => count ≤ pushed then cache
      else writeInvite user cache invite) (cache.userRowId user)
  let inRound := round.map fun item => item.2.roomId
  { written with roomList := written.roomList.map fun row =>
      if row.user = user ∧ row.membership = .invite ∧ row.room ∉ inRound
          ∧ touched.lookup row.room = none then
        { row with
          membership := ((departed.lookup row.room).filter fun membership =>
            membership ≠ .invite).getD .leave
          invite := none }
      else
        row }

/-- The state of a row is computed anew only if it was seen at the same time as
the rest of the row. -/
def recordWrittenState (packages : NumberPackages) (cache : Cache) (user roomId : String)
    (written : Json) : Cache × Bool :=
  let cache := (cache.userRowId user).roomRowId roomId
  let cache := if isEncryptionEvent written then
      { cache with rooms := Table.update RoomRow.roomId cache.rooms roomId fun row =>
          { row with encrypted := some true } }
    else cache
  let previous := (Table.find RoomListRow.key cache.roomList (roomId, user)).bind fun row =>
    if row.isStateCarriedOver then none else row.conversation
  match previous.map fun previous => conversationWithStateEvent packages previous user written with
  | some (.ok (some updated)) =>
      ({ cache with
          roomList := Table.update RoomListRow.key cache.roomList (roomId, user) fun row =>
            { row with conversation := some updated } }, true)
  | _ => (cache, false)

def findRoomEncrypted (cache : Cache) (roomId : String) : Option Bool :=
  (Table.find RoomRow.roomId cache.rooms roomId).bind RoomRow.encrypted

def findConversation (cache : Cache) (user roomId : String) : Option Conversation :=
  match Table.find RoomListRow.key cache.roomList (roomId, user),
    Table.find RoomRow.roomId cache.rooms roomId with
  | some row, some room =>
      row.conversation.map fun conversation =>
        { conversation with encrypted := conversation.encrypted || room.encrypted = some true }
  | _, _ => none

def roomListEntry (user : String) (row : RoomListRow) (room : RoomRow) : RoomListEntry :=
  let entry :=
    match row.conversation with
    | some conversation => RoomListEntry.fromConversation conversation row.membership
    | none => RoomListEntry.unknown row.room row.membership
  { entry with
    encrypted := knownEncryption entry.encrypted room.encrypted
    invite := (row.invite.filter fun _ => row.membership = .invite).map fun stored =>
      Invite.fromItem
        { roomId := row.room, inviter := stored.inviter, isDirect := stored.isDirect,
          reason := stored.reason, state := stored.state } user }

def listRoomEntries (cache : Cache) (user : String) (memberships : List Membership) :
    List RoomListEntry :=
  (cache.roomList.filterMap fun row =>
    if row.user = user ∧ row.membership ∈ memberships then
      (Table.find RoomRow.roomId cache.rooms row.room).map (roomListEntry user row)
    else
      none).insertionSort fun a b => a.isBefore b

end Cache

end WbfMatrixClient
