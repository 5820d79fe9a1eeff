import WbfMatrixClient.MessageContent

/-!
# Rooms and their state

What an account sees of a room is computed from the state events of the room. A
state event that the account has written itself is put in the place of the old
one, and the same rules compute what is seen from then on.

How a number is read from a text comes from elsewhere.
-/

namespace WbfMatrixClient

structure NumberPackages where
  parseU64 : String → Option Nat
  parseI64 : String → Option Int

inductive ConversationKind where
  | direct
  | group
  | channel
deriving DecidableEq

structure Conversation where
  id : String
  kind : ConversationKind
  name : Option String
  topic : Option String
  encrypted : Bool
  memberCount : Nat
  myPowerLevel : Int
  canSendMessage : Bool
  directPeer : Option String
  state : Option (List Json)

inductive Membership where
  | join
  | invite
  | knock
  | leave
  | ban
deriving DecidableEq

/-- An invitation as it comes in. -/
structure InviteItem where
  roomId : String
  inviter : Option String
  isDirect : Bool
  reason : Option String
  state : Option (List Json)

/-- Only a named algorithm makes a room an encrypted one. -/
def isEncryptionContent (content : Json) : Bool :=
  (nonemptyText (some content) "algorithm").isSome

def isEncryptionEvent (event : Json) : Bool :=
  event.text "type" = some "m.room.encryption" ∧ event.text "state_key" = some "" ∧
    isEncryptionContent ((event.get "content").getD .null)

def isMemberEvent (event : Json) : Bool :=
  event.text "type" = some "m.room.member"

/-- Of several events in one place the last one counts. -/
def findState (state : List Json) (eventType stateKey : String) : Option Json :=
  state.reverse.find? fun event =>
    event.text "type" = some eventType ∧ event.text "state_key" = some stateKey

/-- A power level is a number, or a text with a number. -/
def readLevel (packages : NumberPackages) (value : Option Json) : Option Int :=
  value.bind fun value => value.asI64.or (value.asStr.bind packages.parseI64)

def myPowerLevel (packages : NumberPackages) (create : Json) (powerLevels : Option Json)
    (me : String) : Int :=
  let content := create.get "content"
  let creators := (content.bind (Json.get "additional_creators")).bind Json.asArray
  let isCreator : Bool := create.text "sender" = some me ∨
    creators.any fun creators => creators.any fun creator => creator.asStr = some me
  let roomVersion := (packages.parseU64
    ((content.bind fun content => content.text "room_version").getD "1")).getD 0
  if isCreator ∧ 12 ≤ roomVersion then
    0x7FFFFFFFFFFFFFFF
  else
    match powerLevels with
    | some levels =>
        ((readLevel packages ((levels.get "users").bind (Json.get me))).or
          (readLevel packages (levels.get "users_default"))).getD 0
    | none => if isCreator then 100 else 0

/-- The name a room has given itself, or its alias. -/
def explicitName (state : List Json) : Option String :=
  let field (eventType key : String) : Option String :=
    (findState state eventType "").bind fun event => nonemptyText (event.get "content") key
  (field "m.room.name" "name").or (field "m.room.canonical_alias" "alias")

/-- What is seen of a room with this state. -/
def describe (packages : NumberPackages) (roomId me : String) (state : List Json)
    (memberCount : Nat) (directPeers : List String) (membersName : Option String) :
    Except SdkError Conversation :=
  match findState state "m.room.create" "" with
  | none => .error (.protocol (roomId ++ ": the room state has no m.room.create"))
  | some create =>
      let powerLevels := (findState state "m.room.power_levels" "").map fun event =>
        (event.get "content").getD .null
      let level := myPowerLevel packages create powerLevels me
      let neededToSend := (powerLevels.map fun content =>
        ((readLevel packages ((content.get "events").bind (Json.get "m.room.message"))).or
          (readLevel packages (content.get "events_default"))).getD 0).getD 0
      let isDirect : Bool := directPeers ≠ [] ∧ memberCount = 2
      .ok {
        id := roomId
        kind :=
          if isDirect then .direct else if 100 ≤ neededToSend then .channel else .group
        name := (explicitName state).or membersName
        topic := (findState state "m.room.topic" "").bind fun event =>
          nonemptyText (event.get "content") "topic"
        encrypted := (findState state "m.room.encryption" "").any fun event =>
          isEncryptionContent ((event.get "content").getD .null)
        memberCount := memberCount
        myPowerLevel := level
        canSendMessage := neededToSend ≤ level
        directPeer := if isDirect then directPeers.head? else none
        state := some state }

/-- What is seen of a room after the account has written a state event. Nothing
can be computed when the state is not known. -/
def conversationWithStateEvent (packages : NumberPackages) (previous : Conversation) (me : String)
    (written : Json) : Except SdkError (Option Conversation) :=
  match previous.state with
  | none => .ok none
  | some previousState =>
      if isMemberEvent written then
        .ok (some previous)
      else
        match written.text "type", written.text "state_key" with
        | some eventType, some stateKey =>
            let state := (previousState.filter fun event =>
              ¬(event.text "type" = some eventType ∧ event.text "state_key" = some stateKey))
                ++ [written]
            let membersName :=
              match explicitName previousState with
              | none => previous.name
              | some _ => none
            let directPeers :=
              if previous.kind = .direct then previous.directPeer.toList else []
            (describe packages previous.id me state previous.memberCount directPeers
              membersName).map some
        | _, _ => .error (.protocol "the written state event has no type or state_key")

end WbfMatrixClient
