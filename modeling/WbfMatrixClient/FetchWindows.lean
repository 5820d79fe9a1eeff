import WbfMatrixClient.Batches
import WbfMatrixClient.PackCodec
import WbfMatrixClient.RoomState

/-!
# Fetching messages to the device and invitations

Both are fetched in one window of batches, the oldest item first. Every batch says
how many items the window has, and how many are still to come, and gives a count to
each of its items. What does not fit together ends the window with an error.

A batch number wraps around after all 32 bits are used.
-/

namespace WbfMatrixClient

structure DeviceBatchMeta where
  tc : UInt32
  bc : UInt32
  ot : UInt64
  nt : UInt64
  counts : List UInt64
  r : UInt32
  more : Bool

structure InviteBatchMeta where
  tc : UInt32
  bc : UInt32
  os : Option UInt64
  ns : Option UInt64
  counts : List UInt64
  r : UInt32

/-- An invitation in the data of a batch. -/
structure InviteEntryJson where
  roomId : String
  inviter : Option String
  isDirect : Bool
  reason : Option String
  state : List Json

structure WindowPackages where
  value : List UInt8 → Except String Json
  deviceBatchMeta : List UInt8 → Except String DeviceBatchMeta
  inviteBatchMeta : List UInt8 → Except String InviteBatchMeta
  inviteEntry : List UInt8 → Except String InviteEntryJson
  lossy : List UInt8 → String

structure DeviceWindow where
  items : List (UInt64 × Json)
  tc : UInt32
  nt : Option UInt64
  more : Bool

structure InviteRound where
  tc : UInt32
  items : List (UInt64 × InviteItem)

def deviceBatchForm : BatchForm :=
  { kind := .device, subtype := device.batch, expected := "a Device/Batch",
    name := "Device/Batch", request := "Fetch", order := "" }

def inviteBatchForm : BatchForm :=
  { kind := .invite, subtype := invite.batch, expected := "an Invite/Batch",
    name := "Invite/Batch", request := "Fetch", order := "" }

/-- A number that may be missing, in messages. -/
def debugOption {α : Type} [ToString α] : Option α → String
  | none => "None"
  | some a => "Some(" ++ toString a ++ ")"

section Parsing

variable (packages : WindowPackages)

def parseMeta {α : Type} (parse : List UInt8 → Except String α) (ack : Pack) :
    Except SdkError α :=
  match parse ack.meta with
  | .ok found => .ok found
  | .error error =>
      .error (.protocol ("ack meta: " ++ error ++ ": " ++ packages.lossy ack.meta))

def expectDeviceBatch (request response : Pack) (expectedSeq : UInt32) : Except SdkError Pack :=
  expectReply deviceBatchForm packages.value request response expectedSeq

def expectInviteBatch (request response : Pack) (expectedSeq : UInt32) : Except SdkError Pack :=
  expectReply inviteBatchForm packages.value request response expectedSeq

/-- One item after the other, each with its count. -/
def parseItems {α : Type} (parse : UInt64 → List UInt8 → Except SdkError α) :
    List (UInt64 × List UInt8) → Except SdkError (List (UInt64 × α))
  | [] => .ok []
  | (count, item) :: items =>
      match parse count item with
      | .error error => .error error
      | .ok parsed => (parseItems parse items).map fun rest => (count, parsed) :: rest

def parseDeviceItem (count : UInt64) (item : List UInt8) : Except SdkError Json :=
  match packages.value item with
  | .error error =>
      .error (.protocol ("to-device item " ++ toString count ++ " is not JSON: " ++ error))
  | .ok event =>
      if event.isObject then
        .ok event
      else
        .error (.protocol ("to-device item " ++ toString count ++ " is not a JSON object"))

def parseDeviceItems (what : String) (bc : UInt32) (ot nt : UInt64) (counts : List UInt64)
    (data : List UInt8) : Except SdkError (List (UInt64 × Json)) :=
  match splitLengthPrefixed data with
  | .error error => .error error
  | .ok items =>
      if UInt32.ofNat items.length ≠ bc ∨ UInt32.ofNat counts.length ≠ bc then
        .error (.protocol (what ++ " meta says bc " ++ toString bc ++ " but data holds " ++
          toString items.length ++ " events and counts has " ++ toString counts.length))
      else if 0 < bc ∧ hasDisorder counts then
        .error (.protocol (what ++ " counts are not strictly increasing: " ++ toString counts))
      else if 0 < bc ∧ (counts.head? ≠ some ot ∨ counts.getLast? ≠ some nt) then
        .error (.protocol (what ++ " ot " ++ toString ot ++ " / nt " ++ toString nt ++
          " do not match counts " ++ toString counts))
      else
        parseItems (parseDeviceItem packages) (counts.zip items)

def parseDeviceBatch (batch : Pack) :
    Except SdkError (DeviceBatchMeta × List (UInt64 × Json)) :=
  match parseMeta packages packages.deviceBatchMeta batch with
  | .error error => .error error
  | .ok found =>
      if found.tc < saturatingAdd found.bc found.r then
        .error (.protocol ("Device/Batch meta inconsistent: tc " ++ toString found.tc ++ " < bc " ++
          toString found.bc ++ " + r " ++ toString found.r))
      else
        (parseDeviceItems packages "Device/Batch" found.bc found.ot found.nt found.counts
          batch.data).map fun events => (found, events)

def parseInviteEntry (count : UInt64) (bytes : List UInt8) : Except SdkError InviteItem :=
  match packages.inviteEntry bytes with
  | .error error =>
      .error (.protocol ("Invite/Batch room " ++ toString count ++ " is not an invite entry: " ++
        error))
  | .ok entry =>
      .ok { roomId := entry.roomId, inviter := entry.inviter, isDirect := entry.isDirect,
            reason := entry.reason, state := if entry.state = [] then none else some entry.state }

/-- The ends are there exactly if there are counts, and are the first and the last. -/
def endsMatch (counts : List UInt64) (os ns : Option UInt64) : Bool :=
  match counts.head?, counts.getLast? with
  | some first, some last => os = some first ∧ ns = some last
  | _, _ => os.isNone ∧ ns.isNone

def parseInviteBatch (batch : Pack) :
    Except SdkError (InviteBatchMeta × List (UInt64 × InviteItem)) :=
  match parseMeta packages packages.inviteBatchMeta batch with
  | .error error => .error error
  | .ok found =>
      if found.tc < saturatingAdd found.bc found.r then
        .error (.protocol ("Invite/Batch meta inconsistent: tc " ++ toString found.tc ++ " < bc " ++
          toString found.bc ++ " + r " ++ toString found.r))
      else
        match splitLengthPrefixed batch.data with
        | .error error => .error error
        | .ok entries =>
            if UInt32.ofNat entries.length ≠ found.bc ∨
                UInt32.ofNat found.counts.length ≠ found.bc then
              .error (.protocol ("Invite/Batch meta says bc " ++ toString found.bc ++
                " but data holds " ++ toString entries.length ++ " rooms and counts has " ++
                toString found.counts.length))
            else if hasDisorder found.counts then
              .error (.protocol ("Invite/Batch counts are not strictly increasing: " ++
                toString found.counts))
            else if endsMatch found.counts found.os found.ns = false then
              .error (.protocol ("Invite/Batch os " ++ debugOption found.os ++ " / ns " ++
                debugOption found.ns ++ " do not match counts " ++ toString found.counts))
            else
              (parseItems (parseInviteEntry packages) (found.counts.zip entries)).map
                fun items => (found, items)

end Parsing

/-- What is known while a window of device messages comes in. -/
structure DeviceFetch where
  window : DeviceWindow
  expectedSeq : UInt32
  sent : UInt32
  finished : Bool

def DeviceFetch.start : DeviceFetch :=
  { window := { items := [], tc := 0, nt := none, more := false }, expectedSeq := 0, sent := 0,
    finished := false }

structure InviteFetch where
  round : InviteRound
  expectedSeq : UInt32
  received : UInt32
  previousR : Option UInt32
  newest : Option UInt64
  finished : Bool

def InviteFetch.start : InviteFetch :=
  { round := { tc := 0, items := [] }, expectedSeq := 0, received := 0, previousR := none,
    newest := none, finished := false }

section Windows

variable (packages : WindowPackages)

def onDevicePack (request : Pack) (s : DeviceFetch) (response : Pack) :
    Except SdkError (DeviceFetch × Bool) :=
  match expectDeviceBatch packages request response s.expectedSeq with
  | .error error => .error error
  | .ok batch =>
      match parseDeviceBatch packages batch with
      | .error error => .error error
      | .ok (found, items) =>
          let label := "Device/Batch " ++ toString s.expectedSeq
          let tc := if s.expectedSeq = 0 then found.tc else s.window.tc
          let sent := saturatingAdd s.sent found.bc
          if found.tc ≠ tc then
            .error (.protocol (label ++ " says tc " ++ toString found.tc ++
              " but the window started with tc " ++ toString tc))
          else if tc ≠ saturatingAdd sent found.r then
            .error (.protocol (label ++ ": tc " ++ toString tc ++ " ≠ sent " ++ toString sent ++
              " + r " ++ toString found.r))
          else if items ≠ [] ∧ s.window.nt.any fun previous => found.ot ≤ previous then
            .error (.protocol (label ++ " starts at " ++ toString found.ot ++
              " but the previous batch ended at " ++ debugOption s.window.nt))
          else
            .ok ({ window := { items := s.window.items ++ items
                               tc := tc
                               nt := (items.getLast?.map Prod.fst).or s.window.nt
                               more := found.more }
                   expectedSeq := s.expectedSeq + 1
                   sent := sent
                   finished := found.r = 0 }, 0 < found.r)

/-- All messages that wait for the device, as far as one window goes. -/
def deviceFetchWindow (request : Pack) (ending : Except SdkError Unit) (packs : List Pack) :
    Except SdkError DeviceWindow :=
  match requestStream (onDevicePack packages request) ending packs .start with
  | .error error => .error error
  | .ok s =>
      if s.finished then
        .ok s.window
      else
        .error (.protocol "the channel ended the Device/Fetch window before a Batch with r = 0")

def onInvitePack (request : Pack) (s : InviteFetch) (response : Pack) :
    Except SdkError (InviteFetch × Bool) :=
  match expectInviteBatch packages request response s.expectedSeq with
  | .error error => .error error
  | .ok batch =>
      match parseInviteBatch packages batch with
      | .error error => .error error
      | .ok (found, items) =>
          let label := "Invite/Batch " ++ toString s.expectedSeq
          let tc := if s.expectedSeq = 0 then found.tc else s.round.tc
          let received := saturatingAdd s.received found.bc
          if found.tc ≠ tc then
            .error (.protocol (label ++ " says tc " ++ toString found.tc ++
              " but the round started with tc " ++ toString tc))
          else if tc < saturatingAdd received found.r then
            .error (.protocol (label ++ ": received " ++ toString received ++ " + r " ++
              toString found.r ++ " > tc " ++ toString tc))
          else if s.previousR.any fun previous => previous < found.r then
            .error (.protocol (label ++ ": r went up from " ++ debugOption s.previousR ++ " to " ++
              toString found.r))
          else if found.os.any fun os =>
              found.ns.isSome ∧ s.newest.any fun previous => os ≤ previous then
            .error (.protocol (label ++ " starts at " ++ (found.os.map toString).getD "" ++
              " but the previous batch ended at " ++ debugOption s.newest))
          else
            .ok ({ round := { tc := tc, items := s.round.items ++ items }
                   expectedSeq := s.expectedSeq + 1
                   received := received
                   previousR := some found.r
                   newest := (found.os.bind fun _ => found.ns).or s.newest
                   finished := found.r = 0 }, 0 < found.r)

/-- All invitations of the account. -/
def inviteFetchRound (request : Pack) (ending : Except SdkError Unit) (packs : List Pack) :
    Except SdkError InviteRound :=
  match requestStream (onInvitePack packages request) ending packs .start with
  | .error error => .error error
  | .ok s =>
      if s.finished then
        .ok s.round
      else
        .error (.protocol "the channel ended the Invite/Fetch round before a Batch with r = 0")

end Windows

end WbfMatrixClient
