import Mathlib.Algebra.Group.Nat.Defs
import Mathlib.Data.List.AList
import WbfMatrixClient.Lib.Runs
import WbfMatrixClient.Wire

/-!
# The session table

One table per connection says whose pack an incoming pack is. An entry is a
sink, which holds the sending half of a channel, together with the generation
its registration was given. The receiving half belongs to the consumer that
registered it, so the two halves meet in a channel record kept outside the
table: what has been sent, what is still queued, the gap mark and the reason a
session ended. A channel is named by its slot, a fresh number per sink.
-/

namespace WbfMatrixClient

/-- Whose pack it is: a named session, or the one reply to one request. -/
inductive SessionKey where
  | session (id : UInt64)
  | reply (id : UInt64) (seq : UInt32)
deriving DecidableEq

namespace SessionKey

/-- The key as error messages print it. -/
def debug : SessionKey → String
  | .session id => "Session(" ++ toString id ++ ")"
  | .reply id seq =>
      "Reply \x7b id: " ++ toString id ++ ", seq: " ++ toString seq ++ " \x7d"

end SessionKey

inductive Route where
  | oneshot
  | stream
  | subscription
  | unmatched

/-- Whether the entry stays in the table after a delivery. -/
inductive Delivery where
  | kept
  | finished

/-- What a sink and its consumer share. A oneshot channel uses `results`; the
bounded channels use `queue`, and next to it the gap mark and the end reason. -/
structure Channel where
  receiverAlive : Bool
  results : List (Except SdkError Pack)
  queue : List Pack
  gap : Bool
  endReason : Option SdkError
deriving DecidableEq

namespace Channel

def fresh : Channel :=
  { receiverAlive := true, results := [], queue := [], gap := false, endReason := none }

/-- Sending on the oneshot channel; the value is lost when nobody can receive it. -/
def sendOnce (c : Channel) (result : Except SdkError Pack) : Channel :=
  if c.receiverAlive then { c with results := c.results ++ [result] } else c

/-- The first reason given is the one that stays. -/
def setEndReason (c : Channel) (reason : SdkError) : Channel :=
  match c.endReason with
  | none => { c with endReason := some reason }
  | some _ => c

inductive TrySendError where
  | full
  | closed

/-- Sending on the bounded channel without waiting. -/
def trySend (capacity : Nat) (c : Channel) (pack : Pack) : Except TrySendError Channel :=
  if c.receiverAlive then
    if c.queue.length < capacity then
      .ok { c with queue := c.queue ++ [pack] }
    else
      .error .full
  else
    .error .closed

@[simp] theorem setEndReason_results (c : Channel) (reason : SdkError) :
    (c.setEndReason reason).results = c.results := by
  unfold setEndReason
  cases c.endReason <;> rfl

@[simp] theorem setEndReason_queue (c : Channel) (reason : SdkError) :
    (c.setEndReason reason).queue = c.queue := by
  unfold setEndReason
  cases c.endReason <;> rfl

@[simp] theorem setEndReason_isSome (c : Channel) (reason : SdkError) :
    (c.setEndReason reason).endReason.isSome = true := by
  unfold setEndReason
  cases h : c.endReason <;> simp [h]

end Channel

/-- A sink holds its sender until it has been used up. -/
structure OneshotSink where
  sender : Bool
deriving DecidableEq

structure StreamSink where
  sender : Bool
deriving DecidableEq

structure SubscriptionSink where
  sender : Bool
deriving DecidableEq

def streamQueuePacks : Nat := 256

def subscriptionQueuePacks : Nat := 64

/-- The last pack of a stream: flagged so, or an error. -/
def isSessionEnd (pack : Pack) : Bool :=
  (pack.flags &&& flags.isLast != 0) ||
    (pack.kind == .control && pack.subtype == control.error)

def OneshotSink.new : OneshotSink := ⟨true⟩

def OneshotSink.deliver
    (sink : OneshotSink) (c : Channel) (pack : Pack) :
    OneshotSink × Channel × Delivery :=
  (⟨false⟩, if sink.sender then c.sendOnce (.ok pack) else c, .finished)

def OneshotSink.fail
    (sink : OneshotSink) (c : Channel) (reason : SdkError) : Channel :=
  if sink.sender then c.sendOnce (.error reason) else c

def StreamSink.new : StreamSink := ⟨true⟩

def streamFellBehind : SdkError :=
  .protocol ("stream session fell " ++ toString streamQueuePacks ++
    " packs behind; the consumer is not reading")

def StreamSink.deliver
    (sink : StreamSink) (c : Channel) (pack : Pack) :
    StreamSink × Channel × Delivery :=
  if sink.sender then
    match c.trySend streamQueuePacks pack with
    | .ok c' => (sink, c', if isSessionEnd pack then .finished else .kept)
    | .error .full => (⟨false⟩, c.setEndReason streamFellBehind, .finished)
    | .error .closed => (sink, c, .finished)
  else
    (sink, c, .finished)

def StreamSink.fail
    (_ : StreamSink) (c : Channel) (reason : SdkError) : Channel :=
  c.setEndReason reason

def SubscriptionSink.new : SubscriptionSink := ⟨true⟩

def subscriptionInboxFull : SdkError :=
  .protocol "subscription ended by a Control/Error the full inbox could not hold"

/-- A full inbox costs a subscription the pack and marks the gap; only an
error pack that does not fit also ends it. -/
def SubscriptionSink.deliver
    (sink : SubscriptionSink) (c : Channel) (pack : Pack) :
    SubscriptionSink × Channel × Delivery :=
  if sink.sender then
    let ends := pack.kind == .control && pack.subtype == control.error
    match c.trySend subscriptionQueuePacks pack with
    | .ok c' => (sink, c', if ends then .finished else .kept)
    | .error .full =>
        if ends then
          (sink, { c with gap := true }.setEndReason subscriptionInboxFull, .finished)
        else
          (sink, { c with gap := true }, .kept)
    | .error .closed => (sink, c, .finished)
  else
    (sink, c, .finished)

def SubscriptionSink.fail
    (_ : SubscriptionSink) (c : Channel) (reason : SdkError) : Channel :=
  c.setEndReason reason

inductive PackSink where
  | oneshot (sink : OneshotSink)
  | stream (sink : StreamSink)
  | subscription (sink : SubscriptionSink)
deriving DecidableEq

namespace PackSink

def route : PackSink → Route
  | .oneshot _ => .oneshot
  | .stream _ => .stream
  | .subscription _ => .subscription

def hasSender : PackSink → Bool
  | .oneshot sink => sink.sender
  | .stream sink => sink.sender
  | .subscription sink => sink.sender

def deliver (sink : PackSink) (c : Channel) (pack : Pack) :
    PackSink × Channel × Delivery :=
  match sink with
  | .oneshot s => let (s, c, d) := s.deliver c pack; (.oneshot s, c, d)
  | .stream s => let (s, c, d) := s.deliver c pack; (.stream s, c, d)
  | .subscription s => let (s, c, d) := s.deliver c pack; (.subscription s, c, d)

def fail (sink : PackSink) (c : Channel) (reason : SdkError) : Channel :=
  match sink with
  | .oneshot s => s.fail c reason
  | .stream s => s.fail c reason
  | .subscription s => s.fail c reason

end PackSink

structure Entry where
  generation : UInt64
  slot : Nat
  sink : PackSink
deriving DecidableEq

/-- The diagnostic inbox for packs nobody waits for. -/
structure OrphanInbox where
  capacity : Nat
  queue : List Pack

structure SessionTable where
  connectionId : UInt64
  entries : AList (fun _ : SessionKey => Entry)
  nextGeneration : UInt64
  unmatched : Nat
  orphans : Option OrphanInbox

/-- One more on a 64-bit counter that stops at its largest value. -/
def saturatingSucc (n : Nat) : Nat := min (n + 1) (2 ^ 64 - 1)

def OrphanInbox.trySend (inbox : OrphanInbox) (pack : Pack) : OrphanInbox :=
  if inbox.queue.length < inbox.capacity then
    { inbox with queue := inbox.queue ++ [pack] }
  else
    inbox

/-- The channels by slot. -/
abbrev Channels := Nat → Channel

namespace SessionTable

def new (connectionId : UInt64) : SessionTable :=
  { connectionId := connectionId, entries := ∅, nextGeneration := 0, unmatched := 0,
    orphans := none }

/-- A key that is taken is refused, never overwritten. -/
def register (t : SessionTable) (key : SessionKey) (slot : Nat) (sink : PackSink) :
    Except SdkError (SessionTable × UInt64) :=
  if key ∈ t.entries then
    .error (.usage ("connection " ++ toString t.connectionId ++ ": session " ++ key.debug ++
      " is already registered"))
  else
    let generation := t.nextGeneration + 1
    .ok ({ t with
      nextGeneration := generation
      entries := t.entries.insert key ⟨generation, slot, sink⟩ }, generation)

/-- Removes the entry only while it is of the given generation. -/
def removeIf (t : SessionTable) (key : SessionKey) (generation : UInt64) :
    SessionTable × Option PackSink :=
  match t.entries.lookup key with
  | some entry =>
      if entry.generation = generation then
        ({ t with entries := t.entries.erase key }, some entry.sink)
      else
        (t, none)
  | none => (t, none)

def isControlResponse (pack : Pack) : Bool :=
  pack.kind == .control && pack.flags &&& flags.isResponse != 0

/-- The named session first, then the exact reply, then the reply to a create,
which carries the new id in its header. -/
def findKey (t : SessionTable) (pack : Pack) : Option SessionKey :=
  if pack.id ≠ 0 ∧ SessionKey.session pack.id ∈ t.entries then
    some (.session pack.id)
  else if SessionKey.reply pack.id pack.seq ∈ t.entries then
    some (.reply pack.id pack.seq)
  else if isControlResponse pack ∧ SessionKey.reply 0 pack.seq ∈ t.entries then
    some (.reply 0 pack.seq)
  else
    none

def classify (t : SessionTable) (pack : Pack) : Option SessionKey × Route :=
  match t.findKey pack with
  | some key =>
      (some key, ((t.entries.lookup key).map fun entry => entry.sink.route).getD .unmatched)
  | none => (none, .unmatched)

def dispatch (t : SessionTable) (channels : Channels) (pack : Pack) :
    SessionTable × Channels :=
  match t.findKey pack with
  | some key =>
      match t.entries.lookup key with
      | some entry =>
          let (sink, channel, delivery) := entry.sink.deliver (channels entry.slot) pack
          let entries :=
            match delivery with
            | .finished => t.entries.erase key
            | .kept => t.entries.insert key { entry with sink := sink }
          ({ t with entries := entries }, Function.update channels entry.slot channel)
      | none => (t, channels)
  | none =>
      ({ t with
        unmatched := saturatingSucc t.unmatched
        orphans := t.orphans.map fun inbox => inbox.trySend pack }, channels)

def closedBy (t : SessionTable) (reason : String) (key : SessionKey) : SdkError :=
  .network ("connection " ++ toString t.connectionId ++ ": " ++ reason ++ " (session " ++
    key.debug ++ ")")

/-- Every sink fails, and the table is left empty. -/
def failAll (t : SessionTable) (channels : Channels) (reason : String) :
    SessionTable × Channels :=
  ({ t with entries := ∅ },
    t.entries.entries.foldl
      (fun channels ⟨key, entry⟩ =>
        Function.update channels entry.slot
          (entry.sink.fail (channels entry.slot) (t.closedBy reason key)))
      channels)

end SessionTable

end WbfMatrixClient
