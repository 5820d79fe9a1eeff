import WbfMatrixClient.SessionRuns

/-!
# Requests on a link and its shutting down

Any number of requests run beside the reader and whoever shuts the link down.
A request registers in the session table and only then sends, and sending
begins by reading the closed flag. Shutting down sets the flag and only then
fails every entry. Both are split here into the steps between which other
tasks may run, and a request is named by the slot of its sink.

The point of the two orders: an entry that is registered after the table was
failed belongs to a request that has not read the flag yet, and will find it
set.
-/

namespace WbfMatrixClient
namespace Link

open SessionRuns

/-- The four calls that register a waiter. -/
inductive Form where
  | request
  | sendRequest
  | openStream
  | subscribe
deriving DecidableEq

def Form.kind : Form → SinkKind
  | .request => .oneshot
  | .sendRequest => .oneshot
  | .openStream => .stream
  | .subscribe => .subscription

/-- All but the plain request hand the caller a handle, and dropping it removes
the entry. -/
def Form.hasHandle : Form → Bool
  | .request => false
  | _ => true

/-- A named session needs a name. -/
def namedKey (connectionId : UInt64) (pack : Pack) : Except SdkError SessionKey :=
  if pack.id = 0 then
    .error (.usage ("connection " ++ toString connectionId ++
      ": a named session needs a non-zero id"))
  else
    .ok (.session pack.id)

def Form.key (form : Form) (connectionId : UInt64) (pack : Pack) : Except SdkError SessionKey :=
  match form with
  | .request => .ok (.reply pack.id pack.seq)
  | .sendRequest => .ok (.reply pack.id pack.seq)
  | .openStream => namedKey connectionId pack
  | .subscribe => namedKey connectionId pack

/-- Where a request stands between two of its steps. -/
inductive Point where
  | registered
  | checked
  | failing (error : SdkError)
  | waiting
  | leaving
  | returned (error : Option SdkError)
  | cancelled
deriving DecidableEq

structure Request where
  form : Form
  key : SessionKey
  generation : UInt64
  point : Point
deriving DecidableEq

/-- How far the one call that shuts the link down has come. -/
inductive ShutDown where
  | idle
  | swapped
  | done
deriving DecidableEq

structure State where
  world : World
  closed : Bool
  shutDown : ShutDown
  requests : Nat → Option Request

def State.start (connectionId : UInt64) : State :=
  { world := .start connectionId, closed := false, shutDown := .idle,
    requests := fun _ => none }

/-- How putting the encoded pack into the send queue ends. -/
inductive Enqueue where
  | queued
  | notEncodable (error : SdkError)
  | queueClosed
  | timedOut

inductive Action where
  | begin (form : Form) (pack : Pack)
  | checkClosed (slot : Nat)
  | enqueue (slot : Nat) (result : Enqueue)
  | cleanUp (slot : Nat)
  | resend (slot : Nat)
  | stopWaiting (slot : Nat)
  | leave (slot : Nat)
  | cancel (slot : Nat)
  | consume (op : Op)
  | dispatch (pack : Pack)
  | swapClosed
  | failAll (reason : String)

namespace State

def connectionName (l : State) : String :=
  "connection " ++ toString l.world.table.connectionId

def closedError (l : State) : SdkError :=
  .network (l.connectionName ++ ": closed, nothing more goes out")

def enqueueError (l : State) : Enqueue → Option SdkError
  | .queued => none
  | .notEncodable error => some error
  | .queueClosed => some (.network (l.connectionName ++
      ": send queue closed, the connection is gone"))
  | .timedOut => some (.network (l.connectionName ++ ": send queue did not drain in time"))

def setPoint (l : State) (slot : Nat) (r : Request) (point : Point) : State :=
  { l with requests := Function.update l.requests slot (some { r with point := point }) }

/-- The session table's registration, before anything is sent. -/
def begin (l : State) (form : Form) (pack : Pack) : State :=
  match form.key l.world.table.connectionId pack with
  | .error _ => l
  | .ok key =>
      let slot := l.world.nextSlot
      match l.world.register key form.kind with
      | (world, .ok generation) =>
          { l with
            world := world
            requests := Function.update l.requests slot
              (some ⟨form, key, generation, .registered⟩) }
      | (world, .error _) => { l with world := world }

/-- The first step of sending. -/
def checkClosed (l : State) (slot : Nat) (r : Request) : State :=
  if l.closed then
    l.setPoint slot r (.failing l.closedError)
  else
    l.setPoint slot r .checked

/-- The rest of sending. -/
def enqueue (l : State) (slot : Nat) (r : Request) (result : Enqueue) : State :=
  match l.enqueueError result with
  | some error => l.setPoint slot r (.failing error)
  | none => l.setPoint slot r .waiting

/-- The request removes the entry of its own generation and returns. -/
def removeOwn (l : State) (slot : Nat) (r : Request) (error : Option SdkError) : State :=
  { l with world := l.world.removeIf r.key r.generation }.setPoint slot r (.returned error)

/-- One step of one task. A step its task does not stand at changes nothing. -/
def step (l : State) : Action → State
  | .begin form pack => l.begin form pack
  | .checkClosed slot =>
      match l.requests slot with
      | some r => if r.point = .registered then l.checkClosed slot r else l
      | none => l
  | .enqueue slot result =>
      match l.requests slot with
      | some r => if r.point = .checked then l.enqueue slot r result else l
      | none => l
  | .cleanUp slot =>
      match l.requests slot with
      | some r =>
          match r.point with
          | .failing error => l.removeOwn slot r (some error)
          | _ => l
      | none => l
  | .resend slot =>
      match l.requests slot with
      | some r =>
          if r.point = .waiting ∧ r.form = .request then l.setPoint slot r .registered else l
      | none => l
  | .stopWaiting slot =>
      match l.requests slot with
      | some r => if r.point = .waiting then l.setPoint slot r .leaving else l
      | none => l
  | .leave slot =>
      match l.requests slot with
      | some r => if r.point = .leaving then l.removeOwn slot r none else l
      | none => l
  | .cancel slot =>
      match l.requests slot with
      | some r =>
          if r.point = .checked ∨ (r.point = .waiting ∧ r.form.hasHandle = false) then
            { l with world := l.world.step (.dropReceiver slot) }.setPoint slot r .cancelled
          else l
      | none => l
  | .consume op =>
      match op with
      | .take slot => { l with world := l.world.step (.take slot) }
      | .takeGap slot => { l with world := l.world.step (.takeGap slot) }
      | .takeEndReason slot => { l with world := l.world.step (.takeEndReason slot) }
      | .setOrphanSink capacity => { l with world := l.world.step (.setOrphanSink capacity) }
      | _ => l
  | .dispatch pack => { l with world := l.world.dispatch pack }
  | .swapClosed =>
      if l.closed then l else { l with closed := true, shutDown := .swapped }
  | .failAll reason =>
      match l.shutDown with
      | .swapped => { l with world := l.world.failAll reason, shutDown := .done }
      | _ => l

/-- Whether the sending half of a channel still stands in the table. -/
def senderLive (l : State) (slot : Nat) : Bool :=
  l.world.table.entries.entries.any fun x => x.2.slot == slot

/-- What a waiter gets when it polls its receiver: nothing yet, or a pack, an
error, or the end. -/
def poll (l : State) (slot : Nat) (r : Request) : Option (Except SdkError (Option Pack)) :=
  let c := l.world.channels slot
  match r.form.kind with
  | .oneshot =>
      match c.results.head? with
      | some result => some (result.map some)
      | none =>
          if l.senderLive slot then
            none
          else
            some (.error (.network (l.connectionName ++ ": the reply slot for " ++
              r.key.debug ++ " was dropped")))
  | _ =>
      match c.queue.head? with
      | some pack => some (.ok (some pack))
      | none =>
          if l.senderLive slot then
            none
          else
            match c.endReason with
            | some reason => some (.error reason)
            | none => some (.ok none)

end State

end Link
end WbfMatrixClient
