import Mathlib.Data.List.SplitLengths
import WbfMatrixClient.EventHistory
import WbfMatrixClient.MessageView
import WbfMatrixClient.RecentSyncRuns

/-!
# The mark of an account

An account remembers in the cache up to which number it has synced. A call for the
recent events reads this mark, fetches window after window from there, stores what
comes, and writes the newest number it has seen back at the end. Any number of calls
run beside each other, and beside them the rooms line and others write to the cache.

The log is the server's. The marks that were written are kept in their order, and with
every call how long the log was when its first window was answered.
-/

namespace WbfMatrixClient

namespace IncomingEvent

def fromWsJson (event : Json) : IncomingEvent :=
  if event.text "type" = some "m.room.encrypted" then
    .undecrypted event notDecryptedHere
  else
    .plain event

end IncomingEvent

namespace RecentMarks

abbrev ByRoom (α : Type) : Type := List (String × List α)

/-- The rooms stay in order, and so does what a room has. -/
def addToRoom {α : Type} (room : String) (x : α) : ByRoom α → ByRoom α
  | [] => [(room, [x])]
  | (other, xs) :: rest =>
      if room = other then (other, xs ++ [x]) :: rest
      else if room < other then (room, [x]) :: (other, xs) :: rest
      else (other, xs) :: addToRoom room x rest

/-- An event that names no room is left out. -/
def addByRoom (rooms : ByRoom IncomingEvent) (raw : Json) : ByRoom IncomingEvent :=
  match raw.text "room_id" with
  | some room => addToRoom room (.fromWsJson raw) rooms
  | none => rooms

def groupByRoom (raws : List Json) : ByRoom IncomingEvent :=
  raws.foldl addByRoom []

/-- What storing leaves: the cache, how many could not be stored, and whether it went
through. -/
structure Stored where
  cache : Cache
  unstorable : Nat
  ok : Bool

/-- Every room has a transaction of its own. -/
def storeRooms (packages : ContentPackages) (me : String) :
    ByRoom IncomingEvent → Cache → Stored
  | [], cache => { cache := cache, unstorable := 0, ok := true }
  | (room, events) :: rooms, cache =>
      match cache.upsertEventsCounted packages me room events with
      | none => { cache := cache, unstorable := 0, ok := false }
      | some (cache, _, unstorable) =>
          let stored := storeRooms packages me rooms cache
          { stored with unstorable := unstorable + stored.unstorable }

def storeBatch (packages : ContentPackages) (me : String) (cache : Cache) (raws : List Json) :
    Stored :=
  let stored := storeRooms packages me (groupByRoom raws) cache
  { stored with
    unstorable := (raws.filter fun raw => (raw.text "room_id").isNone).length +
      stored.unstorable }

/-- A batch that cannot be stored ends the window. -/
def storeBatches (packages : ContentPackages) (me : String) :
    List (List LogEvent) → Cache → Stored
  | [], cache => { cache := cache, unstorable := 0, ok := true }
  | batch :: batches, cache =>
      let first := storeBatch packages me cache (batch.map LogEvent.event)
      if first.ok then
        let rest := storeBatches packages me batches first.cache
        { rest with unstorable := first.unstorable + rest.unstorable }
      else
        first

/-- What a call says while it runs. -/
inductive Report where
  | unstorable (count : Nat)
  | stoppedAtLimit (events : Nat) (below : Option Int)

/-- How far a call has come, and how long the log was at its first window. -/
structure Pull where
  cgSeq : Option Int
  maxEvents : Option UInt64
  window : UInt32
  request : RecentRequest
  summary : RecentSummary
  skipped : Nat
  seen : Nat

inductive Call where
  | windows (pull : Pull)
  | pulled (pull : Pull)
  | returned

structure State where
  log : List LogEvent
  cache : Cache
  cgSeq : Option Int
  reports : List Report
  calls : Nat → Option Call
  marks : List Int
  lastSeen : Nat

def State.start : State :=
  { log := [], cache := .empty, cgSeq := none, reports := [], calls := fun _ => none,
    marks := [], lastSeen := 0 }

inductive Action where
  /-- An event comes to the server. -/
  | arrive (e : LogEvent)
  /-- Someone else writes to the cache: the rooms line, the decryption, a command. -/
  | write (operation : Operation)
  | begin (id : Nat) (since : Option Int) (fromScratch : Bool) (plan : RecentPlan)
  /-- The server answers with a window in batches of these sizes. -/
  | window (id : Nat) (sizes : List Nat) (more : Bool)
  /-- The line fails after these batches of a window. -/
  | fail (id : Nat) (sizes : List Nat)
  | finish (id : Nat)

namespace State

variable (packages : CachePackages) (me : String) (client : RecentClient)

def setCall (s : State) (id : Nat) (call : Call) : State :=
  { s with calls := Function.update s.calls id (some call) }

/-- What a call starts from. -/
def startsFrom (s : State) (since : Option Int) (fromScratch : Bool) : Option Int :=
  match fromScratch, since with
  | true, _ => none
  | false, some since => some since
  | false, none => s.cgSeq

def begin (s : State) (id : Nat) (since : Option Int) (fromScratch : Bool)
    (plan : RecentPlan) : State :=
  let cgSeq := s.startsFrom since fromScratch
  s.setCall id (.windows
    { cgSeq := cgSeq
      maxEvents := plan.maxEvents
      window := clampU32 plan.window 1 client.maxLimit
      request := client.firstRequest cgSeq plan
      summary := { newCgSeq := none, windows := 0, events := 0, lastLs := none, caughtUp := false }
      skipped := 0
      seen := 0 })

/-- The size of a window: never more than was asked for, something when there is
anything, and everything when no more is to come. -/
def IsSize (log : List LogEvent) (request : RecentRequest) (size : Nat) (more : Bool) : Prop :=
  size ≤ request.limit.toNat ∧ size ≤ (request.range log).length ∧
    (size = 0 → (request.range log).length = 0) ∧
    (more = false → (request.range log).length ≤ size)

instance (log : List LogEvent) (request : RecentRequest) (size : Nat) (more : Bool) :
    Decidable (IsSize log request size more) :=
  inferInstanceAs (Decidable (_ ∧ _ ∧ _ ∧ _))

/-- The end of a window. The next one begins below the last event of this one. -/
def endWindow (s : State) (id : Nat) (pull : Pull) (events : List LogEvent) (more : Bool)
    (unstorable : Nat) : State :=
  let lastLs := events.getLast?.map LogEvent.seq
  let summary : RecentSummary :=
    { newCgSeq :=
        if pull.summary.windows = 0 then events.head?.map LogEvent.seq else pull.summary.newCgSeq
      windows := pull.summary.windows + 1
      events := (pull.summary.events + events.length) % 2 ^ 64
      lastLs := lastLs.or pull.summary.lastLs
      caughtUp := pull.summary.caughtUp }
  let pull : Pull :=
    { pull with
      summary := summary
      skipped := pull.skipped + unstorable
      seen := if pull.summary.windows = 0 then s.log.length else pull.seen }
  if more = false ∨ events = [] then
    s.setCall id (.pulled { pull with summary := { summary with caughtUp := true } })
  else
    s.setCall id (.windows { pull with request := { pull.request with before := lastLs } })

/-- Whether as many events were fetched as the caller wants. -/
def atLimit (pull : Pull) : Bool :=
  pull.maxEvents.any fun maxEvents => maxEvents.toNat - pull.summary.events = 0

def windowRequest (pull : Pull) : RecentRequest :=
  { pull.request with
    limit := RecentClient.windowLimit pull.window pull.maxEvents pull.summary.events }

/-- One window of a call, or its end at the limit. -/
def window (s : State) (id : Nat) (pull : Pull) (sizes : List Nat) (more : Bool) : State :=
  if atLimit pull then
    s.setCall id (.pulled pull)
  else if IsSize s.log (windowRequest pull) sizes.sum more then
    let events := ((windowRequest pull).range s.log).take sizes.sum
    let stored := storeBatches packages.content me (sizes.splitLengths events) s.cache
    let s := { s with cache := stored.cache }
    if stored.ok then s.endWindow id pull events more stored.unstorable
    else s.setCall id .returned
  else
    s

/-- What came before the line failed stays. -/
def fail (s : State) (id : Nat) (pull : Pull) (sizes : List Nat) : State :=
  let events := ((windowRequest pull).range s.log).take sizes.sum
  let stored := storeBatches packages.content me (sizes.splitLengths events) s.cache
  { s with cache := stored.cache }.setCall id .returned

/-- The mark is written when everything else is done. -/
def finish (s : State) (id : Nat) (pull : Pull) : State :=
  let s := if 0 < pull.skipped then { s with reports := .unstorable pull.skipped :: s.reports } else s
  let s :=
    match pull.summary.newCgSeq with
    | some newCgSeq =>
        { s with
          cgSeq := some newCgSeq
          marks := s.marks ++ [newCgSeq]
          lastSeen := pull.seen }
    | none => s
  let s :=
    if pull.summary.caughtUp then s
    else { s with reports :=
      .stoppedAtLimit pull.summary.events pull.summary.lastLs :: s.reports }
  s.setCall id .returned

/-- One step. A step that a call does not stand at changes nothing. -/
def step (s : State) : Action → State
  | .arrive e => if ∀ old ∈ s.log, old.seq < e.seq then { s with log := s.log ++ [e] } else s
  | .write operation => { s with cache := s.cache.step packages operation }
  | .begin id since fromScratch plan =>
      match s.calls id with
      | none => s.begin client id since fromScratch plan
      | some _ => s
  | .window id sizes more =>
      match s.calls id with
      | some (.windows pull) => s.window packages me id pull sizes more
      | _ => s
  | .fail id sizes =>
      match s.calls id with
      | some (.windows pull) => s.fail packages me id pull sizes
      | _ => s
  | .finish id =>
      match s.calls id with
      | some (.pulled pull) => s.finish id pull
      | _ => s

end State

end RecentMarks
end WbfMatrixClient
