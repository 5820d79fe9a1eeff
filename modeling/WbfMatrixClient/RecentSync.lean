import WbfMatrixClient.FetchWindows

/-!
# Syncing backwards

The newest events are fetched in windows, the newest event first. A window is
answered in batches, and the next window begins below the oldest event of the one
before. This ends when a window says that there is nothing more, when it is empty,
or when enough events were fetched.

Every batch is handed to the caller, who may refuse it. What was handed over is
kept here next to the result, so that it is known when an error ends the sync. How
long is waited for a pack is left out.
-/

namespace WbfMatrixClient

structure BatchMeta where
  tc : UInt32
  bc : UInt32
  fs : Int
  ls : Int
  r : UInt32
  more : Bool

structure RecentRequest where
  rooms : Option (List String)
  limit : UInt32
  cgSeq : Option Int
  before : Option Int
  batch : Option UInt32

structure RecentPackages where
  value : List UInt8 → Except String Json
  batchMeta : List UInt8 → Except String BatchMeta
  recentMeta : RecentRequest → List UInt8
  lossy : List UInt8 → String

structure RecentWindow where
  tc : UInt32
  batches : UInt32
  events : Nat
  firstFs : Option Int
  lastLs : Option Int
  more : Bool

structure RecentSummary where
  newCgSeq : Option Int
  windows : UInt32
  events : Nat
  lastLs : Option Int
  caughtUp : Bool

structure RecentPlan where
  maxEvents : Option UInt64
  window : UInt32
  batch : Option UInt32

def recentMaxLimit : UInt32 := 500

def recentMaxBatch : UInt32 := 100

/-- What the server says about its limits. -/
structure HelloLimits where
  recentMaxLimit : Option UInt32
  recentMaxBatch : Option UInt32

/-- A batch as it is handed to the caller. -/
abbrev RecentCall : Type := BatchMeta × List Json

/-- The caller refuses a batch with an error. It knows the batches before. -/
abbrev OnRecentBatch : Type := List RecentCall → RecentCall → Option SdkError

def eventBatchForm : BatchForm :=
  { kind := .event, subtype := event.batch, expected := "an Event/Batch", name := "Batch",
    request := "Recent", order := " (batches must be 0, 1, 2, …)" }

section Windows

variable (packages : RecentPackages)

/-- The request for one window. -/
def recent (request : RecentRequest) (id : UInt64) (seq : UInt32) : Pack :=
  { kind := .event, subtype := event.recent, flags := 0, id := id, seq := seq,
    «meta» := packages.recentMeta request, data := [] }

def expectBatch (request response : Pack) (expectedSeq : UInt32) : Except SdkError Pack :=
  expectReply eventBatchForm packages.value request response expectedSeq

/-- One event after the other, with its position in messages. -/
def parseEvents : (position : Nat) → List (List UInt8) → Except SdkError (List Json)
  | _, [] => .ok []
  | position, item :: items =>
      match packages.value item with
      | .error error =>
          .error (.protocol ("Batch event " ++ toString position ++ " is not JSON: " ++ error))
      | .ok event => (parseEvents (position + 1) items).map fun rest => event :: rest

def parseBatch (batch : Pack) : Except SdkError (BatchMeta × List Json) :=
  match packages.batchMeta batch.meta with
  | .error error =>
      .error (.protocol ("ack meta: " ++ error ++ ": " ++ packages.lossy batch.meta))
  | .ok found =>
      match splitLengthPrefixed batch.data with
      | .error error => .error error
      | .ok items =>
          if UInt32.ofNat items.length ≠ found.bc then
            .error (.protocol ("Batch meta says bc " ++ toString found.bc ++ " but data holds " ++
              toString items.length ++ " events"))
          else if found.tc < saturatingAdd found.bc found.r then
            .error (.protocol ("Batch meta inconsistent: tc " ++ toString found.tc ++ " < bc " ++
              toString found.bc ++ " + r " ++ toString found.r))
          else if 0 < found.bc ∧ found.fs < found.ls then
            .error (.protocol ("Batch fs " ++ toString found.fs ++ " < ls " ++ toString found.ls ++
              " (events must be newest first)"))
          else
            (parseEvents packages 0 items).map fun events => (found, events)

/-- What is known while a window comes in, and what was handed over so far. -/
structure RecentFetch where
  window : RecentWindow
  expectedSeq : UInt32
  sent : UInt32
  finished : Bool
  calls : List RecentCall

def RecentFetch.start (calls : List RecentCall) : RecentFetch :=
  { window := { tc := 0, batches := 0, events := 0, firstFs := none, lastLs := none, more := false }
    expectedSeq := 0, sent := 0, finished := false, calls := calls }

/-- A batch is handed over when it has passed the checks. -/
def onRecentPack (request : Pack) (onBatch : OnRecentBatch) (s : RecentFetch) (response : Pack) :
    Except SdkError Bool × RecentFetch :=
  match expectBatch packages request response s.expectedSeq with
  | .error error => (.error error, s)
  | .ok batch =>
      match parseBatch packages batch with
      | .error error => (.error error, s)
      | .ok (found, events) =>
          let label := "Batch " ++ toString s.expectedSeq
          let isFirst : Bool := s.expectedSeq = 0
          let tc := if isFirst then found.tc else s.window.tc
          let sent := saturatingAdd s.sent found.bc
          if found.tc ≠ tc then
            (.error (.protocol (label ++ " says tc " ++ toString found.tc ++
              " but the window started with tc " ++ toString tc)), s)
          else if tc ≠ saturatingAdd sent found.r then
            (.error (.protocol (label ++ ": tc " ++ toString tc ++ " ≠ sent " ++ toString sent ++
              " + r " ++ toString found.r)), s)
          else
            let window : RecentWindow :=
              { tc := tc
                batches := s.window.batches + 1
                events := (s.window.events + found.bc.toNat) % 2 ^ 64
                firstFs :=
                  if isFirst then (if 0 < found.bc then some found.fs else none)
                  else s.window.firstFs
                lastLs := if 0 < found.bc then some found.ls else s.window.lastLs
                more := found.more }
            let next : RecentFetch :=
              { window := window
                expectedSeq := s.expectedSeq + 1
                sent := sent
                finished := found.r = 0
                calls := s.calls ++ [(found, events)] }
            match onBatch s.calls (found, events) with
            | some error => (.error error, next)
            | none => (.ok (0 < found.r), next)

/-- The packs are handed over until no more are wanted, and what was changed on the
way stays changed when an error ends this. -/
def streamPacks {σ : Type} (onPack : σ → Pack → Except SdkError Bool × σ)
    (ending : Except SdkError Unit) : List Pack → σ → Except SdkError Unit × σ
  | [], s => (ending, s)
  | pack :: packs, s =>
      match onPack s pack with
      | (.error error, s) => (.error error, s)
      | (.ok true, s) => streamPacks onPack ending packs s
      | (.ok false, s) => (.ok (), s)

/-- One window. The channel says which packs come for the request, and how it ends. -/
def recentWindow (features : Option (List String)) (onBatch : OnRecentBatch) (request : Pack)
    (answer : List Pack × Except SdkError Unit) (calls : List RecentCall) :
    Except SdkError RecentWindow × List RecentCall :=
  match requireFeature features "recent" with
  | .error error => (.error error, calls)
  | .ok () =>
      match streamPacks (onRecentPack packages request onBatch) answer.2 answer.1
          (.start calls) with
      | (.error error, s) => (.error error, s.calls)
      | (.ok (), s) =>
          if s.finished then
            (.ok s.window, s.calls)
          else
            (.error (.protocol
              "the channel ended the Recent window before a Batch with r = 0"), s.calls)

end Windows

/-- Between a lowest and a highest value. -/
def clampU32 (value low high : UInt32) : UInt32 :=
  if value < low then low else if high < value then high else value

/-- What a sync works with: the client's side of the line, and the caller. -/
structure RecentClient where
  packages : RecentPackages
  features : Option (List String)
  hello : Option HelloLimits
  sessionId : Nat → UInt64
  seq : Nat → UInt32
  onBatch : OnRecentBatch

/-- The answers to the requests of a sync, by the number of the request. -/
abbrev RecentChannel : Type := Nat → RecentRequest → List Pack × Except SdkError Unit

structure RecentOutcome where
  result : Except SdkError RecentSummary
  calls : List RecentCall
  /-- What the windows that were asked for returned. -/
  windows : List (Except SdkError RecentWindow)

namespace RecentClient

variable (client : RecentClient)

/-- A limit of zero is none at all. -/
def maxLimit : UInt32 :=
  ((client.hello.bind HelloLimits.recentMaxLimit).filter fun max => 0 < max).getD recentMaxLimit

def maxBatch : UInt32 :=
  ((client.hello.bind HelloLimits.recentMaxBatch).filter fun max => 0 < max).getD recentMaxBatch

/-- The last window is only as large as what is left to fetch. -/
def windowLimit (window : UInt32) (maxEvents : Option UInt64) (events : Nat) : UInt32 :=
  match maxEvents with
  | none => window
  | some maxEvents => UInt32.ofNat (min window.toNat (min (maxEvents.toNat - events) maxU32))

def loop (channel : RecentChannel) (maxEvents : Option UInt64) (window : UInt32) :
    (fuel asked : Nat) → RecentRequest → RecentSummary → List RecentCall →
      List (Except SdkError RecentWindow) → Option RecentOutcome
  | 0, _, _, _, _, _ => none
  | fuel + 1, asked, request, summary, calls, windows =>
      if maxEvents.any fun maxEvents => maxEvents.toNat - summary.events = 0 then
        some { result := .ok summary, calls := calls, windows := windows }
      else
        let request := { request with limit := windowLimit window maxEvents summary.events }
        match recentWindow client.packages client.features client.onBatch
            (recent client.packages request (client.sessionId asked) (client.seq asked))
            (channel asked request) calls with
        | (.error error, calls) =>
            some { result := .error error, calls := calls, windows := windows ++ [.error error] }
        | (.ok found, calls) =>
            let summary : RecentSummary :=
              { newCgSeq := if summary.windows = 0 then found.firstFs else summary.newCgSeq
                windows := summary.windows + 1
                events := (summary.events + found.events) % 2 ^ 64
                lastLs := found.lastLs.or summary.lastLs
                caughtUp := summary.caughtUp }
            let windows := windows ++ [.ok found]
            if found.more = false then
              some { result := .ok { summary with caughtUp := true }, calls := calls,
                     windows := windows }
            else
              match found.lastLs with
              | none =>
                  some { result := .ok { summary with caughtUp := true }, calls := calls,
                         windows := windows }
              | some lastLs =>
                  loop channel maxEvents window fuel (asked + 1)
                    { request with before := some lastLs } summary calls windows

/-- The first request, before the loop has set its limit. -/
def firstRequest (cgSeq : Option Int) (plan : RecentPlan) : RecentRequest :=
  { rooms := none
    limit := clampU32 plan.window 1 client.maxLimit
    cgSeq := cgSeq.filter fun seq => 0 < seq
    before := none
    batch := plan.batch.map fun batch => clampU32 batch 1 client.maxBatch }

def recentSync (channel : RecentChannel) (cgSeq : Option Int) (plan : RecentPlan) (fuel : Nat) :
    Option RecentOutcome :=
  loop client channel plan.maxEvents (clampU32 plan.window 1 client.maxLimit) fuel 0
    (client.firstRequest cgSeq plan)
    { newCgSeq := none, windows := 0, events := 0, lastLs := none, caughtUp := false } [] []

end RecentClient

end WbfMatrixClient
