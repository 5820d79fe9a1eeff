import Mathlib.Data.List.Basic

/-!
# The downloads of an account

Every account has a handler that downloads its files one step after the other, while
callers put jobs in and take them back from other threads. All handlers of a server
write into one directory, and the claims say which of them may write the file of a
media id.

A handler is a stack of the functions it is in, each standing before its next step on
what others see too. What the server, the file system and the cache say at such a step
comes from outside. A step to which an answer does not fit changes nothing, and what a
handler does between two jobs may come in any order.
-/

namespace WbfMatrixClient
namespace DownloadQueue

open Function

def timeoutAttempts : Nat := 3

inductive Request where
  | info (mxc : String)
  | chunk (mxc : String) (index : Nat)
deriving DecidableEq

def Request.mxc : Request → String
  | .info mxc => mxc
  | .chunk mxc _ => mxc

structure Retries where
  timeouts : Nat
  badReplies : Nat

def Retries.none : Retries := { timeouts := 0, badReplies := 0 }

/-- Who waits for a request. -/
inductive Waiting where
  | main
  | seek (index : Nat)
deriving DecidableEq

structure InFlight where
  request : Request
  waiters : List Waiting
  retries : Retries

inductive DownloadState where
  | queued
  | downloading

inductive JobEnd where
  | complete
  | cancelled
  | failed
deriving DecidableEq

/-- Why the file of a media id is thrown away. -/
inductive Cause where
  /-- The server describes another file. -/
  | infoMismatch
  /-- The description could not be read, and not when it was asked for again. -/
  | infoUnreadable
  /-- A chunk was not what it should be, and not when it was asked for again. -/
  | chunkBroken
  /-- The server does not have the file or does not give it. -/
  | refused
  /-- A chunk came although the description was not checked yet. -/
  | chunkTooEarly
  /-- What a seek has fetched could not be written to the file. -/
  | notWritten
  /-- The file is there and could not be moved into the pool. -/
  | notFinished
deriving DecidableEq

/-- A function of the handler, before its next step. -/
inductive Frame where
  | prepareDownload (mxc : String)
  | findComplete (mxc : String)
  | claim (mxc : String)
  | beginRow (mxc : String)
  | openFile (mxc : String)
  | openFailed (mxc : String)
  | refusedClaim (mxc : String)
  | handOver (mxc : String)
  | takeWaiters (target : Nat) (mxc : String)
  | enqueueInto (target : Nat) (mxc : String) (waiters : List Nat)
  | opened (mxc : String)
  | startJob (mxc : String)
  | leavePreparing (mxc : String)
  | continueMain (mxc : String)
  | finishJob (mxc : String)
  | adopt (mxc : String)
  | recordFinished (mxc : String)
  | resetUnfinished (mxc : String)
  | releaseFinished (mxc : String) (jobEnd : JobEnd)
  | answerSeeks (mxc : String)
  | failMedia (mxc : String) (discard : Option Cause)
  | discard (mxc : String) (cause : Cause)
  | cacheReset (mxc : String)
  | endIfRunning (mxc : String)
  | endJob (mxc : String) (jobEnd : JobEnd)
  | closeCancelled (mxc : String) (jobEnd : JobEnd) (waiters : List Nat)
  | answer (jobEnd : JobEnd) (waiters : List Nat)
  | seekComplete (mxc : String) (index : Nat)
  | closeFiles
  | closeQueue

/-- What a handler shares with its callers, what it has for itself, and its line. -/
structure Handler where
  inbox : List String
  /-- Taken from the inbox and not started yet, and whether it was cancelled. -/
  preparing : String → Option Bool
  downloading : String → Option Bool
  waiters : List (String × Nat)
  stopped : Bool
  closed : Bool
  /-- The files that are open, and whether their description was checked. -/
  opened : String → Option Bool
  seekOnly : String → Option Bool
  opening : String → Bool
  inFlight : List InFlight
  /-- What the line has not sent yet. -/
  queue : List Request
  /-- What it has sent and not handed back. -/
  sent : List Request
  frames : List Frame

def Handler.start : Handler where
  inbox := []
  preparing := fun _ => none
  downloading := fun _ => none
  waiters := []
  stopped := false
  closed := false
  opened := fun _ => none
  seekOnly := fun _ => none
  opening := fun _ => false
  inFlight := []
  queue := []
  sent := []
  frames := []

inductive FileOp where
  | openFile
  | write
  | writeSeek
  | move
  | delete
  | reset

/-- A file of a media id is touched, while its handler has the claim or has not. -/
structure FileStep where
  handler : Nat
  mxc : String
  op : FileOp
  held : Bool

/-- A caller that puts a job in. It has looked up who downloads the file. -/
structure Call where
  target : Nat
  mxc : String
  waits : Bool
  entered : Bool
deriving DecidableEq

structure State where
  claims : String → Option Nat
  handlers : Nat → Handler
  calls : Nat → Option Call
  results : List (Nat × JobEnd)
  fileSteps : List FileStep
  discards : List Cause

def State.start : State where
  claims := fun _ => none
  handlers := fun _ => .start
  calls := fun _ => none
  results := []
  fileSteps := []
  discards := []

/-- What is said at a step from outside. -/
inductive Answer where
  | yes
  | no
  | error
  | written
  | moved
  | chunk (index : Nat)
deriving DecidableEq

/-- What becomes of a request. -/
inductive Reply where
  /-- The description fits. These chunks are there already. -/
  | info (present : List Nat)
  | infoMismatch
  | chunk (isNext : Bool) (stored : Bool)
  /-- The reply has the wrong shape, or what it holds is not what it should be. -/
  | broken
  | network
  | timeout
  /-- The server could not read the request. -/
  | corrupt
  /-- The server does not have the file or does not give it. -/
  | refused
  | other
deriving DecidableEq

inductive Action where
  | enqueue (call : Nat) (handler : Nat) (mxc : String) (waits : Bool)
  | enter (call : Nat)
  | cancel (handler : Nat) (mxc : String)
  | stop (handler : Nat)
  | abort (handler : Nat)
  | processInbox (handler : Nat)
  | processSeek (handler : Nat) (mxc : String) (index : Nat) (present : Bool)
  | handleCancellation (handler : Nat) (mxc : String)
  | closeIdle (handler : Nat)
  | forgetSeek (handler : Nat) (mxc : String)
  | send (handler : Nat)
  | handleReply (handler : Nat) (request : Request) (reply : Reply)
  | run (handler : Nat) (answer : Answer)

namespace Handler

/-- What a caller is told of a job. -/
def statusIn (h : Handler) (mxc : String) : Option DownloadState :=
  if (h.downloading mxc).isSome then some .downloading
  else if (h.preparing mxc).isSome ∨ mxc ∈ h.inbox then some .queued
  else none

def enqueueInto (h : Handler) (mxc : String) (waiters : List Nat) : Handler :=
  let h := { h with waiters := h.waiters ++ waiters.map fun waiter => (mxc, waiter) }
  match h.statusIn mxc with
  | some _ => h
  | none => { h with inbox := h.inbox ++ [mxc] }

/-- The same request is never sent twice. One that a seek waits for goes to the front. -/
def want (h : Handler) (request : Request) (waiting : Waiting) (atFront : Bool) : Handler :=
  if h.inFlight.any fun entry => entry.request = request then
    { h with
      inFlight := h.inFlight.map fun entry =>
        if entry.request = request then
          { entry with waiters := entry.waiters ++ [waiting] }
        else
          entry
      queue := if atFront ∧ request ∈ h.queue then request :: h.queue.erase request else h.queue }
  else
    { h with
      inFlight := h.inFlight ++ [{ request := request, waiters := [waiting], retries := .none }]
      queue := if atFront then request :: h.queue else h.queue ++ [request] }

def resend (h : Handler) (request : Request) (waiters : List Waiting) (retries : Retries) : Handler :=
  { h with
    inFlight := h.inFlight ++ [{ request := request, waiters := waiters, retries := retries }]
    queue := request :: h.queue }

/-- A chunk for a seek, or the description first. -/
def requestSeekChunk (h : Handler) (mxc : String) (index : Nat) (present : Bool) : Handler :=
  match h.opened mxc with
  | some verified =>
      if present then h
      else h.want (if verified then .chunk mxc index else .info mxc) (.seek index) true
  | none =>
      match h.seekOnly mxc with
      | some verified => h.want (if verified then .chunk mxc index else .info mxc) (.seek index) true
      | none => h

/-- The seeks that have waited for the description. -/
def requestSeeks (h : Handler) (mxc : String) (present : List Nat) : List Waiting → Handler
  | [] => h
  | .main :: waiters => h.requestSeeks mxc present waiters
  | .seek index :: waiters =>
      (h.requestSeekChunk mxc index (index ∈ present)).requestSeeks mxc present waiters

/-- Nothing of the file is wanted any more. What was sent already comes back to nobody. -/
def dropRequests (h : Handler) (mxc : String) : Handler :=
  { h with
    queue := (h.inFlight.filter fun entry => entry.request.mxc = mxc).foldl
      (fun queue entry => queue.erase entry.request) h.queue
    inFlight := h.inFlight.filter fun entry => entry.request.mxc ≠ mxc }

def isBusy (h : Handler) (mxc : String) : Bool :=
  h.inFlight.any fun entry => entry.request.mxc = mxc

def waitersOf (h : Handler) (mxc : String) : List Nat :=
  (h.waiters.filter fun waiter => waiter.1 = mxc).map Prod.snd

def dropWaiters (h : Handler) (mxc : String) : Handler :=
  { h with waiters := h.waiters.filter fun waiter => waiter.1 ≠ mxc }

/-- Open, without a job and without a request that somebody waits for. -/
def isIdle (h : Handler) (mxc : String) : Bool :=
  (h.opened mxc).isSome ∧ h.downloading mxc = none ∧ !h.isBusy mxc

/-- The request that the job of the file waits for. -/
def mainRequest (h : Handler) (mxc : String) : Option InFlight :=
  h.inFlight.find? fun entry => entry.request.mxc = mxc ∧ .main ∈ entry.waiters

end Handler

namespace State

def setHandler (s : State) (id : Nat) (h : Handler) : State :=
  { s with handlers := update s.handlers id h }

/-- The handler goes on with other functions. -/
def goOn (s : State) (id : Nat) (h : Handler) (frames : List Frame) : State :=
  s.setHandler id { h with frames := frames }

/-- Another handler that downloads the file and still takes jobs. -/
def findOtherDownloader (s : State) (id : Nat) (mxc : String) : Option Nat :=
  (s.claims mxc).filter fun holder => holder ≠ id ∧ !(s.handlers holder).stopped

def claim (s : State) (id : Nat) (mxc : String) : State :=
  match s.claims mxc with
  | some _ => s
  | none => { s with claims := update s.claims mxc (some id) }

/-- Only who has the claim can give it back. -/
def release (s : State) (id : Nat) (mxc : String) : State :=
  if s.claims mxc = some id then { s with claims := update s.claims mxc none } else s

def touch (s : State) (id : Nat) (mxc : String) (op : FileOp) : State :=
  { s with
    fileSteps := s.fileSteps ++
      [{ handler := id, mxc := mxc, op := op, held := s.claims mxc = some id }] }

def answerAll (s : State) (jobEnd : JobEnd) (waiters : List Nat) : State :=
  { s with results := s.results ++ waiters.map fun waiter => (waiter, jobEnd) }

/-- A file that is open is closed, and its claim given back. -/
def takeOpen (s : State) (id : Nat) (h : Handler) (mxc : String) (frames : List Frame) : State :=
  match h.opened mxc with
  | none => s.goOn id h frames
  | some _ => (s.release id mxc).goOn id { h with opened := update h.opened mxc none } frames

/-- The next step of the function a handler is in. -/
def advance (s : State) (id : Nat) (h : Handler) (answer : Answer) (rest : List Frame) :
    Frame → State
  | .prepareDownload mxc =>
      if (h.downloading mxc).isSome then s.goOn id h rest
      else if (h.opened mxc).isSome then s.goOn id h (.opened mxc :: rest)
      else s.goOn id h (.findComplete mxc :: rest)
  | .findComplete mxc =>
      match answer with
      | .yes => s.goOn id h (.endJob mxc .complete :: rest)
      | .no => s.goOn id h (.claim mxc :: rest)
      | _ => s
  | .claim mxc =>
      if (s.claims mxc).all fun holder => holder = id then
        (s.claim id mxc).goOn id { h with opening := update h.opening mxc true }
          (.beginRow mxc :: rest)
      else
        s.goOn id h (.refusedClaim mxc :: rest)
  | .beginRow mxc =>
      match answer with
      | .yes => s.goOn id h (.openFile mxc :: rest)
      | .error => s.goOn id h (.openFailed mxc :: rest)
      | _ => s
  | .openFile mxc =>
      match answer with
      | .yes =>
          (s.touch id mxc .openFile).goOn id
            { h with
              opening := update h.opening mxc false
              opened := update h.opened mxc (some false)
              seekOnly := update h.seekOnly mxc none }
            (.opened mxc :: rest)
      | .error => (s.touch id mxc .openFile).goOn id h (.openFailed mxc :: rest)
      | _ => s
  | .openFailed mxc =>
      (s.release id mxc).goOn id { h with opening := update h.opening mxc false }
        (.endJob mxc .failed :: rest)
  | .refusedClaim mxc =>
      if h.preparing mxc = some true then s.goOn id h (.endJob mxc .cancelled :: rest)
      else s.goOn id h (.handOver mxc :: rest)
  | .handOver mxc =>
      match s.findOtherDownloader id mxc with
      | none => s.goOn id h (.endJob mxc .failed :: rest)
      | some target => s.goOn id h (.takeWaiters target mxc :: rest)
  | .takeWaiters target mxc =>
      s.goOn id (h.dropWaiters mxc) (.enqueueInto target mxc (h.waitersOf mxc) :: rest)
  | .enqueueInto target mxc waiters =>
      let s := s.goOn id h rest
      s.setHandler target ((s.handlers target).enqueueInto mxc waiters)
  | .opened mxc =>
      if h.preparing mxc = some true then s.goOn id h (.endJob mxc .cancelled :: rest)
      else s.goOn id h (.startJob mxc :: rest)
  | .startJob mxc =>
      s.goOn id { h with downloading := update h.downloading mxc (some false) }
        (.continueMain mxc :: rest)
  | .leavePreparing mxc =>
      let cancelled := h.preparing mxc = some true
      s.goOn id
        { h with
          preparing := update h.preparing mxc none
          downloading :=
            if cancelled ∧ (h.downloading mxc).isSome then
              update h.downloading mxc (some true)
            else
              h.downloading }
        rest
  | .continueMain mxc =>
      match h.downloading mxc with
      | none => s.goOn id h rest
      | some true => s.goOn id h (.endJob mxc .cancelled :: rest)
      | some false =>
          match h.opened mxc with
          | none => s.goOn id h (.endJob mxc .failed :: rest)
          | some verified =>
              if answer = .written then
                s.goOn id h (.finishJob mxc :: rest)
              else if !verified then
                s.goOn id (h.want (.info mxc) .main false) rest
              else
                match answer with
                | .moved => (s.touch id mxc .write).goOn id h (.continueMain mxc :: rest)
                | .error =>
                    (s.touch id mxc .write).goOn id h (.failMedia mxc (some .notWritten) :: rest)
                | .chunk index => s.goOn id (h.want (.chunk mxc index) .main false) rest
                | _ => s
  | .finishJob mxc =>
      match h.opened mxc with
      | none => s.goOn id h rest
      | some _ =>
          s.goOn id { h with opened := update h.opened mxc none } (.adopt mxc :: rest)
  | .adopt mxc =>
      match answer with
      | .yes => (s.touch id mxc .move).goOn id h (.recordFinished mxc :: rest)
      | .error => (s.touch id mxc .move).goOn id h (.resetUnfinished mxc :: rest)
      | _ => s
  | .recordFinished mxc =>
      match answer with
      | .yes => s.goOn id h (.releaseFinished mxc .complete :: rest)
      | .error => s.goOn id h (.releaseFinished mxc .failed :: rest)
      | _ => s
  | .resetUnfinished mxc =>
      { s.touch id mxc .reset with discards := s.discards ++ [Cause.notFinished] }.goOn id h
        (.releaseFinished mxc .failed :: rest)
  | .releaseFinished mxc jobEnd =>
      (s.release id mxc).goOn id h (.answerSeeks mxc :: .endJob mxc jobEnd :: rest)
  | .answerSeeks mxc => s.goOn id (h.dropRequests mxc) rest
  | .failMedia mxc discard =>
      let h := h.dropRequests mxc
      match h.opened mxc, discard with
      | some _, some cause =>
          s.takeOpen id h mxc (.discard mxc cause :: .cacheReset mxc :: .endIfRunning mxc :: rest)
      | _, _ => s.takeOpen id h mxc (.endIfRunning mxc :: rest)
  | .discard mxc cause =>
      { s.touch id mxc .delete with discards := s.discards ++ [cause] }.goOn id h rest
  | .cacheReset mxc => (s.touch id mxc .reset).goOn id h rest
  | .endIfRunning mxc =>
      if (h.downloading mxc).isSome then s.goOn id h (.endJob mxc .failed :: rest)
      else s.goOn id h rest
  | .endJob mxc jobEnd =>
      s.goOn id { h.dropWaiters mxc with downloading := update h.downloading mxc none }
        (.closeCancelled mxc jobEnd (h.waitersOf mxc) :: rest)
  | .closeCancelled mxc jobEnd waiters =>
      if jobEnd = .cancelled ∧ !h.isBusy mxc then
        s.takeOpen id h mxc (.answer jobEnd waiters :: rest)
      else
        s.goOn id h (.answer jobEnd waiters :: rest)
  | .answer jobEnd waiters => (s.answerAll jobEnd waiters).goOn id h rest
  | .seekComplete mxc index =>
      match answer with
      | .yes => s.goOn id h rest
      | .no =>
          let h := { h with
            seekOnly := update h.seekOnly mxc ((h.seekOnly mxc).or (some false)) }
          s.goOn id (h.requestSeekChunk mxc index false) rest
      | _ => s
  | .closeFiles =>
      { s with
        claims := fun mxc =>
          if s.claims mxc = some id ∧ ((h.opened mxc).isSome ∨ h.opening mxc) then none
          else s.claims mxc }.goOn id
        { h with opened := fun _ => none, opening := fun _ => false } (.closeQueue :: rest)
  | .closeQueue =>
      s.goOn id
        { h with
          inbox := []
          preparing := fun _ => none
          downloading := fun _ => none
          waiters := []
          closed := true }
        (.answer .failed (h.waiters.map Prod.snd) :: rest)

/-- The job of the file goes on, when it is among those that wait. -/
def mainGoesOn (mxc : String) (waiters : List Waiting) : List Frame :=
  if .main ∈ waiters then [.continueMain mxc] else []

/-- A job that waits for the request fails, and the file is thrown away when there is a
reason to. -/
def mainFails (mxc : String) (waiters : List Waiting) : List Frame :=
  if .main ∈ waiters then [.failMedia mxc none] else []

def infoArrived (s : State) (id : Nat) (h : Handler) (mxc : String) (entry : InFlight)
    (reply : Reply) : State :=
  let again := h.resend entry.request entry.waiters { entry.retries with badReplies := 1 }
  let accepted (h : Handler) (present : List Nat) : State :=
    s.goOn id (h.requestSeeks mxc present entry.waiters) (mainGoesOn mxc entry.waiters)
  match h.opened mxc, h.seekOnly mxc, reply with
  | some _, _, .info present =>
      accepted { h with opened := update h.opened mxc (some true) } present
  | some _, _, .broken =>
      if entry.retries.badReplies = 0 then s.goOn id again []
      else s.goOn id h [.failMedia mxc (some .infoUnreadable)]
  | some _, _, .infoMismatch => s.goOn id h [.failMedia mxc (some .infoMismatch)]
  | none, some _, .info present =>
      accepted { h with seekOnly := update h.seekOnly mxc (some true) } present
  | none, some _, .broken =>
      if entry.retries.badReplies = 0 then s.goOn id again []
      else s.goOn id { h with seekOnly := update h.seekOnly mxc none } []
  | none, some _, .infoMismatch =>
      s.goOn id { h with seekOnly := update h.seekOnly mxc none } []
  | _, _, _ => s.goOn id h []

def chunkArrived (s : State) (id : Nat) (h : Handler) (mxc : String) (entry : InFlight)
    (reply : Reply) : State :=
  let again := h.resend entry.request entry.waiters { entry.retries with badReplies := 1 }
  match h.opened mxc, h.seekOnly mxc, reply with
  | some true, _, .chunk isNext stored =>
      if .main ∈ entry.waiters ∧ isNext then
        (s.touch id mxc .write).goOn id h
          (if stored then mainGoesOn mxc entry.waiters else [.failMedia mxc none])
      else
        (s.touch id mxc .writeSeek).goOn id h (mainGoesOn mxc entry.waiters)
  | some false, _, .chunk _ _ => s.goOn id h [.failMedia mxc (some .chunkTooEarly)]
  | some _, _, .broken =>
      if entry.retries.badReplies = 0 then s.goOn id again []
      else s.goOn id h [.failMedia mxc (some .chunkBroken)]
  | none, some false, .chunk _ _ =>
      s.goOn id { h with seekOnly := update h.seekOnly mxc none } []
  | none, some _, .broken =>
      if entry.retries.badReplies = 0 then s.goOn id again []
      else s.goOn id { h with seekOnly := update h.seekOnly mxc none } []
  | _, _, _ => s.goOn id h []

/-- A reply fits a request that it can be the reply to. -/
def fits : Request → Reply → Bool
  | .info _, .chunk _ _ | .chunk _ _, .info _ | .chunk _ _, .infoMismatch => false
  | _, _ => true

/-- The result of a request. What nobody waits for any more is dropped. -/
def handleReply (s : State) (id : Nat) (h : Handler) (request : Request) (reply : Reply) : State :=
  let h := { h with sent := h.sent.erase request }
  match h.inFlight.find? fun entry => entry.request = request with
  | none => s.goOn id h []
  | some entry =>
      let h := { h with inFlight := h.inFlight.filter fun other => other.request ≠ request }
      match reply with
      | .network =>
          s.goOn id
            (if .main ∈ entry.waiters then h.resend request [.main] entry.retries else h) []
      | .timeout =>
          if entry.retries.timeouts + 1 < timeoutAttempts then
            s.goOn id (h.resend request entry.waiters
              { entry.retries with timeouts := entry.retries.timeouts + 1 }) []
          else
            s.goOn id h (mainFails request.mxc entry.waiters)
      | .corrupt =>
          if entry.retries.badReplies = 0 then
            s.goOn id (h.resend request entry.waiters { entry.retries with badReplies := 1 }) []
          else
            s.goOn id h (mainFails request.mxc entry.waiters)
      | .refused => s.goOn id h [.failMedia request.mxc (some .refused)]
      | .other => s.goOn id h (mainFails request.mxc entry.waiters)
      | _ =>
          match request with
          | .info mxc => s.infoArrived id h mxc entry reply
          | .chunk mxc _ => s.chunkArrived id h mxc entry reply

/-- A job that was cancelled ends when its request has not been sent yet. -/
def handleCancellation (s : State) (id : Nat) (h : Handler) (mxc : String) : State :=
  match h.mainRequest mxc with
  | none => s.goOn id h [.endJob mxc .cancelled]
  | some entry =>
      if entry.request ∈ h.queue then
        let others := entry.waiters.filter fun waiting => waiting ≠ .main
        let h := { h with
          queue := h.queue.erase entry.request
          inFlight := h.inFlight.filter fun other => other.request ≠ entry.request }
        s.goOn id (if others = [] then h else h.resend entry.request others entry.retries)
          [.endJob mxc .cancelled]
      else
        s

/-- What is taken back before it was started is answered at once. -/
def cancel (s : State) (id : Nat) (h : Handler) (mxc : String) : State :=
  if (h.downloading mxc).isSome then
    s.setHandler id { h with downloading := update h.downloading mxc (some true) }
  else if (h.preparing mxc).isSome then
    s.setHandler id { h with preparing := update h.preparing mxc (some true) }
  else if mxc ∈ h.inbox then
    (s.answerAll .cancelled (h.waitersOf mxc)).setHandler id
      { h.dropWaiters mxc with inbox := h.inbox.filter fun job => job ≠ mxc }
  else
    s

/-- Where a handler waits for something, and can be taken down. -/
def isWaiting : List Frame → Bool
  | [] | .findComplete _ :: _ | .beginRow _ :: _ | .recordFinished _ :: _ | .answerSeeks _ :: _
  | .seekComplete _ _ :: _ => true
  | _ => false

def step (s : State) : Action → State
  | .enqueue call id mxc waits =>
      match s.calls call with
      | some _ => s
      | none =>
          let target := (s.findOtherDownloader id mxc).getD id
          { s with
            calls := update s.calls call
              (some { target := target, mxc := mxc, waits := waits, entered := false }) }
  | .enter call =>
      match s.calls call with
      | some { target, mxc, waits, entered := false } =>
          { s with
            calls := update s.calls call
              (some { target := target, mxc := mxc, waits := waits, entered := true }) }.setHandler
            target ((s.handlers target).enqueueInto mxc (if waits then [call] else []))
      | _ => s
  | .cancel id mxc => s.cancel id (s.handlers id) mxc
  | .stop id => s.setHandler id { s.handlers id with stopped := true }
  | .abort id =>
      let h := s.handlers id
      if h.stopped ∧ !h.closed ∧ isWaiting h.frames then s.goOn id h [.closeFiles] else s
  | .processInbox id =>
      let h := s.handlers id
      match h.frames, h.closed, h.inbox with
      | [], false, mxc :: inbox =>
          s.goOn id { h with inbox := inbox, preparing := update h.preparing mxc (some false) }
            [.prepareDownload mxc, .leavePreparing mxc]
      | _, _, _ => s
  | .processSeek id mxc index present =>
      let h := s.handlers id
      match h.frames, h.closed with
      | [], false =>
          if (h.opened mxc).isSome then s.goOn id (h.requestSeekChunk mxc index present) []
          else s.goOn id h [.seekComplete mxc index]
      | _, _ => s
  | .handleCancellation id mxc =>
      let h := s.handlers id
      match h.frames, h.closed, h.downloading mxc with
      | [], false, some true => s.handleCancellation id h mxc
      | _, _, _ => s
  | .closeIdle id =>
      let h := s.handlers id
      match h.frames, h.closed with
      | [], false =>
          { s with
            claims := fun mxc =>
              if s.claims mxc = some id ∧ h.isIdle mxc then none else s.claims mxc }.setHandler id
            { h with opened := fun mxc => if h.isIdle mxc then none else h.opened mxc }
      | _, _ => s
  | .forgetSeek id mxc =>
      let h := s.handlers id
      match h.frames, h.closed, h.isBusy mxc with
      | [], false, false =>
          s.setHandler id { h with seekOnly := update h.seekOnly mxc none }
      | _, _, _ => s
  | .send id =>
      let h := s.handlers id
      match h.queue with
      | [] => s
      | request :: queue => s.setHandler id { h with queue := queue, sent := h.sent ++ [request] }
  | .handleReply id request reply =>
      let h := s.handlers id
      match h.frames, h.closed with
      | [], false =>
          if request ∈ h.sent ∧ fits request reply then s.handleReply id h request reply else s
      | _, _ => s
  | .run id answer =>
      let h := s.handlers id
      match h.frames with
      | [] => s
      | frame :: rest => s.advance id h answer rest frame

end State

end DownloadQueue
end WbfMatrixClient
