import Mathlib.Data.UInt
import WbfMatrixClient.Batches
import WbfMatrixClient.Lib.Runs
import WbfMatrixClient.Lib.Table

/-!
# The request line

A line takes actions, sends one request for each and hands the action back with what
came of its request. A sender takes the first action that is queued, borrows a link
that is open, draws the link's next number and sends. It does not wait for replies:
for every request that is on the wire a task waits, and what is on the wire is kept in
a map by number. The task takes its request out of the map when it has an answer, and
when the line was silent for too long the sender takes out all of them.

The parts run beside each other, so they are split into the steps between which others
may run. An action is written with the position it was put into the line at, which the
source does not keep: two actions may be equal.
-/

namespace WbfMatrixClient

namespace upload

def create : UInt8 := 0x01

end upload

/-- The answer to one request. Only the answer to a create has an id of its own. -/
def expectAck (value : List UInt8 → Except String Json) (request response : Pack) :
    Except SdkError Pack :=
  if response.kind ≠ .control ∨ response.flags &&& flags.isResponse = 0 then
    .error (.protocol ("response is not a Control response: kind " ++ response.kind.label ++
      " flags " ++ hexByte response.flags))
  else if ¬(response.id = request.id ∨
      (request.kind = .upload ∧ request.subtype = upload.create)) ∨
      response.seq ≠ request.seq then
    .error (.protocol ("response id/seq " ++ toString response.id ++ "/" ++
      toString response.seq ++ " does not echo request " ++ toString request.id ++ "/" ++
      toString request.seq))
  else if response.subtype = control.ack ∨ response.subtype = control.pong then
    .ok response
  else if response.subtype = control.error then
    .error (serverError value response.meta)
  else
    .error (.protocol ("unexpected response subtype " ++ hexByte response.subtype))

namespace RequestLine

universe u

/-- An action, and the position it was put into the line at. -/
abbrev Item (A : Type u) : Type u := A × Nat

structure LineReply (A : Type u) where
  item : Item A
  result : Except SdkError Pack
deriving DecidableEq

/-- A link is closed or not, and counts the numbers it has given out. -/
structure WsLink where
  closed : Bool
  nextSeq : UInt32

def firstLineSeq : UInt32 := 2 ^ 31

def WsLink.start : WsLink := { closed := false, nextSeq := firstLineSeq }

/-- The number that is given out stays in the upper half. -/
def WsLink.seq (link : WsLink) : UInt32 := link.nextSeq ||| firstLineSeq

/-- The task that waits for the answer to one request. It has a result when the wait
is over and what is on the wire was not looked at yet. -/
structure Waiting where
  position : Nat
  link : Nat
  seq : UInt32
  pack : Pack
  result : Option (Except SdkError Pack)
deriving DecidableEq

/-- The key in the link's table. -/
def Waiting.key (w : Waiting) : Nat × UInt64 × UInt32 := (w.link, w.pack.id, w.pack.seq)

/-- Where the sender stands. -/
inductive Sender (A : Type u) where
  | idle
  | holding (item : Item A)
  | sending (item : Item A) (link : Nat) (seq : UInt32)

def Sender.items {A : Type u} : Sender A → List (Item A)
  | .idle => []
  | .holding item => [item]
  | .sending item _ _ => [item]

/-- A request that went out. -/
structure Sent (A : Type u) where
  item : Item A
  link : Nat
  pack : Pack

def Sent.key {A : Type u} (sent : Sent A) : Nat × UInt64 × UInt32 :=
  (sent.link, sent.pack.id, sent.pack.seq)

/-- What can become of a request. -/
inductive Outcome where
  | replied (request response : Pack)
  | lost (message : String)
  | notSent (error : SdkError)
  | silent (message : String)
deriving DecidableEq

def Outcome.result (value : List UInt8 → Except String Json) : Outcome → Except SdkError Pack
  | .replied request response => expectAck value request response
  | .lost message => .error (.network message)
  | .notSent error => .error error
  | .silent message => .error (.timeout message)

/-- The line with its links. What was put in, what was withdrawn, what went out and
what became of it is written down on the way. -/
structure Line (A : Type u) where
  queued : List (Item A)
  sender : Sender A
  link : Option Nat
  links : Nat → WsLink
  requests : List (UInt32 × Item A)
  waiting : List Waiting
  replies : List (LineReply A)
  pushed : List A
  withdrawn : List (Item A)
  sent : List (Sent A)
  outcomes : List (Nat × Outcome)

def Line.start (A : Type u) : Line A :=
  { queued := [], sender := .idle, link := none, links := fun _ => .start, requests := [],
    waiting := [], replies := [], pushed := [], withdrawn := [], sent := [], outcomes := [] }

/-- How the link's sending of a request ends. -/
inductive SendResult where
  | ok
  | numberTaken
  | error (error : SdkError)

inductive Action (A : Type u) where
  | pushBack (action : A)
  | pushFront (action : A)
  | withdraw (action : A)
  /-- The tasks that are past their wait when the others are aborted. -/
  | timeOutIfSilent (running : List Nat)
  | popFront
  | findLink (found : Option Nat)
  | sendRequest (result : SendResult)
  /-- The server's answer to the request of a position. -/
  | answer (position : Nat) (response : Pack)
  | close (link : Nat)
  /-- A closed link fails an entry of its table. -/
  | fail (waiting : Waiting) (message : String)
  | handBack (waiting : Waiting)
  /-- Another user of the link draws a number. -/
  | nextSeq (link : Nat)

namespace Line

variable {A : Type u} [DecidableEq A]

def setLink (s : Line A) (link : Nat) (f : WsLink → WsLink) : Line A :=
  { s with links := Function.update s.links link (f (s.links link)) }

def pushBack (s : Line A) (action : A) : Line A :=
  { s with
    queued := s.queued ++ [(action, s.pushed.length)]
    pushed := s.pushed ++ [action] }

def pushFront (s : Line A) (action : A) : Line A :=
  { s with
    queued := (action, s.pushed.length) :: s.queued
    pushed := s.pushed ++ [action] }

/-- Every action that is equal is taken out of the queue. -/
def withdraw (s : Line A) (action : A) : Line A :=
  { s with
    queued := s.queued.filter fun item => item.1 ≠ action
    withdrawn := s.withdrawn ++ s.queued.filter fun item => item.1 = action }

/-- Everything that is on the wire is handed back, and the tasks stop waiting. -/
def timeOutIfSilent (message : String) (s : Line A) (running : List Nat) : Line A :=
  if s.requests = [] then
    s
  else
    { s with
      requests := []
      waiting := s.waiting.filter fun w => w.result.isSome ∧ w.position ∈ running
      replies := s.replies ++ s.requests.map fun request =>
        { item := request.2, result := .error (.timeout message) }
      outcomes := s.outcomes ++ s.requests.map fun request =>
        (request.2.2, .silent message) }

def popFront (s : Line A) : Line A :=
  match s.queued with
  | [] => s
  | item :: queued => { s with queued := queued, sender := .holding item }

/-- The link that was used last is used again while it is open. -/
def current (s : Line A) (found : Option Nat) : Option Nat :=
  match s.link with
  | some link => if (s.links link).closed then found else some link
  | none => found

/-- Without a link the action goes back, and with one a number is drawn. -/
def findLink (s : Line A) (item : Item A) (found : Option Nat) : Line A :=
  match s.current found with
  | none => { s with queued := item :: s.queued, sender := .idle, link := none }
  | some link =>
      { s.setLink link fun l => { l with nextSeq := l.nextSeq + 1 } with
        sender := .sending item link (s.links link).seq
        link := none }

/-- The key of a request is refused while someone waits under it. -/
def keyTaken (s : Line A) (link : Nat) (pack : Pack) : Bool :=
  s.waiting.any fun w => w.result.isNone ∧ w.key = (link, pack.id, pack.seq)

/-- The request is written into the map under its number, whatever stood there. -/
def putOnWire (s : Line A) (item : Item A) (link : Nat) (seq : UInt32) (pack : Pack) : Line A :=
  { s with
    sender := .idle
    link := some link
    requests := (seq, item) :: s.requests.filter fun request => request.1 ≠ seq
    waiting := { position := item.2, link := link, seq := seq, pack := pack, result := none } ::
      s.waiting
    sent := { item := item, link := link, pack := pack } :: s.sent }

def putBack (s : Line A) (item : Item A) (link : Nat) : Line A :=
  { s with queued := item :: s.queued, sender := .idle, link := some link }

def sendRequest (toPack : A → UInt32 → Pack) (s : Line A) (item : Item A) (link : Nat)
    (seq : UInt32) : SendResult → Line A
  | .ok =>
      let pack := toPack item.1 seq
      if s.keyTaken link pack then s.putBack item link else s.putOnWire item link seq pack
  | .numberTaken => s.putBack item link
  | .error error =>
      { s with
        sender := .idle
        link := some link
        replies := s.replies ++ [{ item := item, result := .error error }]
        outcomes := (item.2, .notSent error) :: s.outcomes }

/-- The wait of one task is over. -/
def resolve (s : Line A) (w : Waiting) (result : Except SdkError Pack) : Line A :=
  { s with
    waiting := s.waiting.map fun other =>
      if other = w then { w with result := some result } else other }

/-- The link hands the answer to who waits under the key of the request. -/
def answer (s : Line A) (sent : Sent A) (response : Pack) : Line A :=
  let s := { s with outcomes := (sent.item.2, .replied sent.pack response) :: s.outcomes }
  match s.waiting.find? fun w => w.result.isNone ∧ w.key = sent.key with
  | some w => s.resolve w (.ok response)
  | none => s

def fail (s : Line A) (w : Waiting) (message : String) : Line A :=
  if w ∈ s.waiting ∧ w.result = none ∧ (s.links w.link).closed then
    { s with outcomes := (w.position, .lost message) :: s.outcomes }.resolve w
      (.error (.network message))
  else
    s

/-- The task takes out what stands under its number and hands it back. -/
def handBack (value : List UInt8 → Except String Json) (s : Line A) (w : Waiting)
    (result : Except SdkError Pack) : Line A :=
  let s := { s with waiting := s.waiting.filter fun other => other ≠ w }
  match Table.find Prod.fst s.requests w.seq with
  | some request =>
      { s with
        requests := s.requests.filter fun request => request.1 ≠ w.seq
        replies := s.replies ++
          [{ item := request.2, result := result.bind (expectAck value w.pack) }] }
  | none => s

/-- One step of one part. A step that a part does not stand at changes nothing. -/
def step (toPack : A → UInt32 → Pack) (value : List UInt8 → Except String Json)
    (silence : String) (s : Line A) : Action A → Line A
  | .pushBack action => s.pushBack action
  | .pushFront action => s.pushFront action
  | .withdraw action => s.withdraw action
  | .timeOutIfSilent running =>
      match s.sender with
      | .idle => s.timeOutIfSilent ("no response on this line for " ++ silence) running
      | _ => s
  | .popFront =>
      match s.sender with
      | .idle => s.popFront
      | _ => s
  | .findLink found =>
      match s.sender with
      | .holding item => s.findLink item found
      | _ => s
  | .sendRequest result =>
      match s.sender with
      | .sending item link seq => s.sendRequest toPack item link seq result
      | _ => s
  | .answer position response =>
      match s.sent.find? fun sent => sent.item.2 = position with
      | some sent => s.answer sent response
      | none => s
  | .close link => s.setLink link fun l => { l with closed := true }
  | .fail w message => s.fail w message
  | .handBack w =>
      if w ∈ s.waiting then
        match w.result with
        | some result => s.handBack value w result
        | none => s
      else
        s
  | .nextSeq link => s.setLink link fun l => { l with nextSeq := l.nextSeq + 1 }

end Line

end RequestLine
end WbfMatrixClient
