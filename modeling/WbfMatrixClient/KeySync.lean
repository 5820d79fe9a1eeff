import WbfMatrixClient.ToDevice

/-!
# Keeping the keys in step

The task behind the keys line. What the server pushes is imported, and when something
may have been missed the queue is pulled. The reports of what was imported are handed
to the step that decrypts, with the new room keys, what is stored and could not be read.

What a call returns when it fails is a message to the user. Topping up one-time keys,
following verifications and the backup work on other data and are left out.
-/

namespace WbfMatrixClient

/-- What the subscription tells next. -/
inductive KeyEvent where
  | push (gap : Bool) (items : List (UInt64 × Json))
  | cryptoState (gap : Bool)
  | acknowledged
  | timeout
  | unreadable
  | ended

/-- A line that can be used, with what its server can do. -/
structure KeysLine where
  features : Option (List String)

/-- What happens around one event: whether the line is there, and how the calls go. -/
structure EventCourse where
  line : Option KeysLine
  importing : ImportCourse
  pullLine : Option KeysLine
  pulling : Nat → WindowCourse

structure KeySync where
  world : DeviceWorld
  running : Bool
  needsPull : Bool
  /-- The reports that were handed over to be decrypted with, call by call. -/
  handed : List (List ImportReport)

namespace KeySync

def fresh : KeySync :=
  { world := .fresh, running := false, needsPull := false, handed := [] }

def decryptWhatTheKeysOpen (s : KeySync) (reports : List ImportReport) : KeySync :=
  { s with handed := s.handed ++ [reports] }

section Steps

variable (packages : ToDevicePackages)

/-- The line has been opened: the queue is pulled before the task starts. -/
def initKeys (features : Option (List String)) (course : Nat → WindowCourse) (s : KeySync) :
    KeySync :=
  match pullToDevice packages features course s.world with
  | (world, .error _) => { s with world := world }
  | (world, .ok reports) =>
      { ({ s with world := world }).decryptWhatTheKeysOpen reports with
        running := true, needsPull := false }

/-- A batch that was pushed. -/
def importPushed (line : Option KeysLine) (course : ImportCourse)
    (items : List (UInt64 × Json)) (s : KeySync) : KeySync × Bool :=
  match line with
  | none => (s, false)
  | some line =>
      match importItems packages line.features course items s.world with
      | (world, .error _) => ({ s with world := world }, false)
      | (world, .ok report) =>
          (({ s with world := world }).decryptWhatTheKeysOpen [report], true)

/-- From the head of the queue until there is no more. -/
def pull (line : Option KeysLine) (course : Nat → WindowCourse) (s : KeySync) :
    KeySync × Bool :=
  match line with
  | none => (s, false)
  | some line =>
      match pullToDevice packages line.features course s.world with
      | (world, .error _) => ({ s with world := world }, false)
      | (world, .ok reports) =>
          (({ s with world := world }).decryptWhatTheKeysOpen reports, true)

/-- One event. A batch behind a gap is not imported, since the queue is pulled. -/
def onEvent (course : EventCourse) (s : KeySync) : KeyEvent → KeySync
  | .push gap items =>
      if gap then
        { s with needsPull := true }
      else
        match importPushed packages course.line course.importing items s with
        | (s, done) => { s with needsPull := s.needsPull || !done }
  | .cryptoState gap => { s with needsPull := s.needsPull || gap }
  | .acknowledged => s
  | .timeout => s
  | .unreadable => { s with needsPull := true }
  | .ended => { s with running := false }

def pullWhenNeeded (course : EventCourse) (s : KeySync) : KeySync :=
  if s.running && s.needsPull then
    match pull packages course.pullLine course.pulling s with
    | (s, caughtUp) => { s with needsPull := !caughtUp }
  else
    s

/-- The loop of the task, once around. -/
def next (takenGap : Bool) (event : KeyEvent) (course : EventCourse) (s : KeySync) : KeySync :=
  if s.running then
    pullWhenNeeded packages course
      (onEvent packages course { s with needsPull := s.needsPull || takenGap } event)
  else
    s

end Steps

end KeySync

end WbfMatrixClient
