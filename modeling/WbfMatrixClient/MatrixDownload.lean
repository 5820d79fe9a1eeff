import WbfMatrixClient.EventCache
import WbfMatrixClient.Lib.Runs
import WbfMatrixClient.MediaPool

/-!
# The downloads of standard attachments

All accounts of a server share one local copy of an address. A request makes the row of the address
if there is none, is refused where the row describes another file, and is answered with the copy if
there is a complete one. Otherwise it joins the transfer that is registered, or registers one. The
transfer reads the file once from its beginning, answers what is asked of it on the way, looks at
the row again, and has the copy recorded. The row is changed by jobs of the writer in the meantime,
also by those of other events that name the address.

The machine is about one address. The hashes and the cipher come from elsewhere: a piece of an
encrypted file is opened with the bytes of the key stream at its place.
-/

namespace WbfMatrixClient
namespace MatrixDownload

open Function

open MediaPool (segmentSize headerLen lenField tagLen)

def isMatrixHash (hash : String) : Bool :=
  "matrix-sha256:".toList.isPrefixOf hash.toList

/-- A hash that came from an event. -/
def matrixHash (hash : Option String) : Option String :=
  hash.filter isMatrixHash

def isSameMatrixDescription (one other : MediaDescription) : Bool :=
  let sameHash : Bool :=
    match matrixHash one.hash, matrixHash other.hash with
    | some one, some other => one = other
    | none, none => true
    | _, _ => false
  let sameSize : Bool :=
    match one.fileSize, other.fileSize with
    | some one, some other => one = other
    | _, _ => true
  one.kind = other.kind && sameHash && sameSize

def recordedDescription (entry : MediaRow) : MediaDescription where
  kind := entry.kind
  name := none
  mimetype := none
  hash := entry.hash
  fileSize := entry.fileSize
  chunkSize := none

def isSameMatrixFile (entry : MediaRow) (description : MediaDescription) : Bool :=
  isSameMatrixDescription (recordedDescription entry) description

/-- Of the attachments that an account sees, the first of the file that is recorded. -/
def findKeyMatchingRecord (entry : MediaRow) (visible : List MatrixAttachment) :
    Option MatrixAttachment :=
  visible.find? fun attachment =>
    isSameMatrixFile entry (MediaDescription.ofMatrixAttachment attachment)

theorem isSameMatrixDescription_iff (one other : MediaDescription) :
    isSameMatrixDescription one other = true ↔
      one.kind = other.kind ∧ matrixHash one.hash = matrixHash other.hash ∧
        ∀ a b, one.fileSize = some a → other.fileSize = some b → a = b := by
  unfold isSameMatrixDescription
  cases matrixHash one.hash <;> cases matrixHash other.hash <;>
    cases one.fileSize <;> cases other.fileSize <;> simp [and_assoc]

/-- The key of an encrypted file and where its stream begins. -/
structure StreamKey where
  key : Option String
  iv : Option String
deriving DecidableEq

structure Packages where
  blake3 : List UInt8 → String
  /-- The description of an encrypted file can be taken as it is. -/
  accepts : Json → Bool
  keystream : StreamKey → Nat → UInt8
  /-- A ciphertext has the hash that is written so. -/
  hasSha256 : Option String → List UInt8 → Bool

/-- Bytes that stand at a place in the stream, opened or closed. -/
def xorFrom (keystream : Nat → UInt8) (start : Nat) (bytes : List UInt8) : List UInt8 :=
  bytes.mapIdx fun index byte => byte ^^^ keystream (start + index)

theorem xorFrom_append (keystream : Nat → UInt8) (start : Nat) (first second : List UInt8) :
    xorFrom keystream start (first ++ second) =
      xorFrom keystream start first ++ xorFrom keystream (start + first.length) second := by
  have hplace : ∀ index, start + (index + first.length) = start + first.length + index := by omega
  simp only [xorFrom, List.mapIdx_append, hplace]

/-- The key in the description of an encrypted file. -/
def streamKey (file : Json) : StreamKey where
  key := (file.get "key").bind fun key => key.text "k"
  iv := file.text "iv"

def fileHash (file : Json) : Option String :=
  (file.get "hashes").bind fun hashes => hashes.text "sha256"

/-- The file of an encrypted attachment, if the cipher takes its description. -/
def encryptedFile (packages : Packages) (attachment : MatrixAttachment) : Option Json :=
  attachment.file.filter packages.accepts

/-- What a piece of the body gives, after the bytes that came before it. -/
def openPiece (packages : Packages) (attachment : MatrixAttachment) (start : Nat)
    (body : List UInt8) : Option (List UInt8) :=
  match attachment.kind with
  | .matrixEncrypted =>
      (encryptedFile packages attachment).map fun file =>
        xorFrom (packages.keystream (streamKey file)) start body
  | .matrixPlain => some body
  | .wbfChunked => none

/-- What is known of the file at its end. -/
def verifyBody (packages : Packages) (attachment : MatrixAttachment) (body : List UInt8) :
    Verification :=
  match attachment.kind with
  | .matrixEncrypted =>
      if (encryptedFile packages attachment).any fun file => packages.hasSha256 (fileHash file) body
      then .matched else .mismatched
  | _ => .unknown

/-- The row of the address. Its number can be given again when it is gone; the rows that there have
been are counted here, and it is kept with which event the copy was made. -/
structure Row where
  entry : MediaRow
  id : Nat
  made : Nat
  copyOf : Option MatrixAttachment

/-- A row as it is first inserted. -/
def newEntry (mxc : String) (description : MediaDescription) : MediaRow where
  mxc := mxc
  poolFile := none
  name := description.name
  mimetype := description.mimetype
  hash := description.hash
  kind := description.kind
  verified := .unknown
  fileSize := description.fileSize
  chunkSize := description.chunkSize
  segmentsWritten := 0
  complete := false
  bytesOnDisk := 0
  sourceUri := none

namespace Row

def fillHash (row : Row) (description : MediaDescription) : Row :=
  { row with entry := { row.entry with hash := row.entry.hash.or description.hash } }

def finish (row : Row) (attachment : MatrixAttachment) (poolFile : String) (plain : List UInt8)
    (verified : Verification) : Row :=
  let segments := (plain.length + segmentSize - 1) / segmentSize
  { row with
    entry := { row.entry with
      poolFile := some poolFile
      complete := true
      segmentsWritten := segments
      fileSize := some plain.length
      bytesOnDisk := headerLen + segments * (lenField + segmentSize + tagLen)
      verified := verified
      hash := row.entry.hash.or (some ("blake3:" ++ poolFile)) }
    copyOf := some attachment }

def reset (row : Row) : Row :=
  { row with
    entry := { row.entry with
      poolFile := none
      complete := false
      verified := .unknown
      segmentsWritten := 0
      bytesOnDisk := 0 }
    copyOf := none }

end Row

/-- What a file of the pool holds. A file is where its hash says, or there is none. -/
abbrev PoolFiles : Type := String → Option (List UInt8)

/-- The complete copy of a row, if its file is there and is as long as the row says. -/
def openComplete (pool : PoolFiles) (entry : MediaRow) : Option (String × List UInt8) :=
  if entry.complete then
    (entry.poolFile.bind fun name => (pool name).map fun bytes => (name, bytes)).filter
      fun copy => some copy.2.length = entry.fileSize
  else
    none

/-- What waits for an answer: a call that wants to hear of the end, or a read. -/
inductive Channel where
  | wait (call : Nat)
  | read (read : Nat)
deriving DecidableEq

namespace Channel

/-- The channel of a read, of which the position is kept too. -/
def ofRead (read : Nat × Nat) : Channel :=
  .read read.1

end Channel

inductive Answer where
  | piece (start : Nat) (plain : List UInt8)
  | done
  | error
  /-- The channel is closed without an answer. -/
  | closed
deriving DecidableEq

inductive Command where
  | read (read position : Nat)
  | wait (call : Nat)
  | cancel

namespace Command

def asRead : Command → Option (Nat × Nat)
  | .read n position => some (n, position)
  | _ => none

def asWaiter : Command → Option Nat
  | .wait i => some i
  | _ => none

end Command

inductive Outcome where
  | complete (poolFile : String)
  | cancelled
  | failed
deriving DecidableEq

/-- How far a transfer is. From `leaving` on the work is over, from `unregistered` on it can not be
found any more. -/
inductive Phase where
  | starting
  | fetching
  | fetched
  | lookedAgain
  | adopted (poolFile : String)
  | leaving (outcome : Outcome)
  | unregistered (outcome : Outcome)
  | closed (outcome : Outcome)
  | drained (outcome : Outcome)
  | gone (outcome : Outcome)
deriving DecidableEq

structure Transfer where
  attachment : MatrixAttachment
  /-- The number of the row it was started for, which names the pending file. -/
  pendingId : Nat
  made : Nat
  inbox : List Command
  reads : List (Nat × Nat)
  waiters : List Nat
  body : List UInt8
  plain : List UInt8
  phase : Phase

namespace Phase

/-- The download is at work. -/
def isWorking : Phase → Bool
  | .starting | .fetching | .fetched | .lookedAgain | .adopted _ => true
  | _ => false

/-- The transfer is in the registry. -/
def isRegistered : Phase → Bool
  | .leaving _ => true
  | phase => phase.isWorking

theorem isRegistered_of_isWorking {phase : Phase} (h : phase.isWorking = true) :
    phase.isRegistered = true := by cases phase <;> first | rfl | cases h

/-- The transfer has looked at the row for the last time and has not had it changed yet. -/
def isFinishing : Phase → Bool
  | .lookedAgain | .adopted _ => true
  | _ => false

/-- Commands can still be sent. -/
def isOpen : Phase → Bool
  | .unregistered _ => true
  | phase => phase.isRegistered

end Phase

/-- What a turn of a transfer does to what it shares with others. -/
inductive Effect where
  | nothing
  /-- The job that gives the row up is queued. -/
  | post
  | adopt (poolFile : String) (plain : List UInt8)
  | record (poolFile : String) (plain : List UInt8) (verified : Verification)
  | unregister

structure Turn where
  transfer : Transfer
  replies : List (Channel × Answer)
  effect : Effect

inductive TaskAction where
  | start
  /-- A piece of the body comes; of the reads that can be answered then, so many are before one
  fails. -/
  | piece (body : List UInt8) (fault : Option Nat)
  | command (fault : Option Nat)
  | endFetch
  | lookAgain
  | adopt
  | record
  /-- What is being done fails. -/
  | fail
  | unregister
  | close
  | drain
  | answerRest
deriving DecidableEq

/-- The most plain bytes that one read gets. -/
def pieceLen : Nat := 65536

def sealedPlainLen (plain : List UInt8) : Nat :=
  plain.length / segmentSize * segmentSize

/-- The bytes from one position up to another. -/
def readRange (plain : List UInt8) (position stop : Nat) : List UInt8 :=
  (plain.drop position).take (stop - position)

def readFromPool (pool : PoolFiles) (poolFile : String) (position : Nat) : Answer :=
  match pool poolFile with
  | some plain =>
      if plain.length ≤ position then .error
      else .piece position (readRange plain position (min plain.length (position + pieceLen)))
  | none => .error

namespace Transfer

def description (t : Transfer) : MediaDescription :=
  MediaDescription.ofMatrixAttachment t.attachment

/-- The work is over, and an unfinished file is given up. -/
def leave (t : Transfer) (outcome : Outcome) (replies : List (Channel × Answer)) : Turn where
  transfer := { t with phase := .leaving outcome }
  replies := replies
  effect :=
    match outcome with
    | .complete _ => .nothing
    | _ => .post

/-- The reads that what is written already covers are answered. -/
def answerReads (t : Transfer) (fault : Option Nat) : Turn :=
  let sealed := sealedPlainLen t.plain
  let ready := t.reads.filter fun read => read.2 < sealed
  let t := { t with reads := t.reads.filter fun read => ¬read.2 < sealed }
  let answer (read : Nat × Nat) : Channel × Answer :=
    (.ofRead read,
      .piece read.2 (readRange t.plain read.2 (min sealed (read.2 + pieceLen))))
  match fault with
  | none => ⟨t, ready.map answer, .nothing⟩
  | some count =>
      t.leave .failed ((ready.take count).map answer ++
        (ready.drop count).map fun read => (.ofRead read, .closed))

/-- What came in too late to be served before the end. -/
def drainInbox (t : Transfer) : Transfer :=
  { t with
    inbox := []
    reads := t.reads ++ t.inbox.filterMap Command.asRead
    waiters := t.waiters ++ t.inbox.filterMap Command.asWaiter }

def restAnswers (t : Transfer) (pool : PoolFiles) (outcome : Outcome) : List (Channel × Answer) :=
  match outcome with
  | .complete poolFile =>
      t.reads.map (fun read => (.ofRead read, readFromPool pool poolFile read.2)) ++
        t.waiters.map fun call => (.wait call, .done)
  | _ =>
      t.reads.map (fun read => (.ofRead read, .error)) ++
        t.waiters.map fun call => (.wait call, .error)

/-- The check at the beginning: the row may be gone, another one, or complete already. -/
def start (t : Transfer) (row : Option Row) (pool : PoolFiles) : Turn :=
  match row.filter fun row => isSameMatrixFile row.entry t.description with
  | none => t.leave .failed []
  | some row =>
      match openComplete pool row.entry with
      | some (poolFile, plain) => { t with plain := plain }.leave (.complete poolFile) []
      | none => ⟨{ t with phase := .fetching }, [], .nothing⟩

/-- The row is still the one that the transfer was started for. -/
def isStillOurRow (t : Transfer) (row : Option Row) : Bool :=
  row.any fun row => row.id = t.pendingId ∧ isSameMatrixFile row.entry t.description

/-- The next command is taken while the body is being read. -/
def takeCommand (t : Transfer) (fault : Option Nat) : Option Turn :=
  match t.inbox with
  | [] => none
  | .read read position :: rest =>
      some ({ t with inbox := rest, reads := t.reads ++ [(read, position)] }.answerReads fault)
  | .wait call :: rest =>
      some ⟨{ t with inbox := rest, waiters := t.waiters ++ [call] }, [], .nothing⟩
  | .cancel :: rest => some ({ t with inbox := rest }.leave .cancelled [])

/-- What a transfer does next, if it can. -/
def turn (packages : Packages) (row : Option Row) (pool : PoolFiles) (t : Transfer) :
    TaskAction → Option Turn
  | .start => if t.phase = .starting then some (t.start row pool) else none
  | .piece body fault =>
      if t.phase = .fetching then
        (openPiece packages t.attachment t.body.length body).map fun plain =>
          { t with body := t.body ++ body, plain := t.plain ++ plain }.answerReads fault
      else
        none
  | .command fault => if t.phase = .fetching then t.takeCommand fault else none
  | .endFetch =>
      if t.phase = .fetching ∧ (openPiece packages t.attachment t.body.length []).isSome ∧
          t.attachment.size.all (· = t.plain.length) then
        some ⟨{ t with phase := .fetched }, [], .nothing⟩
      else
        none
  | .lookAgain =>
      if t.phase = .fetched then
        if t.isStillOurRow row then some ⟨{ t with phase := .lookedAgain }, [], .nothing⟩
        else some (t.leave .failed [])
      else
        none
  | .adopt =>
      if t.phase = .lookedAgain ∧ t.plain ≠ [] then
        let poolFile := packages.blake3 t.plain
        some ⟨{ t with phase := .adopted poolFile }, [], .adopt poolFile t.plain⟩
      else
        none
  | .record =>
      match t.phase with
      | .adopted poolFile =>
          some ⟨{ t with phase := .leaving (.complete poolFile) }, [],
            .record poolFile t.plain (verifyBody packages t.attachment t.body)⟩
      | _ => none
  | .fail => if t.phase.isWorking then some (t.leave .failed []) else none
  | .unregister =>
      match t.phase with
      | .leaving outcome => some ⟨{ t with phase := .unregistered outcome }, [], .unregister⟩
      | _ => none
  | .close =>
      match t.phase with
      | .unregistered outcome => some ⟨{ t with phase := .closed outcome }, [], .nothing⟩
      | _ => none
  | .drain =>
      match t.phase with
      | .closed outcome => some ⟨{ t.drainInbox with phase := .drained outcome }, [], .nothing⟩
      | _ => none
  | .answerRest =>
      match t.phase with
      | .drained outcome =>
          some ⟨{ t with reads := [], waiters := [], phase := .gone outcome },
            t.restAnswers pool outcome, .nothing⟩
      | _ => none

/-- The turns that there are. -/
inductive HasTurn (packages : Packages) (row : Option Row) (pool : PoolFiles) (t : Transfer) :
    TaskAction → Turn → Prop where
  | start (hphase : t.phase = .starting) :
      HasTurn packages row pool t .start (t.start row pool)
  | piece (body plain : List UInt8) (fault : Option Nat)
      (hphase : t.phase = .fetching)
      (hplain : openPiece packages t.attachment t.body.length body = some plain) :
      HasTurn packages row pool t (.piece body fault)
        ({ t with body := t.body ++ body, plain := t.plain ++ plain }.answerReads fault)
  | command (fault : Option Nat) {turn : Turn}
      (hphase : t.phase = .fetching)
      (hturn : t.takeCommand fault = some turn) :
      HasTurn packages row pool t (.command fault) turn
  | endFetch
      (hphase : t.phase = .fetching)
      (hfile : (openPiece packages t.attachment t.body.length []).isSome)
      (hsize : t.attachment.size.all (· = t.plain.length)) :
      HasTurn packages row pool t .endFetch ⟨{ t with phase := .fetched }, [], .nothing⟩
  | lookAgain
      (hphase : t.phase = .fetched)
      (hrow : t.isStillOurRow row) :
      HasTurn packages row pool t .lookAgain ⟨{ t with phase := .lookedAgain }, [], .nothing⟩
  | lost
      (hphase : t.phase = .fetched) :
      HasTurn packages row pool t .lookAgain (t.leave .failed [])
  | adopt
      (hphase : t.phase = .lookedAgain)
      (hplain : t.plain ≠ []) :
      HasTurn packages row pool t .adopt
        ⟨{ t with phase := .adopted (packages.blake3 t.plain) }, [],
          .adopt (packages.blake3 t.plain) t.plain⟩
  | record {poolFile : String}
      (hphase : t.phase = .adopted poolFile) :
      HasTurn packages row pool t .record
        ⟨{ t with phase := .leaving (.complete poolFile) }, [],
          .record poolFile t.plain (verifyBody packages t.attachment t.body)⟩
  | fail
      (hphase : t.phase.isWorking) :
      HasTurn packages row pool t .fail (t.leave .failed [])
  | unregister {outcome : Outcome}
      (hphase : t.phase = .leaving outcome) :
      HasTurn packages row pool t .unregister
        ⟨{ t with phase := .unregistered outcome }, [], .unregister⟩
  | close {outcome : Outcome}
      (hphase : t.phase = .unregistered outcome) :
      HasTurn packages row pool t .close ⟨{ t with phase := .closed outcome }, [], .nothing⟩
  | drain {outcome : Outcome}
      (hphase : t.phase = .closed outcome) :
      HasTurn packages row pool t .drain
        ⟨{ t.drainInbox with phase := .drained outcome }, [], .nothing⟩
  | answerRest {outcome : Outcome}
      (hphase : t.phase = .drained outcome) :
      HasTurn packages row pool t .answerRest
        ⟨{ t with reads := [], waiters := [], phase := .gone outcome },
          t.restAnswers pool outcome, .nothing⟩

theorem turn_cases {packages : Packages} {row : Option Row} {pool : PoolFiles} {t : Transfer}
    {action : TaskAction} {turn : Turn} (h : t.turn packages row pool action = some turn) :
    HasTurn packages row pool t action turn := by
  unfold Transfer.turn at h
  cases action with
  | start =>
    obtain ⟨hphase, hturn⟩ := Option.ite_none_right_eq_some.mp h
    exact (Option.some.inj hturn) ▸ .start hphase
  | piece body fault =>
    obtain ⟨hphase, hturn⟩ := Option.ite_none_right_eq_some.mp h
    obtain ⟨plain, hplain, hturn⟩ := Option.map_eq_some_iff.mp hturn
    exact hturn ▸ .piece body plain fault hphase hplain
  | command fault =>
    obtain ⟨hphase, hturn⟩ := Option.ite_none_right_eq_some.mp h
    exact .command fault hphase hturn
  | endFetch =>
    obtain ⟨⟨hphase, hfile, hsize⟩, hturn⟩ := Option.ite_none_right_eq_some.mp h
    exact (Option.some.inj hturn) ▸ .endFetch hphase hfile hsize
  | lookAgain =>
    obtain ⟨hphase, hturn⟩ := Option.ite_none_right_eq_some.mp h
    split at hturn
    · rename_i hrow
      exact (Option.some.inj hturn) ▸ .lookAgain hphase hrow
    · exact (Option.some.inj hturn) ▸ .lost hphase
  | adopt =>
    obtain ⟨⟨hphase, hplain⟩, hturn⟩ := Option.ite_none_right_eq_some.mp h
    exact (Option.some.inj hturn) ▸ .adopt hphase hplain
  | record =>
    cases hphase : t.phase <;> simp only [hphase, reduceCtorEq] at h
    exact (Option.some.inj h) ▸ .record hphase
  | fail =>
    obtain ⟨hphase, hturn⟩ := Option.ite_none_right_eq_some.mp h
    exact (Option.some.inj hturn) ▸ .fail hphase
  | unregister =>
    cases hphase : t.phase <;> simp only [hphase, reduceCtorEq] at h
    exact (Option.some.inj h) ▸ .unregister hphase
  | close =>
    cases hphase : t.phase <;> simp only [hphase, reduceCtorEq] at h
    exact (Option.some.inj h) ▸ .close hphase
  | drain =>
    cases hphase : t.phase <;> simp only [hphase, reduceCtorEq] at h
    exact (Option.some.inj h) ▸ .drain hphase
  | answerRest =>
    cases hphase : t.phase <;> simp only [hphase, reduceCtorEq] at h
    exact (Option.some.inj h) ▸ .answerRest hphase

end Transfer

inductive CallPhase where
  | asked
  | begun
  /-- There is no complete copy. -/
  | absent
  | attached (transfer : Nat)
  | complete
  | refused
deriving DecidableEq

/-- A request for the file of an event. -/
structure Call where
  attachment : MatrixAttachment
  waits : Bool
  phase : CallPhase
  /-- The row as the job of the request has found or made it. -/
  seen : Option Row

structure ReadCall where
  transfer : Nat
  position : Nat

/-- The result of a transfer that was put on a row. -/
structure Record where
  attachment : MatrixAttachment
  made : Nat
  row : Row

/-- A request that was answered with a complete file, and what was said about it. -/
structure Served where
  attachment : MatrixAttachment
  plain : List UInt8
  verified : Verification

structure State where
  row : Option Row
  /-- How many rows there have been. -/
  made : Nat
  pool : PoolFiles
  transfers : Nat → Option Transfer
  registered : Option Nat
  calls : Nat → Option Call
  reads : Nat → Option ReadCall
  answers : Channel → List Answer
  /-- The jobs that are queued to give the row up, by the number of the row. -/
  resets : List Nat
  /-- A job that deletes the row is running, and these pending files were in use when it looked. -/
  deleting : Option (List Nat)
  records : List Record
  served : List Served

inductive Action where
  /-- An event that names the address arrives. The number is for a row that is not there yet. -/
  | arrive (description : MediaDescription) (id : Nat)
  | ask (call : Nat) (attachment : MatrixAttachment) (waits : Bool)
  /-- Only the address is given: an attachment that the account sees is picked. -/
  | askAddress (call : Nat) (visible : List MatrixAttachment) (waits : Bool)
  | begin (call id : Nat)
  | look (call : Nat)
  | register (call transfer : Nat)
  | giveUp (call : Nat)
  /-- The row is read again, and the copy is given to the one who has asked. -/
  | readCopy (call : Nat)
  | read (read transfer position : Nat)
  | cancel (transfer : Nat)
  | task (transfer : Nat) (action : TaskAction)
  | reset
  /-- The copy is given up, because it is damaged or was only made to be exported. -/
  | giveUpCopy
  | deleteLook (others : List Nat)
  | deleteRun (removesFile : Bool)
  /-- Another download puts a file into the pool. -/
  | keepFile (plain : List UInt8)
  | removeFile (name : String)
  | restart

namespace State

def start : State where
  row := none
  made := 0
  pool := fun _ => none
  transfers := fun _ => none
  registered := none
  calls := fun _ => none
  reads := fun _ => none
  answers := fun _ => []
  resets := []
  deleting := none
  records := []
  served := []

def setTransfer (s : State) (n : Nat) (t : Transfer) : State :=
  { s with transfers := update s.transfers n (some t) }

def setCall (s : State) (i : Nat) (call : Call) : State :=
  { s with calls := update s.calls i (some call) }

def give (s : State) (replies : List (Channel × Answer)) : State :=
  { s with
    answers := fun channel =>
      s.answers channel ++ (replies.filter fun reply => reply.1 = channel).map Prod.snd }

/-- The call is over with no transfer, and the channel of its waiter is dropped. -/
def settleCall (s : State) (i : Nat) (call : Call) (phase : CallPhase) : State :=
  (s.setCall i { call with phase := phase }).give
    (if call.waits then [(.wait i, .closed)] else [])

/-- The row of the address, made if there is none. A hash that was not known is filled in. -/
def mediaRowId (mxc : String) (s : State) (description : MediaDescription) (id : Nat) : State :=
  match s.row with
  | some row => { s with row := some (row.fillHash description) }
  | none =>
      if description.isValid then
        { s with
          row := some { entry := newEntry mxc description, id := id, made := s.made, copyOf := none }
          made := s.made + 1 }
      else
        s

/-- A file is moved into the pool, where one of its hash may be already. -/
def adopt (s : State) (name : String) (plain : List UInt8) : State :=
  { s with pool := update s.pool name (some ((s.pool name).getD plain)) }

def mediaReset (s : State) : State :=
  { s with row := s.row.map Row.reset }

def mediaFinish (s : State) (t : Transfer) (name : String) (plain : List UInt8)
    (verified : Verification) : State :=
  { s with
    row := s.row.map fun row => row.finish t.attachment name plain verified
    records := s.records ++
      s.row.toList.map fun row => { attachment := t.attachment, made := t.made, row := row } }

def apply (s : State) (t : Transfer) : Effect → State
  | .nothing => s
  | .post => { s with resets := s.resets ++ [t.pendingId] }
  | .adopt poolFile plain => s.adopt poolFile plain
  | .record poolFile plain verified => s.mediaFinish t poolFile plain verified
  | .unregister => { s with registered := none }

/-- The writer is not in the middle of a job. -/
def isWriterFree (s : State) : Bool :=
  s.deleting.isNone

/-- The names of the pending files that transfers are registered for. -/
def listPendingNames (s : State) : List Nat :=
  ((s.registered.bind s.transfers).map Transfer.pendingId).toList

def askFor (mxc : String) (s : State) (i : Nat) (attachment : MatrixAttachment) (waits : Bool) :
    State :=
  if (s.calls i).isNone ∧ attachment.mxc = mxc then
    s.setCall i { attachment := attachment, waits := waits, phase := .asked, seen := none }
  else
    s

/-- A call that has its row looks whether there is a complete copy of it. -/
def lookFor (s : State) (i : Nat) (call : Call) (row : Row) : State :=
  if isSameMatrixFile row.entry (MediaDescription.ofMatrixAttachment call.attachment) then
    match openComplete s.pool row.entry with
    | some (_, plain) =>
        let s := s.settleCall i call .complete
        { s with
          served := s.served ++
            [{ attachment := call.attachment, plain := plain, verified := row.entry.verified }] }
    | none => s.setCall i { call with phase := .absent }
  else
    s.settleCall i call .refused

/-- A call joins the transfer that is registered, or registers one. -/
def registerCall (s : State) (i : Nat) (call : Call) (row : Row) (fresh : Nat) : State :=
  let inbox : List Command := if call.waits then [.wait i] else []
  match s.registered with
  | some n =>
      match s.transfers n with
      | some t =>
          if isSameMatrixDescription t.description
              (MediaDescription.ofMatrixAttachment call.attachment) then
            (s.setTransfer n { t with inbox := t.inbox ++ inbox }).setCall i
              { call with phase := .attached n }
          else
            s.settleCall i call .refused
      | none => s
  | none =>
      if (s.transfers fresh).isNone then
        { ((s.setTransfer fresh
            { attachment := call.attachment, pendingId := row.id, made := row.made,
              inbox := inbox, reads := [], waiters := [], body := [], plain := [],
              phase := .starting }).setCall i { call with phase := .attached fresh }) with
          registered := some fresh }
      else
        s

/-- A call that was answered reads the row again, and takes the copy that is there then. -/
def readAgain (s : State) (call : Call) (row : Row) : State :=
  match openComplete s.pool row.entry with
  | some (_, plain) =>
      { s with
        served := s.served ++
          [{ attachment := call.attachment, plain := plain, verified := row.entry.verified }] }
  | none => s

/-- The transfer has ended well for the call, or there was a complete copy. -/
def isAnswered (s : State) (i : Nat) (call : Call) : Bool :=
  match call.phase with
  | .complete => true
  | .attached _ => .done ∈ s.answers (.wait i)
  | _ => false

/-- A command is sent to a transfer, if it still takes commands. -/
def send (s : State) (n : Nat) (t : Transfer) (command : Command) : State :=
  s.setTransfer n { t with inbox := t.inbox ++ [command] }

def sendRead (s : State) (read n position : Nat) (t : Transfer) : State :=
  let s : State := { s with
    reads := update s.reads read (some { transfer := n, position := position }) }
  if t.phase.isOpen then s.send n t (.read read position)
  else s.give [(.read read, .error)]

end State

section Step

variable (packages : Packages) (mxc : String)

def step (s : State) : Action → State
  | .arrive description id => if s.isWriterFree then s.mediaRowId mxc description id else s
  | .ask i attachment waits => s.askFor mxc i attachment waits
  | .askAddress i visible waits =>
      match s.row.bind fun row => findKeyMatchingRecord row.entry visible with
      | some attachment => s.askFor mxc i attachment waits
      | none => s
  | .begin i id =>
      match s.calls i with
      | some call =>
          if s.isWriterFree ∧ call.phase = .asked then
            let s := s.mediaRowId mxc (MediaDescription.ofMatrixAttachment call.attachment) id
            match s.row with
            | some row => s.setCall i { call with phase := .begun, seen := some row }
            | none => s.settleCall i call .refused
          else
            s
      | none => s
  | .look i =>
      match s.calls i with
      | some call =>
          match call.phase, call.seen with
          | .begun, some row => s.lookFor i call row
          | _, _ => s
      | none => s
  | .register i fresh =>
      match s.calls i with
      | some call =>
          match call.phase, call.seen with
          | .absent, some row => s.registerCall i call row fresh
          | _, _ => s
      | none => s
  | .giveUp i =>
      match s.calls i with
      | some call =>
          match call.phase with
          | .asked | .begun | .absent => s.settleCall i call .refused
          | _ => s
      | none => s
  | .readCopy i =>
      match s.calls i, s.row with
      | some call, some row => if s.isAnswered i call then s.readAgain call row else s
      | _, _ => s
  | .read read n position =>
      match s.transfers n, s.reads read with
      | some t, none => s.sendRead read n position t
      | _, _ => s
  | .cancel n =>
      match s.transfers n with
      | some t => if t.phase.isOpen then s.send n t .cancel else s
      | none => s
  | .task n action =>
      match s.transfers n with
      | some t =>
          if action = .record ∧ ¬s.isWriterFree then
            s
          else
            match t.turn packages s.row s.pool action with
            | some turn =>
                ((s.setTransfer n turn.transfer).give turn.replies).apply turn.transfer turn.effect
            | none => s
      | none => s
  | .reset =>
      match s.resets with
      | id :: rest =>
          if s.isWriterFree then
            let s : State := { s with resets := rest }
            if s.row.any fun row => row.id = id then s.mediaReset else s
          else
            s
      | [] => s
  | .giveUpCopy => if s.isWriterFree then s.mediaReset else s
  | .deleteLook others =>
      if s.isWriterFree then { s with deleting := some (others ++ s.listPendingNames) } else s
  | .deleteRun removesFile =>
      match s.deleting with
      | some inUse =>
          let s : State := { s with deleting := none }
          match s.row with
          | some row =>
              if row.id ∈ inUse then s
              else
                { s with
                  row := none
                  pool :=
                    match row.entry.poolFile with
                    | some name => if removesFile then update s.pool name none else s.pool
                    | none => s.pool }
          | none => s
      | none => s
  | .keepFile plain => s.adopt (packages.blake3 plain) plain
  | .removeFile name => { s with pool := update s.pool name none }
  | .restart =>
      { s with
        transfers := fun _ => none
        registered := none
        calls := fun _ => none
        reads := fun _ => none
        answers := fun _ => []
        resets := []
        deleting := none }

end Step

end MatrixDownload
end WbfMatrixClient
