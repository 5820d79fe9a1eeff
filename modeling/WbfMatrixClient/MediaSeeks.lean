import WbfMatrixClient.Download
import WbfMatrixClient.DownloadQueue
import WbfMatrixClient.MatrixDownload
import WbfMatrixClient.MediaDownload
import WbfMatrixClient.MediaStream

/-!
# Seeking in a file that is being downloaded

The handlers of the accounts of a server share the files of a media id. The one that downloads it
has them open and answers a seek with what it has written; when the file is complete it is read from
the pool; and a handler that only seeks asks the server and keeps nothing. Which chunk has a
position is worked out from the manifest of the open file, from the row of the complete one, or from
the manifest that came with the first seek. A chunk that has to be fetched waits for the description
first, and the state may be another one when it comes.

The machine is about one media id, with the bytes of its files and of the replies. A handler does
one thing after the other; what the jobs of the cache and the sweeps do comes in between. The line
that carries the requests is left out, so a reply may come for any of them, and one round of the
main file may come at any time.
-/

namespace WbfMatrixClient
namespace MediaSeeks

open ByteSource
open DownloadQueue (Retries timeoutAttempts)
open MediaPool (Pool PoolReader Finished)

inductive Request where
  | info
  | chunk (index : Nat)
deriving DecidableEq

/-- Who waits for a request. A read is known by its number. -/
inductive Waiting where
  | main
  | seek (index read : Nat)
deriving DecidableEq

structure InFlight where
  request : Request
  waiters : List Waiting
  retries : Retries

/-- What is in a reply, read as one to either request. -/
structure Ack where
  info : Except SdkError InfoAck
  read : Except SdkError ReadAck
  data : List UInt8

namespace Ack

def infoReply (ack : Ack) : Except SdkError (InfoAck × List UInt8) :=
  ack.info.map fun info => (info, ack.data)

def chunkReply (ack : Ack) (index : Nat) : Except SdkError (List UInt8) :=
  ack.read.bind fun read => readReply read ack.data index

end Ack

/-- The answer to a read. -/
abbrev Answer : Type := Nat × Except SdkError SeekPiece

def isBadReply : SdkError → Bool
  | .protocol _ => true
  | e => e.wbfCode = some .corrupt

def isTimeout : SdkError → Bool
  | .timeout _ => true
  | _ => false

def isPermanentRefusal (e : SdkError) : Bool :=
  e.wbfCode = some .notFound ∨ e.wbfCode = some .forbidden

def downloaderGone : SdkError :=
  .io "the downloader of this account has stopped (logged out?)"

def chunkStart (index chunkSize : Nat) : Nat :=
  index * chunkSize

def chunkIndexAt (position chunkSize : Nat) (mxc : String) : Except SdkError Nat :=
  if chunkSize ≠ 0 ∧ position / chunkSize < 2 ^ 32 then
    .ok (position / chunkSize)
  else
    .error (.usage ("position " ++ toString position ++ " of " ++ mxc ++
      " has no chunk (chunk size " ++ toString chunkSize ++ ")"))

/-- The file of a complete row, if it opens and is as long as the row says. -/
def openComplete (pool : Pool) (finished : List Char → Option (List UInt8)) (entry : MediaRow) :
    Option PoolReader :=
  if entry.complete then
    (((entry.poolFile.bind fun name => finished name.toList).bind fun bytes =>
      (pool.openRead bytes).toOption)).filter fun reader => some reader.plainLen = entry.fileSize
  else
    none

def chunkLayoutOf (entry : MediaRow) : Except SdkError (Nat × Nat) :=
  match entry.chunkSize, entry.fileSize with
  | some chunkSize, some fileSize => .ok (chunkSize, fileSize)
  | _, _ =>
      .error (.usage (entry.mxc ++ " is not a chunked file: it has no chunk size or size"))

/-- A buffer that is not filled is an error. -/
def readExact (pool : Pool) (reader : PoolReader) (start len : Nat) :
    Except SdkError (List UInt8) :=
  match ((PoolReader.source pool).readAt reader start len).2 with
  | .error e => .error e
  | .ok bytes =>
      if bytes.length = len then .ok bytes else .error (.io "failed to fill whole buffer")

def readCompleteChunk (pool : Pool) (finished : List Char → Option (List UInt8)) (entry : MediaRow)
    (index : Nat) : Except SdkError SeekPiece :=
  match chunkLayoutOf entry with
  | .error e => .error e
  | .ok (chunkSize, fileSize) =>
      let start := index * chunkSize
      let stop := min (start + chunkSize) fileSize
      if chunkSize = 0 ∨ stop ≤ start then
        .error (.usage ("chunk " ++ toString index ++ " is past the end of " ++ entry.mxc))
      else
        match openComplete pool finished entry with
        | none => .error (.io (entry.mxc ++ " is no longer in the pool"))
        | some reader =>
            (readExact pool reader start (stop - start)).map fun plain =>
              { start := start, plain := plain }

def mediaBegin (mxc : String) (row : Option MediaRow) (description : MediaDescription) :
    Option MediaRow :=
  match row with
  | some row => some { row with hash := row.hash.or description.hash }
  | none =>
      if description.isValid then some (MatrixDownload.newEntry mxc description) else none

def mediaProgress (row : MediaRow) (segmentsWritten chunkSize : Nat) : MediaRow :=
  { row with
    segmentsWritten := segmentsWritten
    chunkSize := some chunkSize
    complete := false
    verified := .unknown }

def mediaFinish (row : MediaRow) (done : Finished) (verified : Verification) : MediaRow :=
  { row with
    poolFile := some (String.ofList done.hashHex)
    complete := true
    segmentsWritten := done.segments
    fileSize := some done.plainLen
    bytesOnDisk := done.bytesOnDisk
    verified := verified
    hash := row.hash.or (some ("blake3:" ++ String.ofList done.hashHex)) }

def mediaReset (row : MediaRow) : MediaRow :=
  { row with
    poolFile := none
    complete := false
    verified := .unknown
    segmentsWritten := 0
    bytesOnDisk := 0 }

/-- A file that is only sought in. -/
structure SeekOnly where
  manifest : Manifest
  target : Option VerifiedTarget

/-- The open files of a download, and whether the description was checked. -/
structure OpenMedia where
  manifest : Manifest
  target : Option VerifiedTarget
  download : MediaDownload
  disk : MediaDisk

/-- What a handler goes on with before anything else. -/
inductive Todo where
  | answerSeeks
  | discard

structure Handler where
  opened : Option OpenMedia
  seekOnly : Option SeekOnly
  inFlight : List InFlight
  todo : Option Todo

def Handler.start : Handler where
  opened := none
  seekOnly := none
  inFlight := []
  todo := none

/-- What the handlers share. Files that are open are with who has them open, and their names may
be gone in the meantime. -/
structure Shelf where
  row : Option MediaRow
  disk : MediaDisk
  linked : Bool
  holder : Option Nat

namespace Shelf

def findCompleteEntry (pool : Pool) (shelf : Shelf) : Option MediaRow :=
  shelf.row.filter fun row => (openComplete pool shelf.disk.finished row).isSome

/-- The two files of the download are deleted under their names. -/
def unlink (shelf : Shelf) : Shelf :=
  { shelf with disk := MediaDownload.discard shelf.disk, linked := false }

/-- Files that are closed are there again, if their names still are. -/
def giveBack (shelf : Shelf) (disk : MediaDisk) : Shelf :=
  { shelf with
    disk := if shelf.linked then { disk with finished := shelf.disk.finished } else shelf.disk
    holder := none }

end Shelf

/-- What a handler has become, what it has changed, and whom it has answered. -/
structure Turn where
  handler : Handler
  shelf : Shelf
  answers : List Answer

namespace OpenMedia

def chunkSize (opened : OpenMedia) : Nat :=
  opened.download.file.chunkSize.toNat

/-- What the manifest says of the file, as the download takes it. -/
def mediaFile (mxc : String) (manifest : Manifest) : MediaFile where
  mxc := mxc.toUTF8.toList
  fileSize := manifest.fileSize
  chunkSize := UInt32.ofNat manifest.block.chunkSize
  sha256 := manifest.block.sha256

/-- A chunk is opened with what the description was checked to be. -/
def openChunk (packages : Packages) (opened : OpenMedia) (index : Nat) (data : List UInt8) :
    Except SdkError (List UInt8) :=
  match opened.target with
  | none => .error (.usage ("chunk " ++ toString index ++ " of " ++ opened.manifest.mxc ++
      " arrived before Info verified the block"))
  | some target => openChunkData packages opened.manifest target index data

end OpenMedia

namespace Handler

/-- The same request is not made twice. -/
def want (h : Handler) (request : Request) (waiting : Waiting) : Handler :=
  if h.inFlight.any fun entry => entry.request = request then
    { h with
      inFlight := h.inFlight.map fun entry =>
        if entry.request = request then { entry with waiters := entry.waiters ++ [waiting] }
        else entry }
  else
    { h with
      inFlight := h.inFlight ++ [{ request := request, waiters := [waiting], retries := .none }] }

def resend (h : Handler) (request : Request) (waiters : List Waiting) (retries : Retries) :
    Handler :=
  { h with
    inFlight := h.inFlight ++ [{ request := request, waiters := waiters, retries := retries }] }

/-- The error goes to the reads; the main file is left to who calls. -/
def answerSeeksOnly (waiters : List Waiting) (error : SdkError) : List Answer :=
  waiters.filterMap fun waiting =>
    match waiting with
    | .main => none
    | .seek _ read => some (read, .error error)

/-- A chunk that has come, for every read that waits for it. -/
def answerSeeks (waiters : List Waiting) (piece : SeekPiece) : List Answer :=
  waiters.filterMap fun waiting =>
    match waiting with
    | .main => none
    | .seek _ read => some (read, .ok piece)

variable (pool : Pool)

/-- A chunk for a read: what is there of the open file, or a request. -/
def requestSeekChunk (h : Handler) (index read : Nat) : Handler × List Answer :=
  match h.opened with
  | some opened =>
      match opened.download.readLocalChunk pool index opened.disk with
      | (.error e, download) =>
          ({ h with opened := some { opened with download := download } }, [(read, .error e)])
      | (.ok (some plain), download) =>
          ({ h with opened := some { opened with download := download } },
            [(read, .ok { start := chunkStart index opened.chunkSize, plain := plain })])
      | (.ok none, download) =>
          (Handler.want { h with opened := some { opened with download := download } }
            (if opened.target.isSome then .chunk index else .info) (.seek index read), [])
  | none =>
      match h.seekOnly with
      | some seek =>
          (h.want (if seek.target.isSome then .chunk index else .info) (.seek index read), [])
      | none => (h, [(read, .error downloaderGone)])

/-- The reads that have waited for the description. -/
def requestSeeks : Handler → List Waiting → Handler × List Answer
  | h, [] => (h, [])
  | h, .main :: waiters => requestSeeks h waiters
  | h, .seek index read :: waiters =>
      let (h, first) := h.requestSeekChunk pool index read
      let (h, rest) := requestSeeks h waiters
      (h, first ++ rest)

/-- A read at a position. -/
def processSeek (mxc : String) (shelf : Shelf) (h : Handler) (read : Nat) (manifest : Manifest)
    (position : Nat) : Handler × List Answer :=
  match h.opened with
  | some opened =>
      match chunkIndexAt position opened.chunkSize mxc with
      | .ok index => h.requestSeekChunk pool index read
      | .error e => (h, [(read, .error e)])
  | none =>
      match shelf.findCompleteEntry pool with
      | some entry =>
          (h, [(read, (chunkLayoutOf entry).bind fun layout =>
            (chunkIndexAt position layout.1 mxc).bind
              (readCompleteChunk pool shelf.disk.finished entry))])
      | none =>
          -- the description that came first is the one for all
          let seek := h.seekOnly.getD { manifest := manifest, target := none }
          let h := { h with seekOnly := some seek }
          match chunkIndexAt position seek.manifest.block.chunkSize mxc with
          | .ok index => h.requestSeekChunk pool index read
          | .error e => (h, [(read, .error e)])

/-- A download of the file begins, if nobody has it and there is no complete one. -/
def openMedia (mxc : String) (shelf : Shelf) (id : Nat) (h : Handler) (manifest : Manifest)
    (course : OpenCourse) : Handler × Shelf :=
  if h.opened.isSome ∨ (shelf.findCompleteEntry pool).isSome ∨ shelf.holder.isSome then
    (h, shelf)
  else
    match (MediaDescription.ofChunkedBlock manifest.block).bind (mediaBegin mxc shelf.row) with
    | none => (h, shelf)
    | some row =>
        let shelf := { shelf with row := some row }
        match MediaDownload.openDownload pool (OpenMedia.mediaFile mxc manifest) course
            shelf.disk with
        | (.error _, disk) => (h, { shelf with disk := disk })
        | (.ok download, disk) =>
            ({ h with
                opened := some
                  { manifest := manifest, target := none, download := download, disk := disk }
                seekOnly := none },
              { shelf with
                disk := MediaDownload.discard disk
                linked := true
                holder := some id })

/-- The file is closed and stays as it is. -/
def takeOpen (shelf : Shelf) (h : Handler) : Handler × Shelf :=
  match h.opened with
  | none => (h, shelf)
  | some opened => ({ h with opened := none }, shelf.giveBack opened.disk)

/-- Nothing of the file is waited for any more, and it is closed; a broken one is then deleted. -/
def failMedia (shelf : Shelf) (h : Handler) (error : SdkError) (discard : Bool) : Turn :=
  let answers := h.inFlight.flatMap fun entry => answerSeeksOnly entry.waiters error
  let (closed, shelf) := takeOpen shelf { h with inFlight := [] }
  { handler :=
      { closed with todo := if h.opened.isSome ∧ discard then some .discard else closed.todo }
    shelf := shelf
    answers := answers }

section Replies

variable (packages : Packages)

/-- The description is compared with the manifest of the open file, or else with the one that came
with a seek. -/
def acceptInfo (h : Handler) (ack : Ack) : Option (Except SdkError Handler) :=
  match h.opened, h.seekOnly with
  | some opened, _ =>
      some ((ack.infoReply.bind fun info =>
        verifyInfo packages opened.manifest info.1 info.2).map fun target =>
          { h with opened := some { opened with target := some target } })
  | none, some seek =>
      some ((ack.infoReply.bind fun info =>
        verifyInfo packages seek.manifest info.1 info.2).map fun target =>
          { h with seekOnly := some { seek with target := some target } })
  | none, none => none

/-- An open file is a broken one then; else the description is dropped. -/
def refuse (shelf : Shelf) (h : Handler) (waiters : List Waiting) (error : SdkError) : Turn :=
  if h.opened.isSome then
    let failed := failMedia shelf h error true
    { failed with answers := answerSeeksOnly waiters error ++ failed.answers }
  else
    { handler := { h with seekOnly := none }
      shelf := shelf
      answers := answerSeeksOnly waiters error }

def infoArrived (shelf : Shelf) (h : Handler) (ack : Ack) (waiters : List Waiting)
    (retries : Retries) : Turn :=
  match h.acceptInfo packages ack with
  | none => { handler := h, shelf := shelf, answers := answerSeeksOnly waiters downloaderGone }
  | some (.ok h) =>
      let (h, answers) := requestSeeks pool h waiters
      { handler := h, shelf := shelf, answers := answers }
  | some (.error e) =>
      if isBadReply e ∧ retries.badReplies = 0 then
        { handler := h.resend .info waiters { retries with badReplies := 1 }
          shelf := shelf
          answers := [] }
      else
        refuse shelf h waiters e

/-- How storing a chunk goes. -/
structure StoreCourse where
  faults : List (Option Nat)
  seekBase : Vector UInt8 MediaPool.nonceBaseLen
  openFault : Option Nat
  appendFault : Option Nat

/-- The chunk is opened with the description that was checked. -/
def openArrived (h : Handler) (index : Nat) (ack : Ack) :
    Option (Except SdkError (List UInt8)) :=
  match h.opened, h.seekOnly with
  | some opened, _ => some ((ack.chunkReply index).bind (opened.openChunk packages index))
  | none, some seek =>
      match seek.target with
      | some target =>
          some ((ack.chunkReply index).bind (openChunkData packages seek.manifest target index))
      | none =>
          some (.error (.usage ("chunk " ++ toString index ++ " of " ++ seek.manifest.mxc ++
            " arrived before Info verified the block")))
  | none, none => none

/-- The chunk goes into the main file when it is the next one and waited for, and else into the
seek file. The flag says that it was to go into the main file. -/
def storeChunk (opened : OpenMedia) (index : Nat) (plain : List UInt8) (waiters : List Waiting)
    (course : StoreCourse) : Bool × Option SdkError × OpenMedia :=
  if .main ∈ waiters ∧ index = opened.download.nextChunk then
    match opened.download.landChunk pool index plain course.faults opened.disk.pending with
    | (error, download, pending) =>
        (true, error,
          { opened with download := download, disk := { opened.disk with pending := pending } })
  else
    match opened.download.storeSeekChunk pool index plain course.seekBase course.openFault
        course.appendFault opened.disk with
    | (error, download, disk) => (false, error, { opened with download := download, disk := disk })

/-- A chunk that was opened is answered; the open file keeps it. -/
def handOut (shelf : Shelf) (h : Handler) (index : Nat) (plain : List UInt8)
    (waiters : List Waiting) (course : StoreCourse) : Turn :=
  match h.opened with
  | none =>
      let chunkSize := (h.seekOnly.map fun seek => seek.manifest.block.chunkSize).getD 0
      { handler := h
        shelf := shelf
        answers := answerSeeks waiters { start := chunkStart index chunkSize, plain := plain } }
  | some opened =>
      let answers := answerSeeks waiters
        { start := chunkStart index opened.chunkSize, plain := plain }
      match storeChunk pool opened index plain waiters course with
      | (true, some error, opened) =>
          let failed := failMedia shelf { h with opened := some opened } error false
          { failed with answers := answers ++ failed.answers }
      | (_, _, opened) =>
          { handler := { h with opened := some opened }, shelf := shelf, answers := answers }

/-- A chunk that does not open is asked for once more. -/
def isBadChunk : SdkError → Bool
  | .integrity _ | .protocol _ => true
  | _ => false

def chunkArrived (shelf : Shelf) (h : Handler) (index : Nat) (ack : Ack) (waiters : List Waiting)
    (retries : Retries) (course : StoreCourse) : Turn :=
  match h.openArrived packages index ack with
  | none => { handler := h, shelf := shelf, answers := answerSeeksOnly waiters downloaderGone }
  | some (.ok plain) => handOut pool shelf h index plain waiters course
  | some (.error e) =>
      if isBadChunk e ∧ retries.badReplies = 0 then
        { handler := h.resend (.chunk index) waiters { retries with badReplies := 1 }
          shelf := shelf
          answers := [] }
      else
        refuse shelf h waiters e

/-- The request has failed. Only what the main file waits for stops it, or a server that does not
have the file. -/
def requestFailed (shelf : Shelf) (h : Handler) (entry : InFlight) (error : SdkError) : Turn :=
  let answers := answerSeeksOnly entry.waiters error
  match error with
  | .network _ =>
      { handler :=
          if .main ∈ entry.waiters then h.resend entry.request [.main] entry.retries else h
        shelf := shelf
        answers := answers }
  | error =>
      if isTimeout error ∧ entry.retries.timeouts + 1 < timeoutAttempts then
        { handler := h.resend entry.request entry.waiters
            { entry.retries with timeouts := entry.retries.timeouts + 1 }
          shelf := shelf
          answers := [] }
      else if isBadReply error ∧ entry.retries.badReplies = 0 then
        { handler := h.resend entry.request entry.waiters { entry.retries with badReplies := 1 }
          shelf := shelf
          answers := [] }
      else if .main ∈ entry.waiters ∨ isPermanentRefusal error then
        let failed := failMedia shelf h error (isPermanentRefusal error)
        { failed with answers := answers ++ failed.answers }
      else
        { handler := h, shelf := shelf, answers := answers }

def handleReply (shelf : Shelf) (h : Handler) (request : Request) (result : Except SdkError Ack)
    (course : StoreCourse) : Turn :=
  match h.inFlight.find? fun entry => entry.request = request with
  | none => { handler := h, shelf := shelf, answers := [] }
  | some entry =>
      let h := { h with inFlight := h.inFlight.filter fun entry => entry.request ≠ request }
      match result, request with
      | .ok ack, .info => infoArrived pool packages shelf h ack entry.waiters entry.retries
      | .ok ack, .chunk index =>
          chunkArrived pool packages shelf h index ack entry.waiters entry.retries course
      | .error e, _ => requestFailed shelf h entry e

end Replies

/-- How a round of the main file goes. -/
structure MainCourse where
  faults : List (Option Nat)
  finish : FinishCourse
  /-- The end is put on the row. -/
  recorded : Bool

/-- The file is moved into the pool, if it still has its name, and recorded. The reads that wait
are answered next. -/
def finishJob (shelf : Shelf) (h : Handler) (opened : OpenMedia) (course : MainCourse) : Turn :=
  let adopting :=
    if shelf.linked then course.finish.adopting
    else some (course.finish.adopting.getD (.io "the pending file is gone"))
  match opened.download.finish pool { course.finish with adopting := adopting }
      { opened.disk with finished := shelf.disk.finished } with
  | (result, disk) =>
      let shelf := { shelf with disk := { shelf.disk with finished := disk.finished } }
      let row :=
        match result with
        | .ok (done, verified) =>
            if course.recorded then shelf.row.map fun row => mediaFinish row done verified
            else shelf.row
        | .error _ => shelf.row
      { handler := { h with opened := none, todo := some .answerSeeks }
        shelf := { shelf.giveBack disk with row := row }
        answers := [] }

/-- One round of the main file: it is finished, or it goes on with what is there, or it asks. -/
def continueMain (shelf : Shelf) (h : Handler) (course : MainCourse) : Turn :=
  match h.opened with
  | none => { handler := h, shelf := shelf, answers := [] }
  | some opened =>
      if opened.download.writer.plainLen = opened.download.file.fileSize then
        finishJob pool shelf h opened course
      else if opened.target.isNone then
        { handler := h.want .info .main, shelf := shelf, answers := [] }
      else
        match opened.download.advanceFromSeekStore pool course.faults opened.disk with
        | (.error e, download, disk) =>
            failMedia shelf
              { h with opened := some { opened with download := download, disk := disk } } e true
        | (.ok true, download, disk) =>
            { handler :=
                { h with opened := some { opened with download := download, disk := disk } }
              shelf := shelf
              answers := [] }
        | (.ok false, download, disk) =>
            { handler := Handler.want
                { h with opened := some { opened with download := download, disk := disk } }
                (.chunk download.nextChunk) .main
              shelf := shelf
              answers := [] }

/-- The reads that still wait for a file that is finished are answered from the pool. -/
def answerSeeksFromPool (shelf : Shelf) (h : Handler) : Turn :=
  let entry := shelf.findCompleteEntry pool
  { handler := { h with inFlight := [], todo := none }
    shelf := shelf
    answers := (h.inFlight.flatMap InFlight.waiters).filterMap fun waiting =>
      match waiting with
      | .main => none
      | .seek index read =>
          some (read,
            match entry with
            | some entry => readCompleteChunk pool shelf.disk.finished entry index
            | none => .error downloaderGone) }

/-- The job was cancelled, and the line has not sent its request yet: what only the job waits for
is not asked for any more. -/
def withdrawMain (h : Handler) : Handler :=
  { h with
    inFlight := h.inFlight.filterMap fun entry =>
      if .main ∈ entry.waiters then
        match entry.waiters.filter fun waiting => waiting ≠ .main with
        | [] => none
        | others => some { entry with waiters := others }
      else
        some entry }

end Handler

structure State where
  handlers : Nat → Handler
  shelf : Shelf
  answers : Nat → List (Except SdkError SeekPiece)

def State.start (finished : List Char → Option (List UInt8)) : State where
  handlers := fun _ => .start
  shelf :=
    { row := none
      disk := { pending := ⟨[], []⟩, seek := ⟨[], []⟩, seekExists := false, finished := finished }
      linked := true
      holder := none }
  answers := fun _ => []

/-- What a handler is given to do. -/
inductive HandlerAction where
  | seek (read : Nat) (manifest : Manifest) (position : Nat)
  | reply (request : Request) (result : Except SdkError Ack) (course : Handler.StoreCourse)
  | openMedia (manifest : Manifest) (course : OpenCourse)
  | continueMain (course : Handler.MainCourse)
  | answerSeeks
  | discard
  | withdrawMain
  /-- A file that nothing is asked for and that has no job is closed. -/
  | close
  /-- A file that nothing is asked for is not sought in any more. -/
  | forgetSeek
  /-- The account is logged out, or the program ends. -/
  | stop

/-- What others do to what the handlers share. -/
inductive ShelfAction where
  /-- The files of the download are deleted, or one of the pool, or one is put there. -/
  | unlink
  | removeFile (name : List Char)
  | keepFile (name : List Char) (bytes : List UInt8)
  /-- An event describes the file. -/
  | arrive (description : MediaDescription)
  | progress (segmentsWritten chunkSize : Nat)
  | reset
  | deleteRow

inductive Action where
  | handler (id : Nat) (action : HandlerAction)
  | shelf (action : ShelfAction)

section Steps

variable (pool : Pool) (packages : Packages) (mxc : String)

namespace Handler

/-- A handler that is in the middle of something does nothing else. -/
def turn (shelf : Shelf) (id : Nat) (h : Handler) (action : HandlerAction) : Turn :=
  let quiet (h : Handler) : Turn := { handler := h, shelf := shelf, answers := [] }
  match h.todo, action with
  | _, .stop =>
      { handler := .start
        shelf := (takeOpen shelf h).2
        answers := h.inFlight.flatMap fun entry => answerSeeksOnly entry.waiters downloaderGone }
  | some .answerSeeks, .answerSeeks => h.answerSeeksFromPool pool shelf
  | some .discard, .discard =>
      { handler := { h with todo := none }, shelf := shelf.unlink, answers := [] }
  | some _, _ => quiet h
  | none, .seek read manifest position =>
      let (h, answers) := h.processSeek pool mxc shelf read manifest position
      { handler := h, shelf := shelf, answers := answers }
  | none, .reply request result course => h.handleReply pool packages shelf request result course
  | none, .openMedia manifest course =>
      let (h, shelf) := h.openMedia pool mxc shelf id manifest course
      { handler := h, shelf := shelf, answers := [] }
  | none, .continueMain course => h.continueMain pool shelf course
  | none, .withdrawMain => quiet h.withdrawMain
  | none, .close =>
      if h.inFlight.isEmpty then
        let (h, shelf) := takeOpen shelf h
        { handler := h, shelf := shelf, answers := [] }
      else
        quiet h
  | none, .forgetSeek => quiet (if h.inFlight.isEmpty then { h with seekOnly := none } else h)
  | none, .answerSeeks | none, .discard => quiet h

end Handler

def Shelf.change (shelf : Shelf) : ShelfAction → Shelf
  | .unlink => shelf.unlink
  | .removeFile name =>
      { shelf with
        disk := { shelf.disk with finished := Function.update shelf.disk.finished name none } }
  | .keepFile name bytes =>
      { shelf with
        disk :=
          { shelf.disk with finished := Function.update shelf.disk.finished name (some bytes) } }
  | .arrive description => { shelf with row := (mediaBegin mxc shelf.row description).or shelf.row }
  | .progress segmentsWritten chunkSize =>
      { shelf with row := shelf.row.map fun row => mediaProgress row segmentsWritten chunkSize }
  | .reset => { shelf with row := shelf.row.map mediaReset }
  | .deleteRow => { shelf with row := none }

def State.give (s : State) (answers : List Answer) : State :=
  { s with
    answers := fun read =>
      s.answers read ++ (answers.filter fun answer => answer.1 = read).map Prod.snd }

def step (s : State) : Action → State
  | .handler id action =>
      let turn := (s.handlers id).turn pool packages mxc s.shelf id action
      State.give
        { s with
          handlers := Function.update s.handlers id turn.handler
          shelf := turn.shelf } turn.answers
  | .shelf action => { s with shelf := s.shelf.change mxc action }

end Steps

end MediaSeeks
end WbfMatrixClient
