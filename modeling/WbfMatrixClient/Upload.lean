import WbfMatrixClient.ChunkCrypto
import WbfMatrixClient.Lib.ByteFile

/-!
# Uploading a file in chunks

An upload is created, its chunks are sent, and it is sealed with the final
description. Four entry points send chunks: two read a file or a stream for
the SDK, two read the body of a PUT for the data plane. Each of them is a loop
whose rounds read a chunk, seal it, send it and look at the answer, and all
that one round leaves to the next stands in a record. The record, what the loop
does next with what it can read, and what it makes of the answer are given for
each entry point; one round is then the same for all four.

The file or the body is what it holds at the time of a round, so a round may
find other bytes than the round before it. Whoever answers is a function with
a state. Every operation tells which calls of the cipher it made.
-/

namespace WbfMatrixClient

open Sealing

/-- What a mapped result came from. -/
theorem map_eq_ok {ε α β : Type} {f : α → β} {x : Except ε α} {b : β} (h : x.map f = .ok b) :
    ∃ a, x = .ok a ∧ f a = b := by
  cases x with
  | error e => cases h
  | ok a => exact ⟨a, rfl, by simpa [Except.map] using h⟩

/-- All that is kept of a created upload. -/
structure UploadState where
  server : String
  userId : String
  uploadId : Nat
  mxc : String
  chunkMaxBytes : Nat
  block : ChunkedBlock
deriving DecidableEq

/-- What an upload ends in, and what a download starts from. -/
structure Manifest where
  server : String
  mxc : String
  block : ChunkedBlock
deriving DecidableEq

/-- The text without the slashes at its end. -/
def trimEndSlashes (text : String) : String :=
  String.ofList (text.toList.reverse.dropWhile (· = '/')).reverse

def UploadState.isFor (state : UploadState) (server userId : String) : Bool :=
  trimEndSlashes state.server = trimEndSlashes server ∧ state.userId = userId

/-- The upload of a stream has no file size, which an event block needs. -/
def UploadState.fileCipher (state : UploadState) : Except SdkError FileCipher :=
  let block :=
    if state.block.fileSize.isNone then { state.block with fileSize := some 0 } else state.block
  match FileCipher.fromEventBlock block with
  | .error e => .error e.toSdkError
  | .ok file => .ok file

/-- The parameters in the block of a state are those of its cipher. -/
theorem UploadState.params_of_fileCipher {state : UploadState} {file : FileCipher}
    (h : state.fileCipher = .ok file) :
    state.block.v = conventionV ∧ state.block.cipher = file.cipher ∧
      state.block.key = file.key ∧ state.block.nonceBase = file.nonceBase ∧
      state.block.chunkSize = file.chunkSize ∧ file.chunkSize ≠ 0 := by
  have hblock : ∀ block : ChunkedBlock,
      block.v = state.block.v → block.cipher = state.block.cipher →
      block.key = state.block.key → block.nonceBase = state.block.nonceBase →
      block.chunkSize = state.block.chunkSize →
      FileCipher.fromEventBlock block = .ok file →
      state.block.v = conventionV ∧ state.block.cipher = file.cipher ∧
        state.block.key = file.key ∧ state.block.nonceBase = file.nonceBase ∧
        state.block.chunkSize = file.chunkSize ∧ file.chunkSize ≠ 0 := by
    intro block hv hcipher hkey hbase hsize hfile
    obtain ⟨_, hv', hcipher', hkey', hbase', hsize', hpos⟩ :=
      FileCipher.params_of_fromEventBlock hfile
    exact ⟨hv ▸ hv', hcipher ▸ hcipher', hkey ▸ hkey', hbase ▸ hbase', hsize ▸ hsize', hpos⟩
  simp only [UploadState.fileCipher] at h
  rcases hfile : FileCipher.fromEventBlock
      (if state.block.fileSize.isNone then { state.block with fileSize := some 0 }
        else state.block) with e | file'
  · rw [hfile] at h
    cases h
  · rw [hfile] at h
    cases h
    refine hblock _ ?_ ?_ ?_ ?_ ?_ hfile <;> split_ifs <;> rfl

structure EncryptedFileInfo where
  fileSize : Nat
  chunkSize : Nat
  chunkCount : Nat

structure CreateRequest where
  info : EncryptedFileInfo
  description : List UInt8

/-- The answer to a creation, with the identifier in its header. -/
structure CreateAck where
  headerId : Nat
  id : Nat
  mxc : String
  chunkSize : Nat
  chunkMaxBytes : Nat

structure ChunkRequest where
  uploadId : Nat
  index : Nat
  data : List UInt8
  isLast : Bool

structure ChunkAck where
  received : Nat
  finished : Bool
  truncated : Bool

structure StatusAck where
  received : Nat
  finished : Bool
  truncated : Bool

structure SealRequest where
  uploadId : Nat
  description : List UInt8

structure SealAck where
  mxc : String

/-- What sending all chunks comes to. -/
structure SentSummary where
  fileSize : Nat
  sha256 : Option (List Char)
  truncated : Bool

/-- What an operation did: the calls of the cipher, the result, and the state
of whoever answered. -/
structure Outcome (α S : Type) where
  sealed : List (Sealed FileKey (List UInt8))
  result : Except SdkError α
  rest : S

/-- Whoever answers requests of one kind. -/
abbrev Exchange (Request Answer S : Type) : Type :=
  Request → S → Except SdkError Answer × S

/-- The block with the parameters of the cipher. -/
def createBlock (file : FileCipher) (block : ChunkedBlock) : ChunkedBlock :=
  let template := file.toEventBlock 0
  { block with
    v := template.v
    cipher := template.cipher
    key := template.key
    nonceBase := template.nonceBase
    chunkSize := template.chunkSize }

def createInfo (block : ChunkedBlock) : Except SdkError EncryptedFileInfo :=
  match block.fileSize with
  | some 0 => .error (.usage "empty file: the protocol has no zero-chunk upload")
  | some fileSize =>
      match chunkCount fileSize block.chunkSize with
      | none => .error (.usage "file too large for u32 chunk indices")
      | some count => .ok { fileSize := fileSize, chunkSize := block.chunkSize, chunkCount := count }
  | none => .ok { fileSize := 0, chunkSize := block.chunkSize, chunkCount := 0 }

def created (server userId : String) (block : ChunkedBlock) (ack : CreateAck) :
    Except SdkError UploadState :=
  if ack.headerId ≠ 0 ∧ ack.headerId ≠ ack.id then
    .error (.protocol ("Create ack header id " ++ toString ack.headerId ++
      " is neither 0 nor the new upload id " ++ toString ack.id))
  else if ack.chunkSize ≠ block.chunkSize then
    .error (.protocol ("server chose chunk_size " ++ toString ack.chunkSize ++
      " but we asked for " ++ toString block.chunkSize))
  else
    .ok {
      server := trimEndSlashes server
      userId := userId
      uploadId := ack.id
      mxc := ack.mxc
      chunkMaxBytes := ack.chunkMaxBytes
      block := block }

def createUpload {S : Type} (packages : Packages) (exchange : Exchange CreateRequest CreateAck S)
    (server userId : String) (file : FileCipher) (block : ChunkedBlock) (s : S) :
    Outcome UploadState S :=
  let block := createBlock file block
  match createInfo block with
  | .error e => { sealed := [], result := .error e, rest := s }
  | .ok info =>
      let json := block.toDescriptionJson packages
      let reply := exchange
        { info := info, description := file.sealDescription packages .create json } s
      { sealed := (file.sealCall createDescriptionIndex descriptionAad json).toList
        result :=
          match reply.1 with
          | .error e => .error e
          | .ok ack => created server userId block ack
        rest := reply.2 }

def sealUpload {S : Type} (packages : Packages) (exchange : Exchange SealRequest SealAck S)
    (state : UploadState) (finalBlock : ChunkedBlock) (s : S) : Outcome Manifest S :=
  match finalBlock.checkAsEventBlock with
  | .error e => { sealed := [], result := .error e.toSdkError, rest := s }
  | .ok () =>
      match state.fileCipher with
      | .error e => { sealed := [], result := .error e, rest := s }
      | .ok file =>
          let json := finalBlock.toDescriptionJson packages
          let reply := exchange
            { uploadId := state.uploadId,
              description := file.sealDescription packages .seal json } s
          { sealed := (file.sealCall sealDescriptionIndex descriptionAad json).toList
            result :=
              match reply.1 with
              | .error e => .error e
              | .ok ack =>
                  if ack.mxc ≠ state.mxc then
                    .error (.protocol ("Seal returned mxc " ++ ack.mxc ++ " for upload " ++
                      state.mxc))
                  else
                    .ok { server := state.server, mxc := state.mxc, block := finalBlock }
            rest := reply.2 }

/-- A request that arrived corrupted is sent once more, as it was. -/
def sendChunk {S : Type} (exchange : Exchange ChunkRequest ChunkAck S) (request : ChunkRequest)
    (s : S) : Except SdkError ChunkAck × S :=
  let first := exchange request s
  match first.1 with
  | .ok ack => (.ok ack, first.2)
  | .error e =>
      if e.wbfCode = some .corrupt then exchange request first.2 else (.error e, first.2)

/-- The index the server wants, if the answer was that this one is out of
order. -/
def expectedSeqOf : SdkError → Option Nat
  | .server codeId expectedSeq message =>
      if (SdkError.server codeId expectedSeq message).wbfCode = some .outOfOrder then
        expectedSeq
      else
        none
  | _ => none

/-- What a loop does next. -/
inductive Next (α : Type) where
  | send (index : Nat) (plain : List UInt8) (isLast : Bool) (after : α)
  | skip (after : α)
  | done (summary : SentSummary)

def Next.map {α β : Type} (f : α → β) : Next α → Next β
  | .send index plain isLast after => .send index plain isLast (f after)
  | .skip after => .skip (f after)
  | .done summary => .done summary

/-- How far a loop has come. -/
inductive Progress (α : Type) where
  | more (loop : α)
  | done (summary : SentSummary)

def Progress.map {α β : Type} (f : α → β) : Progress α → Progress β
  | .more loop => .more (f loop)
  | .done summary => .done summary

/-- The error of a read that met the end of the file. -/
def readExactError : SdkError := .io "failed to fill whole buffer"

/-- Between two rounds of the loop that sends a file of known size. -/
structure SendChunks where
  fileSize : Nat
  chunkSize : Nat
  total : Nat
  hash : Bool
  index : Nat
  truncated : Bool
deriving DecidableEq

namespace SendChunks

def start (state : UploadState) (fromChunk : Nat) (hash : Bool) :
    Except SdkError (FileCipher × SendChunks) :=
  match state.block.fileSize with
  | none =>
      .error (.usage "send_chunks needs file_size; use send_stream for unknown size")
  | some fileSize =>
      match chunkCount fileSize state.block.chunkSize with
      | none => .error (.usage "file too large for u32 chunk indices")
      | some total =>
          if total < fromChunk then
            .error (.usage ("resume from chunk " ++ toString fromChunk ++
              " but there are only " ++ toString total))
          else
            match state.fileCipher with
            | .error e => .error e
            | .ok file =>
                .ok (file,
                  { fileSize := fileSize, chunkSize := state.block.chunkSize, total := total,
                    hash := hash, index := fromChunk, truncated := false })

/-- The digest of the whole file, read once more from its beginning. -/
def hashReader (packages : Packages) (source : List UInt8) (len : Nat) :
    Except SdkError (List Char) :=
  match ByteFile.readExact source 0 len with
  | none => .error readExactError
  | some bytes => .ok (packages.sha256Hex bytes)

def next (packages : Packages) (loop : SendChunks) (source : List UInt8) :
    Except SdkError (Next SendChunks) :=
  if loop.index < loop.total then
    match expectedPlainLen loop.fileSize loop.chunkSize loop.index with
    | none =>
        .error (.usage ("chunk " ++ toString loop.index ++ " is past the end (" ++
          toString loop.total ++ " chunks)"))
    | some plainLen =>
        if loop.chunkSize < plainLen then
          .error (.usage ("chunk " ++ toString loop.index ++ " wants " ++ toString plainLen ++
            " bytes but chunk_size is " ++ toString loop.chunkSize))
        else
          match ByteFile.readExact source (loop.index * loop.chunkSize) plainLen with
          | none => .error readExactError
          | some plain => .ok (.send loop.index plain (loop.index + 1 = loop.total) loop)
  else if loop.hash then
    match hashReader packages source loop.fileSize with
    | .error e => .error e
    | .ok sha256 =>
        .ok (.done { fileSize := loop.fileSize, sha256 := some sha256,
                     truncated := loop.truncated })
  else
    .ok (.done { fileSize := loop.fileSize, sha256 := none, truncated := loop.truncated })

/-- The server says which chunk it wants, in its acknowledgement or because
this one is out of order. Wanting the one it just refused would never end. -/
def answered (loop : SendChunks) (index : Nat) (answer : Except SdkError ChunkAck) :
    Except SdkError SendChunks :=
  match answer with
  | .ok ack => .ok { loop with truncated := ack.truncated, index := ack.received }
  | .error e =>
      if e.wbfCode = some .outOfOrder then
        match expectedSeqOf e with
        | none => .error (.protocol "OutOfOrder without expected_seq")
        | some expected =>
            if expected = index ∨ loop.total < expected then
              .error (.protocol ("server expects chunk " ++ toString expected ++
                " but rejected chunk " ++ toString index ++ " of " ++ toString loop.total ++
                " as out of order"))
            else
              .ok { loop with index := expected }
      else
        .error e

end SendChunks

/-- Between two rounds of a loop that sends a stream. One chunk is always held
back, because only the next read tells whether it is the last one. -/
structure Streaming where
  chunkSize : Nat
  index : Nat
  fileSize : Nat
  absorbed : List UInt8
  pending : List UInt8
deriving DecidableEq

namespace Streaming

/-- The loop before its first round, with the first chunk of the stream. -/
def start (chunkSize : Nat) (pending : List UInt8) : Streaming :=
  { chunkSize := chunkSize, index := 0, fileSize := 0, absorbed := [], pending := pending }

/-- What the next read gives; a short chunk was the last one. -/
def lookAhead (loop : Streaming) (source : List UInt8) : List UInt8 :=
  if loop.pending.length < loop.chunkSize then [] else source.take loop.chunkSize

def next (loop : Streaming) (source : List UInt8) : Next Streaming :=
  let following := loop.lookAhead source
  .send loop.index loop.pending following.isEmpty
    { loop with
      fileSize := loop.fileSize + loop.pending.length
      absorbed := loop.absorbed ++ loop.pending
      pending := following }

def summary (packages : Packages) (loop : Streaming) (truncated : Bool) : SentSummary :=
  { fileSize := loop.fileSize, sha256 := some (packages.sha256Hex loop.absorbed),
    truncated := truncated }

end Streaming

namespace SendStream

def start (state : UploadState) (source : List UInt8) :
    Except SdkError (FileCipher × Streaming) :=
  if state.block.fileSize.isSome then
    .error (.usage "send_stream is for uploads created without file_size")
  else
    match state.fileCipher with
    | .error e => .error e
    | .ok file =>
        let pending := source.take state.block.chunkSize
        if pending.isEmpty then
          .error (.usage "empty stream: the protocol has no zero-chunk upload")
        else
          .ok (file, Streaming.start state.block.chunkSize pending)

/-- The loop ends with the last chunk, or when the server says it has
finished. -/
def answered (packages : Packages) (loop : Streaming) (isLast : Bool)
    (answer : Except SdkError ChunkAck) : Except SdkError (Progress Streaming) :=
  match answer with
  | .error e => .error e
  | .ok ack =>
      let loop := { loop with index := loop.index + 1 }
      if isLast ∨ ack.finished then
        .ok (.done (loop.summary packages ack.truncated))
      else
        .ok (.more loop)

end SendStream

namespace SendStreamedBody

/-- A stream cannot resume: the server must not have a chunk of it. -/
def start (state : UploadState) (status : Except SdkError StatusAck) (source : List UInt8) :
    Except SdkError Streaming :=
  match status with
  | .error e => .error e
  | .ok ack =>
      if ack.received ≠ 0 then
        .error (.usage (state.mxc ++ " is a streamed upload that already has " ++
          toString ack.received ++
          " chunks on the server, and a stream cannot resume: call media.create again"))
      else
        let pending := source.take state.block.chunkSize
        if pending.isEmpty then
          .error (.usage "empty body: the protocol has no zero-chunk upload")
        else
          .ok (Streaming.start state.block.chunkSize pending)

def answered (packages : Packages) (loop : Streaming) (isLast : Bool)
    (answer : Except SdkError ChunkAck) : Except SdkError (Progress Streaming) :=
  match answer with
  | .error e => .error e
  | .ok ack =>
      if isLast ∨ ack.finished then
        .ok (.done (loop.summary packages ack.truncated))
      else if 0xFFFFFFFF < loop.index + 1 then
        .error (.usage "too many chunks for u32 indices")
      else
        .ok (.more { loop with index := loop.index + 1 })

end SendStreamedBody

/-- Between two rounds of the loop that sends a body of known size. Every chunk
is read, because the digest needs it, but only the ones the server wants are
sent. -/
structure SizedBody where
  size : Nat
  chunkSize : Nat
  total : Nat
  index : Nat
  nextWanted : Nat
  truncated : Bool
  absorbed : List UInt8
deriving DecidableEq

namespace SizedBody

def start (state : UploadState) (size : Nat) (status : Except SdkError StatusAck) :
    Except SdkError SizedBody :=
  match chunkCount size state.block.chunkSize with
  | none => .error (.usage "file too large for u32 chunk indices")
  | some total =>
      match status with
      | .error e => .error e
      | .ok ack =>
          .ok { size := size, chunkSize := state.block.chunkSize, total := total, index := 0,
                nextWanted := ack.received, truncated := ack.truncated, absorbed := [] }

/-- How many bytes have been read before a chunk. -/
def readSoFar (loop : SizedBody) (got : Nat) : Nat :=
  loop.absorbed.length + got

def next (packages : Packages) (loop : SizedBody) (source : List UInt8) :
    Except SdkError (Next SizedBody) :=
  if loop.index < loop.total then
    match expectedPlainLen loop.size loop.chunkSize loop.index with
    | none =>
        .error (.usage ("chunk " ++ toString loop.index ++ " is past the end (" ++
          toString loop.total ++ " chunks)"))
    | some plainLen =>
        if loop.chunkSize < plainLen then
          .error (.usage ("chunk " ++ toString loop.index ++ " wants " ++ toString plainLen ++
            " bytes but chunk_size is " ++ toString loop.chunkSize))
        else
          let plain := source.take plainLen
          if plain.length < plainLen then
            .error (.usage ("the body ended after " ++ toString (loop.readSoFar plain.length) ++
              " bytes but the upload was created with size " ++ toString loop.size))
          else
            let after := { loop with index := loop.index + 1, absorbed := loop.absorbed ++ plain }
            if loop.index < loop.nextWanted then
              .ok (.skip after)
            else
              .ok (.send loop.index plain (loop.index + 1 = loop.total) after)
  else if source.isEmpty then
    .ok (.done { fileSize := loop.size, sha256 := some (packages.sha256Hex loop.absorbed),
                 truncated := loop.truncated })
  else
    .error (.usage ("the body is longer than the size " ++ toString loop.size ++
      " the upload was created with"))

/-- A chunk the server already has is skipped; the body cannot be read again
from an earlier one. -/
def answered (loop : SizedBody) (index : Nat) (answer : Except SdkError ChunkAck) :
    Except SdkError SizedBody :=
  match answer with
  | .ok ack =>
      .ok { loop with truncated := loop.truncated || ack.truncated, nextWanted := ack.received }
  | .error e =>
      match expectedSeqOf e with
      | some expected =>
          if index < expected then
            .ok { loop with nextWanted := min expected 0xFFFFFFFF }
          else
            .error e
      | none => .error e

end SizedBody

inductive Loop where
  | sendChunks (loop : SendChunks)
  | sendStream (loop : Streaming)
  | sendSizedBody (loop : SizedBody)
  | sendStreamedBody (loop : Streaming)
deriving DecidableEq

namespace Loop

def next (packages : Packages) (loop : Loop) (source : List UInt8) :
    Except SdkError (Next Loop) :=
  match loop with
  | .sendChunks loop => (loop.next packages source).map (Next.map .sendChunks)
  | .sendStream loop => .ok ((loop.next source).map .sendStream)
  | .sendSizedBody loop => (loop.next packages source).map (Next.map .sendSizedBody)
  | .sendStreamedBody loop => .ok ((loop.next source).map .sendStreamedBody)

def answered (packages : Packages) (loop : Loop) (index : Nat) (isLast : Bool)
    (answer : Except SdkError ChunkAck) : Except SdkError (Progress Loop) :=
  match loop with
  | .sendChunks loop => (loop.answered index answer).map fun loop => .more (.sendChunks loop)
  | .sendStream loop =>
      (SendStream.answered packages loop isLast answer).map (Progress.map .sendStream)
  | .sendSizedBody loop =>
      (loop.answered index answer).map fun loop => .more (.sendSizedBody loop)
  | .sendStreamedBody loop =>
      (SendStreamedBody.answered packages loop isLast answer).map
        (Progress.map .sendStreamedBody)

end Loop

/-- A call that is sending the chunks of an upload. -/
structure Task where
  state : UploadState
  file : FileCipher
  loop : Loop
deriving DecidableEq

namespace Task

/-- One round: read, seal, send, look at the answer. -/
def turn {S : Type} (packages : Packages) (exchange : Exchange ChunkRequest ChunkAck S)
    (task : Task) (source : List UInt8) (s : S) : Outcome (Progress Task) S :=
  match task.loop.next packages source with
  | .error e => { sealed := [], result := .error e, rest := s }
  | .ok (.done summary) => { sealed := [], result := .ok (.done summary), rest := s }
  | .ok (.skip after) =>
      { sealed := [], result := .ok (.more { task with loop := after }), rest := s }
  | .ok (.send index plain isLast after) =>
      match task.file.sealChunk packages index plain with
      | .error e => { sealed := [], result := .error e.toSdkError, rest := s }
      | .ok data =>
          let reply := sendChunk exchange
            { uploadId := task.state.uploadId, index := index, data := data,
              isLast := isLast } s
          { sealed := (task.file.sealCall index chunkAad plain).toList
            result := (after.answered packages index isLast reply.1).map
              (Progress.map fun loop => { task with loop := loop })
            rest := reply.2 }

/-- The block that the caller of an entry point seals the upload with. The
callers of the other three know the size only now. -/
def finalBlock (task : Task) (summary : SentSummary) : ChunkedBlock :=
  match task.loop with
  | .sendChunks _ => { task.state.block with sha256 := summary.sha256 }
  | _ => { task.state.block with fileSize := some summary.fileSize, sha256 := summary.sha256 }

end Task

/-- The calls that send chunks. The first and the third are given by the SDK;
the second sends a file with the state kept from an earlier attempt, and the
last is a PUT to the upload's address. -/
inductive Call where
  | sendChunks (fromChunk : Nat) (hash : Bool)
  | uploadFile (statePath server userId : String) (fileSize : Nat) (hash : Bool)
  | sendStream
  | receiveUpload (server userId : String)

/-- The state kept beside a file is for one server and one user, and for a file
of one size. It goes on where the server says. -/
def uploadFile.resume (state : UploadState) (statePath server userId : String) (fileSize : Nat)
    (status : Except SdkError StatusAck) : Except SdkError Nat :=
  if state.isFor server userId = false then
    .error (.usage (statePath ++
      " belongs to another server or user; delete it or abort the upload"))
  else if state.block.fileSize ≠ some fileSize then
    .error (.usage (statePath ++
      " was written for a file of another size; delete it or abort the upload"))
  else
    match status with
    | .error e => .error e
    | .ok ack => .ok ack.received

/-- The body of a PUT, of the size the upload was created with or of none. -/
def receiveUpload.start (state : UploadState) (server userId : String)
    (status : Except SdkError StatusAck) (source : List UInt8) :
    Except SdkError (FileCipher × Loop) :=
  if state.isFor server userId = false then
    .error (.usage ("upload " ++ toString state.uploadId ++ " belongs to another account"))
  else
    match state.fileCipher with
    | .error e => .error e
    | .ok file =>
        match state.block.fileSize with
        | some size =>
            (SizedBody.start state size status).map fun loop => (file, .sendSizedBody loop)
        | none =>
            (SendStreamedBody.start state status source).map fun loop =>
              (file, .sendStreamedBody loop)

namespace Call

/-- What a call does before its first round. The status is read by the calls
that ask for it. -/
def startLoop (state : UploadState) (call : Call) (status : Except SdkError StatusAck)
    (source : List UInt8) : Except SdkError (FileCipher × Loop) :=
  match call with
  | .sendChunks fromChunk hash =>
      (SendChunks.start state fromChunk hash).map fun (file, loop) => (file, .sendChunks loop)
  | .uploadFile statePath server userId fileSize hash =>
      match uploadFile.resume state statePath server userId fileSize status with
      | .error e => .error e
      | .ok fromChunk =>
          (SendChunks.start state fromChunk hash).map fun (file, loop) =>
            (file, .sendChunks loop)
  | .sendStream =>
      (SendStream.start state source).map fun (file, loop) => (file, .sendStream loop)
  | .receiveUpload server userId => receiveUpload.start state server userId status source

def start (state : UploadState) (call : Call) (status : Except SdkError StatusAck)
    (source : List UInt8) : Except SdkError Task :=
  (startLoop state call status source).map fun (file, loop) =>
    { state := state, file := file, loop := loop }

end Call

variable {state : UploadState} {file : FileCipher}

theorem SendChunks.start_eq_ok {fromChunk : Nat} {hash : Bool} {loop : SendChunks}
    (h : SendChunks.start state fromChunk hash = .ok (file, loop)) :
    state.fileCipher = .ok file ∧ ∃ fileSize total, state.block.fileSize = some fileSize ∧
      chunkCount fileSize state.block.chunkSize = some total ∧
      loop = { fileSize := fileSize, chunkSize := state.block.chunkSize, total := total,
               hash := hash, index := fromChunk, truncated := false } := by
  simp only [SendChunks.start] at h
  cases hsize : state.block.fileSize with
  | none =>
    rw [hsize] at h
    cases h
  | some fileSize =>
    rw [hsize] at h
    simp only at h
    cases htotal : chunkCount fileSize state.block.chunkSize with
    | none =>
      rw [htotal] at h
      cases h
    | some total =>
      rw [htotal] at h
      simp only at h
      split_ifs at h
      cases hfile : state.fileCipher with
      | error e =>
        rw [hfile] at h
        cases h
      | ok file' =>
        rw [hfile] at h
        cases h
        exact ⟨rfl, fileSize, total, rfl, htotal, rfl⟩

variable {source : List UInt8}

theorem SendStream.start_eq_ok {loop : Streaming}
    (h : SendStream.start state source = .ok (file, loop)) :
    state.fileCipher = .ok file ∧ source.take state.block.chunkSize ≠ [] ∧
      loop = Streaming.start state.block.chunkSize (source.take state.block.chunkSize) := by
  cases hfile : state.fileCipher with
  | error e =>
    simp only [SendStream.start, hfile] at h
    split_ifs at h
  | ok file' =>
    simp only [SendStream.start, hfile] at h
    split_ifs at h with hknown hempty
    cases h
    exact ⟨rfl, fun hnil => hempty (by rw [hnil]; rfl), rfl⟩

variable {status : Except SdkError StatusAck}

theorem SizedBody.start_eq_ok {size : Nat} {loop : SizedBody}
    (h : SizedBody.start state size status = .ok loop) :
    ∃ (total : Nat) (ack : StatusAck), chunkCount size state.block.chunkSize = some total ∧
      loop = { size := size, chunkSize := state.block.chunkSize, total := total, index := 0,
               nextWanted := ack.received, truncated := ack.truncated, absorbed := [] } := by
  simp only [SizedBody.start] at h
  cases htotal : chunkCount size state.block.chunkSize with
  | none =>
    rw [htotal] at h
    cases h
  | some total =>
    rw [htotal] at h
    cases status with
    | error e => cases h
    | ok ack =>
      cases h
      exact ⟨total, ack, rfl, rfl⟩

theorem SendStreamedBody.start_eq_ok {loop : Streaming}
    (h : SendStreamedBody.start state status source = .ok loop) :
    (∃ ack, status = .ok ack ∧ ack.received = 0) ∧ source.take state.block.chunkSize ≠ [] ∧
      loop = Streaming.start state.block.chunkSize (source.take state.block.chunkSize) := by
  cases status with
  | error e => cases h
  | ok ack =>
    simp only [SendStreamedBody.start] at h
    split_ifs at h with hreceived hempty
    cases h
    exact ⟨⟨ack, rfl, by simpa using hreceived⟩, fun hnil => hempty (by rw [hnil]; rfl), rfl⟩

theorem receiveUpload.start_eq_ok {server userId : String} {loop : Loop}
    (h : receiveUpload.start state server userId status source = .ok (file, loop)) :
    state.fileCipher = .ok file ∧
      ((∃ size body, state.block.fileSize = some size ∧
          SizedBody.start state size status = .ok body ∧ loop = .sendSizedBody body) ∨
        ∃ stream, SendStreamedBody.start state status source = .ok stream ∧
          loop = .sendStreamedBody stream) := by
  simp only [receiveUpload.start] at h
  split_ifs at h
  cases hfile : state.fileCipher with
  | error e =>
    rw [hfile] at h
    cases h
  | ok file' =>
    rw [hfile] at h
    simp only at h
    cases hsize : state.block.fileSize with
    | some size =>
      rw [hsize] at h
      obtain ⟨body, hbody, heq⟩ := map_eq_ok h
      cases heq
      exact ⟨rfl, .inl ⟨size, body, rfl, hbody, rfl⟩⟩
    | none =>
      rw [hsize] at h
      obtain ⟨stream, hstream, heq⟩ := map_eq_ok h
      cases heq
      exact ⟨rfl, .inr ⟨stream, hstream, rfl⟩⟩

/-- The ways a call can begin. -/
theorem Call.startLoop_cases {call : Call} {loop : Loop}
    (h : call.startLoop state status source = .ok (file, loop)) :
    (∃ fromChunk hash chunks, SendChunks.start state fromChunk hash = .ok (file, chunks) ∧
        loop = .sendChunks chunks) ∨
      (∃ stream, call = .sendStream ∧ SendStream.start state source = .ok (file, stream) ∧
        loop = .sendStream stream) ∨
      ∃ server userId, receiveUpload.start state server userId status source =
        .ok (file, loop) := by
  cases call with
  | sendChunks fromChunk hash =>
    obtain ⟨⟨file', chunks⟩, hstart, heq⟩ := map_eq_ok h
    cases heq
    exact .inl ⟨fromChunk, hash, chunks, hstart, rfl⟩
  | uploadFile statePath server userId fileSize hash =>
    simp only [Call.startLoop] at h
    cases hresume : uploadFile.resume state statePath server userId fileSize status with
    | error e =>
      rw [hresume] at h
      cases h
    | ok fromChunk =>
      rw [hresume] at h
      obtain ⟨⟨file', chunks⟩, hstart, heq⟩ := map_eq_ok h
      cases heq
      exact .inl ⟨fromChunk, hash, chunks, hstart, rfl⟩
  | sendStream =>
    obtain ⟨⟨file', stream⟩, hstart, heq⟩ := map_eq_ok h
    cases heq
    exact .inr (.inl ⟨stream, rfl, hstart, rfl⟩)
  | receiveUpload server userId => exact .inr (.inr ⟨server, userId, h⟩)

/-- Every call takes the cipher from the state of the upload. -/
theorem Call.start_fileCipher {call : Call} {task : Task}
    (h : call.start state status source = .ok task) : state.fileCipher = .ok task.file := by
  obtain ⟨⟨file, loop⟩, hloop, rfl⟩ := map_eq_ok h
  rcases Call.startLoop_cases hloop with ⟨_, _, _, hstart, _⟩ | ⟨_, _, hstart, _⟩ |
    ⟨_, _, hstart⟩
  · exact (SendChunks.start_eq_ok hstart).1
  · exact (SendStream.start_eq_ok hstart).1
  · exact (receiveUpload.start_eq_ok hstart).1

end WbfMatrixClient
