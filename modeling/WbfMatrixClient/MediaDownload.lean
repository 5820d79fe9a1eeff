import WbfMatrixClient.ChunkCrypto
import WbfMatrixClient.MessageContent
import WbfMatrixClient.SeekStore

/-!
# A download that can be interrupted

The chunks of a file land in a pool file in their order. Those that were fetched out of
order stand in a seek file until it is their turn. When the program starts again, the
download is opened from what the two files hold.

The chunks that come over the line have been opened before they get here. That the
program has the server's word on the file, and fetches from it, is left out. A seek
file that is not there has no bytes.
-/

namespace WbfMatrixClient

open MediaPool (Pool Disk PoolWriter Finished poolError openSegment)

/-- What the manifest says about the file. -/
structure MediaFile where
  mxc : List UInt8
  fileSize : Nat
  chunkSize : UInt32
  sha256 : Option (List Char)

namespace MediaPool.PoolWriter

def sealedPlainLen (w : PoolWriter) : Nat :=
  w.segmentsWritten * w.header.segmentSize

/-- Segment by segment up to an end. -/
def readSealedLoop (pool : Pool) (w : PoolWriter) (bytes : List UInt8) (stop : Nat) :
    (fuel position : Nat) → Except SdkError (List UInt8)
  | 0, _ => .error (.io "read did not end")
  | fuel + 1, position =>
      if stop ≤ position then
        .ok []
      else
        let index := position / w.header.segmentSize
        match openSegment pool w.header bytes index with
        | .error error => .error error
        | .ok segment =>
            match segment.data with
            | .error error => .error error
            | .ok data =>
                let lower := position - index * w.header.segmentSize
                let upper := min (stop - index * w.header.segmentSize) segment.len
                if upper < lower ∨ data.val.length < upper then
                  .error (poolError ("segment " ++ toString index ++ " is shorter than " ++
                    toString upper ++ " bytes"))
                else
                  (readSealedLoop pool w bytes stop fuel
                    (index * w.header.segmentSize + upper)).map fun rest =>
                      (data.val.drop lower).take (upper - lower) ++ rest

/-- A part of what is in the file. Every round reads a byte at least. -/
def readSealed (pool : Pool) (w : PoolWriter) (bytes : List UInt8) (start stop : Nat) :
    Except SdkError (List UInt8) :=
  if stop < start ∨ w.sealedPlainLen < stop then
    .error (.usage ("read " ++ toString start ++ ".." ++ toString stop ++ " is past the " ++
      toString w.sealedPlainLen ++ " sealed bytes"))
  else
    w.readSealedLoop pool bytes stop (stop - start + 1) start

end MediaPool.PoolWriter

/-- The two files of a download, and the finished files under their names. -/
structure MediaDisk where
  pending : Disk
  seek : Disk
  seekExists : Bool
  finished : List Char → Option (List UInt8)

structure MediaDownload where
  file : MediaFile
  writer : PoolWriter
  seek : Option SeekStore
  chunkCount : UInt32

def Verification.ofHex (expected : Option (List Char)) (actual : List Char) : Verification :=
  match expected with
  | none => .unknown
  | some expected =>
      if expected.map Char.toLower = actual.map Char.toLower then .matched else .mismatched

/-- How opening goes: the random numbers, and whether a header cannot be written. -/
structure OpenCourse where
  pendingBase : Vector UInt8 MediaPool.nonceBaseLen
  pendingFault : Option Nat
  seekBase : Vector UInt8 MediaPool.nonceBaseLen
  seekFault : Option Nat

/-- How finishing goes: writing, moving the file, and deleting the seek file. -/
structure FinishCourse where
  writing : Option PoolWriter.FinishFault
  adopting : Option SdkError
  discarding : Option SdkError

namespace MediaDownload

variable (pool : Pool)

/-- The pool file is taken up again, or made anew when it is not one of this file. -/
def resumeOrCreate (file : MediaFile) (course : OpenCourse) (pending : Disk) :
    Option PoolWriter × Disk :=
  match pool.resumePending file.mxc pending with
  | .ok (writer, resumed) =>
      if writer.plainLen ≤ file.fileSize then
        (some writer, resumed)
      else
        pool.createPending file.mxc course.pendingBase resumed course.pendingFault
  | .error _ => pool.createPending file.mxc course.pendingBase pending course.pendingFault

/-- A seek file that cannot be opened is not used. -/
def openDownload (file : MediaFile) (course : OpenCourse) (disk : MediaDisk) :
    Except SdkError MediaDownload × MediaDisk :=
  match (WbfMatrixClient.chunkCount file.fileSize file.chunkSize.toNat).filter fun count =>
      0 < count with
  | none =>
      (.error (.integrity ("file_size " ++ toString file.fileSize ++ " with chunk_size " ++
        toString file.chunkSize ++ " gives no usable chunk count")), disk)
  | some count =>
      match resumeOrCreate pool file course disk.pending with
      | (none, pending) => (.error (.io "write failed"), { disk with pending := pending })
      | (some writer, pending) =>
          let chunkCount := UInt32.ofNat count
          if disk.seekExists then
            match SeekStore.openStore pool file.mxc file.chunkSize chunkCount course.seekBase
                disk.seek course.seekFault with
            | (result, seek) =>
                (.ok { file := file, writer := writer, seek := result.toOption,
                       chunkCount := chunkCount },
                  { disk with pending := pending, seek := seek })
          else
            (.ok { file := file, writer := writer, seek := none, chunkCount := chunkCount },
              { disk with pending := pending })

variable (d : MediaDownload)

/-- The chunk that has the point up to which the file is written. -/
def nextChunk : Nat :=
  min (d.writer.plainLen / d.file.chunkSize.toNat) (2 ^ 32 - 1)

/-- The start and the end of a chunk. -/
def chunkRange (index : Nat) : Except SdkError (Nat × Nat) :=
  match expectedPlainLen d.file.fileSize d.file.chunkSize.toNat index with
  | none => .error (.integrity ("chunk " ++ toString index ++ " is beyond chunk_count"))
  | some len =>
      .ok (index * d.file.chunkSize.toNat, index * d.file.chunkSize.toNat + len)

/-- The next chunk of the file. What of it has been written before is dropped. -/
def landChunk (index : Nat) (plain : List UInt8) (faults : List (Option Nat)) (pending : Disk) :
    Option SdkError × MediaDownload × Disk :=
  match d.chunkRange index with
  | .error error => (some error, d, pending)
  | .ok (start, stop) =>
      if plain.length ≠ stop - start then
        (some (.integrity ("chunk " ++ toString index ++ " has " ++ toString plain.length ++
          " bytes, expected " ++ toString (stop - start))), d, pending)
      else
        let already := d.writer.plainLen
        if already < start ∨ stop ≤ already then
          (some (.usage ("chunk " ++ toString index ++ " (" ++ toString start ++ ".." ++
            toString stop ++ ") does not continue the pending file at " ++
            toString already)), d, pending)
        else
          match d.writer.write pool (plain.drop (already - start)) pending faults with
          | (error, writer, pending) => (error, { d with writer := writer }, pending)

/-- The next chunk out of the seek file, if it is there. -/
def advanceFromSeekStore (faults : List (Option Nat)) (disk : MediaDisk) :
    Except SdkError Bool × MediaDownload × MediaDisk :=
  match d.seek with
  | none => (.ok false, d, disk)
  | some seek =>
      match seek.read pool disk.seek.bytes d.nextChunk with
      | (none, seek) => (.ok false, { d with seek := some seek }, disk)
      | (some plain, seek) =>
          match landChunk pool { d with seek := some seek } d.nextChunk plain faults
              disk.pending with
          | (some error, d, pending) => (.error error, d, { disk with pending := pending })
          | (none, d, pending) => (.ok true, d, { disk with pending := pending })

/-- A chunk that is there, in the sealed segments or in the seek file. -/
def readLocalChunk (index : Nat) (disk : MediaDisk) :
    Except SdkError (Option (List UInt8)) × MediaDownload :=
  match d.chunkRange index with
  | .error error => (.error error, d)
  | .ok (start, stop) =>
      if stop ≤ d.writer.sealedPlainLen then
        ((d.writer.readSealed pool disk.pending.bytes start stop).map some, d)
      else
        match d.seek with
        | none => (.ok none, d)
        | some seek =>
            match seek.read pool disk.seek.bytes index with
            | (plain, seek) => (.ok plain, { d with seek := some seek })

/-- A chunk that was fetched out of order. The file is made with the first one. -/
def storeSeekChunk (index : Nat) (plain : List UInt8) (seekBase : Vector UInt8 MediaPool.nonceBaseLen)
    (openFault appendFault : Option Nat) (disk : MediaDisk) :
    Option SdkError × MediaDownload × MediaDisk :=
  match d.seek with
  | some seek =>
      match seek.append pool index plain disk.seek appendFault with
      | (error, seek, bytes) => (error, { d with seek := some seek }, { disk with seek := bytes })
  | none =>
      match SeekStore.openStore pool d.file.mxc d.file.chunkSize d.chunkCount seekBase disk.seek
          openFault with
      | (.error error, bytes) =>
          (some error, d,
            { disk with
              seek := bytes
              seekExists := disk.seekExists || d.chunkCount.toNat ≤ SeekStore.maxSeekChunks })
      | (.ok seek, bytes) =>
          match seek.append pool index plain bytes appendFault with
          | (error, seek, bytes) =>
              (error, { d with seek := some seek },
                { disk with seek := bytes, seekExists := true })

/-- Both files are deleted. -/
def discard (disk : MediaDisk) : MediaDisk :=
  { disk with
    pending := { disk.pending with bytes := [] }
    seek := { disk.seek with bytes := [] }
    seekExists := false }

/-- The pool file gets the name of its hash. When there is a file of this name already,
and it can be opened, that one stays. -/
def adopt (hashHex : List Char) (disk : MediaDisk) : MediaDisk :=
  let there := (disk.finished hashHex).bind fun bytes => (pool.openRead bytes).toOption
  { disk with
    pending := { disk.pending with bytes := [] }
    finished :=
      if there.isSome then disk.finished
      else fun name => if name = hashHex then some disk.pending.bytes else disk.finished name }

/-- The download is gone afterwards, whether this worked or not. -/
def finish (course : FinishCourse) (disk : MediaDisk) :
    Except SdkError (Finished × Verification) × MediaDisk :=
  if d.writer.plainLen ≠ d.file.fileSize then
    (.error (.integrity ("the pending file has " ++ toString d.writer.plainLen ++
      " bytes, file_size says " ++ toString d.file.fileSize)), discard disk)
  else
    match d.writer.finish pool disk.pending course.writing with
    | (.error error, pending) => (.error error, { disk with pending := pending })
    | (.ok finished, pending) =>
        let disk := { disk with pending := pending }
        match course.adopting with
        | some error => (.error error, disk)
        | none =>
            let disk := adopt pool finished.hashHex disk
            match course.discarding with
            | some error => (.error error, disk)
            | none =>
                (.ok (finished, .ofHex d.file.sha256 finished.sha256Hex),
                  { disk with seek := { disk.seek with bytes := [] }, seekExists := false })

end MediaDownload

end WbfMatrixClient
