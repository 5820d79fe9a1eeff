import WbfMatrixClient.Lib.ByteFile
import WbfMatrixClient.Lib.Bytes
import WbfMatrixClient.Lib.Sealing
import WbfMatrixClient.Wire

/-!
# The media pool's file format and writer

A pool file is a header of 32 bytes and then records of one size. A record is
one sealed segment: its length field, the data, and zeros up to the segment
size. The writer collects a segment before it seals it, and the number of
whole segments in the file is its progress; a writer resumes by opening the
records from the first one on and cutting the file where that stops.

The file is a list of bytes. Next to it stands the log of everything that was
sealed, which the program does not keep. The two hashers are the bytes they
have absorbed.
-/

namespace WbfMatrixClient
namespace MediaPool

open Sealing

def magic : List UInt8 := [0x57, 0x42, 0x46, 0x50]

def poolFormatVersion : UInt8 := 2

def headerLen : Nat := 32

def nonceBaseLen : Nat := 16

def tagLen : Nat := 16

def lenField : Nat := 4

/-- The bytes of "wbf-media-pool v2". -/
def aadPrefix : List UInt8 :=
  [0x77, 0x62, 0x66, 0x2d, 0x6d, 0x65, 0x64, 0x69, 0x61, 0x2d, 0x70, 0x6f, 0x6f, 0x6c, 0x20,
    0x76, 0x32]

def segmentSize : Nat := 65536

/-- A pool: its key, and the cipher and hash functions it works with. -/
structure Pool where
  aead : Aead (List UInt8) (List UInt8) tagLen
  key : List UInt8
  blake3 : List UInt8 → List UInt8
  sha256 : List UInt8 → List UInt8

structure Header where
  segmentSize : Nat
  nonceBase : Vector UInt8 nonceBaseLen
  owner : UInt32
  segmentSize_pos : 0 < segmentSize
deriving DecidableEq

/-- The file, and all that has been sealed under the pool's key. -/
structure Disk where
  bytes : List UInt8
  sealed : List (Sealed (List UInt8) (List UInt8))

def poolError (message : String) : SdkError :=
  .io ("media pool: " ++ message)

/-- The first four bytes of the hash of the name a file is written for. -/
def ownerOf (pool : Pool) (mxc : List UInt8) : UInt32 :=
  UInt32.ofNat (Bytes.ofLittleEndian ((pool.blake3 mxc).take 4))

def encodeHeader (header : Header) : List UInt8 :=
  magic ++ [poolFormatVersion, 0, 0, 0] ++ Bytes.toLittleEndian 4 header.segmentSize ++
    header.nonceBase.toList ++ Bytes.toLittleEndian 4 header.owner.toNat

def readHeader (file : List UInt8) : Except SdkError Header :=
  match ByteFile.readExact file 0 headerLen with
  | none => .error (poolError "file is shorter than the pool header")
  | some bytes =>
      if bytes.take 4 ≠ magic then
        .error (poolError "not a media pool file (bad magic)")
      else if bytes.getD 4 0 ≠ poolFormatVersion then
        .error (poolError ("media pool file version " ++ toString (bytes.getD 4 0) ++
          " is not supported (this build reads " ++ toString poolFormatVersion ++ ")"))
      else
        let size := Bytes.ofLittleEndian ((bytes.drop 8).take 4)
        if hzero : size = 0 then
          .error (poolError "media pool file has segment_size 0")
        else
          .ok {
            segmentSize := size
            nonceBase := Vector.ofFn fun i => bytes.getD (12 + i.val) 0
            owner := UInt32.ofNat (Bytes.ofLittleEndian ((bytes.drop 28).take 4))
            segmentSize_pos := Nat.pos_of_ne_zero hzero }

/-- The size of every segment on disk. -/
def recordLen (header : Header) : Nat := lenField + header.segmentSize + tagLen

def segmentOffset (header : Header) (index : Nat) : Nat :=
  headerLen + index * recordLen header

def nonceAndAad (header : Header) (index : Nat) : List UInt8 × List UInt8 :=
  (header.nonceBase.toList ++ Bytes.toLittleEndian 8 index,
    aadPrefix ++ header.nonceBase.toList ++ Bytes.toLittleEndian 8 index)

/-- The plaintext of a segment, filled up with zeros. -/
def segmentPlain (header : Header) (data : List UInt8) : List UInt8 :=
  Bytes.toLittleEndian lenField data.length ++ data ++
    List.replicate (header.segmentSize - data.length) 0

/-- The call of the cipher that seals a segment. -/
def segmentSeal (pool : Pool) (header : Header) (index : Nat) (data : List UInt8) :
    Sealed (List UInt8) (List UInt8) :=
  { key := pool.key
    nonce := (nonceAndAad header index).1
    aad := (nonceAndAad header index).2
    plain := segmentPlain header data }

def sealSegment (pool : Pool) (header : Header) (index : Nat) (data : List UInt8) :
    Except SdkError (List UInt8) :=
  if data.length = 0 ∨ header.segmentSize < data.length then
    .error (poolError ("segment " ++ toString index ++ " would hold " ++
      toString data.length ++ " bytes (1..=" ++ toString header.segmentSize ++ " allowed)"))
  else
    let call := segmentSeal pool header index data
    .ok (pool.aead.encrypt call.key call.nonce call.aad call.plain)

/-- An opened segment: its plaintext and its true length. -/
structure OpenedSegment (size : Nat) where
  plain : List UInt8
  len : Nat
  len_pos : 0 < len
  len_le : len ≤ size

def OpenedSegment.data {size : Nat} (segment : OpenedSegment size) :
    Except SdkError { data : List UInt8 // data.length ≤ size } :=
  if lenField + segment.len ≤ segment.plain.length then
    .ok ⟨(segment.plain.drop lenField).take segment.len,
      le_trans (List.length_take_le _ _) segment.len_le⟩
  else
    .error (poolError "segment length runs past the segment")

/-- Opening the bytes of one record. -/
def openRecord (pool : Pool) (header : Header) (index : Nat) (sealed : List UInt8) :
    Except SdkError (OpenedSegment header.segmentSize) :=
  match pool.aead.decrypt pool.key (nonceAndAad header index).1 (nonceAndAad header index).2
      sealed with
  | none => .error (poolError ("segment " ++ toString index ++ " does not authenticate"))
  | some plain =>
      if plain.length < lenField then
        .error (poolError ("segment " ++ toString index ++ " has no length field"))
      else
        let len := Bytes.ofLittleEndian (plain.take lenField)
        if h : len = 0 ∨ header.segmentSize < len then
          .error (poolError ("segment " ++ toString index ++ " claims " ++ toString len ++
            " bytes (1..=" ++ toString header.segmentSize ++ " allowed)"))
        else
          .ok ⟨plain, len, by omega, by omega⟩

def openSegment (pool : Pool) (header : Header) (file : List UInt8) (index : Nat) :
    Except SdkError (OpenedSegment header.segmentSize) :=
  match ByteFile.readExact file (segmentOffset header index) (recordLen header) with
  | none => .error (poolError ("segment " ++ toString index ++ " is not complete on disk"))
  | some sealed => openRecord pool header index sealed

structure PoolWriter where
  header : Header
  segmentsWritten : Nat
  buffer : List UInt8
  absorbed : List UInt8
  plainLen : Nat
  holdsFinalSegment : Bool
  buffer_le : buffer.length ≤ header.segmentSize

structure Finished where
  hashHex : List Char
  sha256Hex : List Char
  plainLen : Nat
  segments : Nat
  bytesOnDisk : Nat

namespace PoolWriter

def new (header : Header) : PoolWriter :=
  { header := header, segmentsWritten := 0, buffer := [], absorbed := [], plainLen := 0,
    holdsFinalSegment := false, buffer_le := Nat.zero_le _ }

def hash (w : PoolWriter) (data : List UInt8) : PoolWriter :=
  { w with absorbed := w.absorbed ++ data, plainLen := w.plainLen + data.length }

/-- Seals the buffer behind the whole segments. A write that fails has put
some bytes of the record into the file. -/
def sealBuffer (pool : Pool) (w : PoolWriter) (disk : Disk) (fault : Option Nat) :
    Option SdkError × PoolWriter × Disk :=
  if w.buffer = [] then
    (none, w, disk)
  else
    match sealSegment pool w.header w.segmentsWritten w.buffer with
    | .error error => (some error, w, disk)
    | .ok sealed =>
        let log := disk.sealed ++ [segmentSeal pool w.header w.segmentsWritten w.buffer]
        let offset := segmentOffset w.header w.segmentsWritten
        match fault with
        | some written =>
            (some (.io "write failed"), w,
              ⟨ByteFile.writeAt disk.bytes offset (sealed.take written), log⟩)
        | none =>
            (none,
              { w with
                segmentsWritten := w.segmentsWritten + 1
                buffer := []
                buffer_le := Nat.zero_le _ },
              ⟨ByteFile.writeAt disk.bytes offset sealed, log⟩)

/-- The room left in the segment, or what is left to write. -/
def takeLen (w : PoolWriter) (remaining : List UInt8) : Nat :=
  min (w.header.segmentSize - w.buffer.length) remaining.length

/-- The next bytes into the buffer and the hashers. -/
def absorb (w : PoolWriter) (remaining : List UInt8) : PoolWriter :=
  { w with
    buffer := w.buffer ++ remaining.take (w.takeLen remaining)
    absorbed := w.absorbed ++ remaining.take (w.takeLen remaining)
    plainLen := w.plainLen + w.takeLen remaining
    buffer_le := by
      have hle := w.buffer_le
      simp only [takeLen, List.length_append, List.length_take]
      omega }

theorem sealBuffer_none {pool : Pool} {w w' : PoolWriter} {disk disk' : Disk} {fault : Option Nat}
    (h : w.sealBuffer pool disk fault = (none, w', disk')) : w'.buffer = [] := by
  unfold sealBuffer at h
  split_ifs at h with hempty
  · cases h
    exact hempty
  · rcases hseal : sealSegment pool w.header w.segmentsWritten w.buffer with error | sealed
    · simp [hseal] at h
    · rw [hseal] at h
      cases fault with
      | some written => simp at h
      | none =>
        cases h
        rfl

/-- With no room in the buffer it is full. -/
theorem length_buffer_of_takeLen {w : PoolWriter} {remaining : List UInt8}
    (htake : w.takeLen remaining = 0) (hremaining : remaining ≠ []) :
    w.buffer.length = w.header.segmentSize := by
  have hpos : 0 < remaining.length := List.length_pos_of_ne_nil hremaining
  have hle := w.buffer_le
  unfold takeLen at htake
  omega

set_option linter.unusedVariables false in
/-- The loop of a write call: fill the buffer, and seal it each time it is
full. `faults` says which of the seals fail. -/
def writeLoop (pool : Pool) (remaining : List UInt8) (w : PoolWriter) (disk : Disk)
    (faults : List (Option Nat)) : Option SdkError × PoolWriter × Disk :=
  if hremaining : remaining = [] then
    (none, w, disk)
  else
    let next := w.absorb remaining
    let rest := remaining.drop (w.takeLen remaining)
    if hfull : next.buffer.length = next.header.segmentSize then
      match hseal : next.sealBuffer pool disk (faults.headD none) with
      | (some error, w', disk') => (some error, w', disk')
      | (none, w', disk') => writeLoop pool rest w' disk' faults.tail
    else
      writeLoop pool rest next disk faults
termination_by (remaining.length, w.buffer.length)
decreasing_by
  · have hempty : w'.buffer = [] := sealBuffer_none hseal
    have hpos : 0 < remaining.length := List.length_pos_of_ne_nil hremaining
    have hsize := w.header.segmentSize_pos
    rw [Prod.lex_def]
    simp only [List.length_drop, hempty, List.length_nil]
    by_cases htake : w.takeLen remaining = 0
    · right
      have hbuffer := length_buffer_of_takeLen htake hremaining
      omega
    · left
      omega
  · have hpos : 0 < remaining.length := List.length_pos_of_ne_nil hremaining
    rw [Prod.lex_def]
    simp only [List.length_drop]
    left
    by_cases htake : w.takeLen remaining = 0
    · have hbuffer := length_buffer_of_takeLen htake hremaining
      exfalso
      apply hfull
      simp [next, absorb, htake, hbuffer]
    · omega

def write (pool : Pool) (w : PoolWriter) (data : List UInt8) (disk : Disk)
    (faults : List (Option Nat)) : Option SdkError × PoolWriter × Disk :=
  if w.holdsFinalSegment ∧ data ≠ [] then
    (some (.io "media pool: this file is already complete; nothing more can be written"), w, disk)
  else
    w.writeLoop pool data disk faults

/-- The ways the last seal and the sync after it can fail. -/
inductive FinishFault where
  | sealing (written : Nat)
  | syncing
deriving DecidableEq

def FinishFault.ofSeal : Option FinishFault → Option Nat
  | some (.sealing written) => some written
  | _ => none

/-- Seals what is in the buffer as the last segment. The writer is gone
afterwards, whether this worked or not. -/
def finish (pool : Pool) (w : PoolWriter) (disk : Disk) (fault : Option FinishFault) :
    Except SdkError Finished × Disk :=
  if w.plainLen = 0 then
    (.error (.usage "a pool file needs at least one byte"), disk)
  else
    match w.sealBuffer pool disk (FinishFault.ofSeal fault) with
    | (some error, _, disk') => (.error error, disk')
    | (none, w', disk') =>
        if fault = some .syncing then
          (.error (.io "sync failed"), disk')
        else
          (.ok {
            hashHex := Bytes.toHex (pool.blake3 w'.absorbed)
            sha256Hex := Bytes.toHex (pool.sha256 w'.absorbed)
            plainLen := w'.plainLen
            segments := w'.segmentsWritten
            bytesOnDisk := disk'.bytes.length }, disk')

/-- Absorbs the segments again, from the first one up to an index. -/
def rehashLoop (pool : Pool) (file : List UInt8) :
    (left kept : Nat) → PoolWriter → Except SdkError PoolWriter
  | 0, _, w => .ok w
  | left + 1, kept, w =>
      match openSegment pool w.header file kept with
      | .error error => .error error
      | .ok segment =>
          match segment.data with
          | .error error => .error error
          | .ok data => rehashLoop pool file left (kept + 1) (w.hash data.val)

def rehashUpTo (pool : Pool) (file : List UInt8) (index : Nat) (w : PoolWriter) :
    Except SdkError PoolWriter :=
  rehashLoop pool file index 0 { w with absorbed := [], plainLen := 0, segmentsWritten := index }

/-- The segments from an index on, for as long as they open. A short segment
that is the last record is the end of a finished file; a short one before
that is damage, and the file is kept up to it. -/
def resumeLoop (pool : Pool) (file : List UInt8) (records : Nat) :
    (left index : Nat) → PoolWriter → Except SdkError PoolWriter
  | 0, _, w => .ok w
  | left + 1, index, w =>
      match openSegment pool w.header file index with
      | .error _ => .ok w
      | .ok segment =>
          match segment.data with
          | .error error => .error error
          | .ok data =>
              let w := w.hash data.val
              if segment.len = w.header.segmentSize then
                resumeLoop pool file records left (index + 1)
                  { w with segmentsWritten := index + 1 }
              else if index + 1 = records then
                .ok { w with
                  buffer := data.val
                  holdsFinalSegment := true
                  buffer_le := data.property }
              else
                w.rehashUpTo pool file index

end PoolWriter

namespace Pool

/-- A new file, emptied and given its header. -/
def createPending (pool : Pool) (mxc : List UInt8) (nonceBase : Vector UInt8 nonceBaseLen)
    (disk : Disk) (fault : Option Nat) : Option PoolWriter × Disk :=
  let header : Header :=
    { segmentSize := MediaPool.segmentSize, nonceBase := nonceBase, owner := ownerOf pool mxc,
      segmentSize_pos := by decide }
  match fault with
  | some written => (none, { disk with bytes := (encodeHeader header).take written })
  | none => (some (.new header), { disk with bytes := encodeHeader header })

/-- Opens a file that was not finished and cuts it behind its whole segments. -/
def resumePending (pool : Pool) (mxc : List UInt8) (disk : Disk) :
    Except SdkError (PoolWriter × Disk) :=
  match readHeader disk.bytes with
  | .error error => .error error
  | .ok header =>
      if header.segmentSize ≠ MediaPool.segmentSize then
        .error (poolError ("pending file has segment_size " ++ toString header.segmentSize ++
          ", this build writes " ++ toString MediaPool.segmentSize))
      else if header.owner ≠ ownerOf pool mxc then
        .error (poolError "pending file belongs to another media (its owner tag differs)")
      else
        let records := (disk.bytes.length - headerLen) / recordLen header
        match PoolWriter.resumeLoop pool disk.bytes records records 0 (.new header) with
        | .error error => .error error
        | .ok w =>
            .ok (w, { disk with
              bytes := disk.bytes.take (segmentOffset header w.segmentsWritten) })

end Pool

structure PoolReader where
  header : Header
  file : List UInt8
  segments : Nat
  plainLen : Nat
  position : Nat
  loadedSegment : Option (Nat × List UInt8)

def Pool.openRead (pool : Pool) (file : List UInt8) : Except SdkError PoolReader :=
  match readHeader file with
  | .error error => .error error
  | .ok header =>
      let body := file.length - headerLen
      if body = 0 ∨ body % recordLen header ≠ 0 then
        .error (poolError ("a complete pool file must hold whole segments, this one has " ++
          toString body ++ " bytes after the header"))
      else
        let segments := body / recordLen header
        match openSegment pool header file (segments - 1) with
        | .error error => .error error
        | .ok last =>
            .ok { header := header, file := file, segments := segments,
                  plainLen := (segments - 1) * header.segmentSize + last.len,
                  position := 0, loadedSegment := none }

namespace PoolReader

def loadSegment (pool : Pool) (r : PoolReader) (index : Nat) :
    Except SdkError (PoolReader × List UInt8) :=
  match r.loadedSegment.filter fun loaded => loaded.1 == index with
  | some (_, plain) => .ok (r, plain)
  | none =>
      match openSegment pool r.header r.file index with
      | .error error => .error error
      | .ok segment =>
          if index + 1 < r.segments ∧ segment.len ≠ r.header.segmentSize then
            .error (.io ("media pool: segment " ++ toString index ++
              " is short but is not the last"))
          else
            match segment.data with
            | .error error => .error error
            | .ok data => .ok ({ r with loadedSegment := some (index, data.val) }, data.val)

/-- At most as many bytes as asked for, and never past the end of a segment. -/
def read (pool : Pool) (r : PoolReader) (outLen : Nat) :
    Except SdkError (PoolReader × List UInt8) :=
  if r.plainLen ≤ r.position ∨ outLen = 0 then
    .ok (r, [])
  else
    let index := r.position / r.header.segmentSize
    let offset := r.position % r.header.segmentSize
    match r.loadSegment pool index with
    | .error error => .error error
    | .ok (r, segment) =>
        if segment.length ≤ offset then
          .ok (r, [])
        else
          let take := min (segment.length - offset) outLen
          .ok ({ r with position := r.position + take }, (segment.drop offset).take take)

/-- Seeking from the start; the position may lie past the end. -/
def seekStart (r : PoolReader) (offset : Nat) : PoolReader :=
  { r with position := offset }

/-- Reads until a call returns nothing, each call asking for the same number
of bytes. -/
def readToEnd (pool : Pool) (outLen : Nat) :
    (fuel : Nat) → PoolReader → Except SdkError (List UInt8)
  | 0, _ => .error (.io "read did not end")
  | fuel + 1, r =>
      match r.read pool outLen with
      | .error error => .error error
      | .ok (_, []) => .ok []
      | .ok (r, bytes) => (readToEnd pool outLen fuel r).map fun rest => bytes ++ rest

end PoolReader

end MediaPool
end WbfMatrixClient
