import WbfMatrixClient.MediaPool

/-!
# The seek file

Chunks that were fetched out of order stand in a file of cells of one size, in
the order of their arrival. A cell is the number of its chunk and the sealed
chunk, filled up with zeros; the nonce is made from the number of the cell. A
table in memory says which cell a chunk is in, and opening the file again builds
it anew from the chunk numbers in the cells.

The file is a list of bytes, and next to it stands the log of all that was sealed.
A file that is not there is one without bytes.
-/

namespace WbfMatrixClient

open Sealing

structure SeekStore where
  nonceBase : Vector UInt8 MediaPool.nonceBaseLen
  chunkSize : UInt32
  mxc : List UInt8
  /-- One more than the cell of a chunk, or zero. -/
  slots : List Nat
  /-- The number of the next cell. -/
  cells : Nat

namespace SeekStore

open MediaPool (Pool Disk poolError lenField)

def magic : List UInt8 := [0x57, 0x42, 0x46, 0x53]

def version : UInt8 := 1

def headerLen : Nat := 32

def indexField : Nat := 4

/-- The bytes of "wbf-media-seek v1". -/
def aadPrefix : List UInt8 :=
  [0x77, 0x62, 0x66, 0x2d, 0x6d, 0x65, 0x64, 0x69, 0x61, 0x2d, 0x73, 0x65, 0x65, 0x6b, 0x20,
    0x76, 0x31]

def maxSeekChunks : Nat := 2 ^ 26

def maxCells : Nat := 2 ^ 32 - 1

def encodeHeader (chunkSize chunkCount : UInt32) (nonceBase : Vector UInt8 MediaPool.nonceBaseLen) :
    List UInt8 :=
  magic ++ [version, 0, 0, 0] ++ Bytes.toLittleEndian 4 chunkSize.toNat ++
    Bytes.toLittleEndian 4 chunkCount.toNat ++ nonceBase.toList

/-- The size of every cell on disk. -/
def cellLen (chunkSize : UInt32) : Nat :=
  indexField + lenField + chunkSize.toNat + MediaPool.tagLen

def cellOffset (chunkSize : UInt32) (slot : Nat) : Nat :=
  headerLen + slot * cellLen chunkSize

def nonceAndAad (store : SeekStore) (slot index : Nat) : List UInt8 × List UInt8 :=
  (store.nonceBase.toList ++ Bytes.toLittleEndian 8 slot,
    aadPrefix ++ store.nonceBase.toList ++ Bytes.toLittleEndian 8 slot ++
      Bytes.toLittleEndian 4 index ++ Bytes.toLittleEndian 4 store.chunkSize.toNat ++ store.mxc)

/-- The plaintext of a cell, filled up with zeros. -/
def padded (chunkSize : UInt32) (plain : List UInt8) : List UInt8 :=
  Bytes.toLittleEndian lenField plain.length ++ plain ++
    List.replicate (chunkSize.toNat - plain.length) 0

/-- The call of the cipher that seals a chunk in a cell. -/
def cellSeal (pool : Pool) (store : SeekStore) (slot index : Nat) (plain : List UInt8) :
    Sealed (List UInt8) (List UInt8) :=
  { key := pool.key
    nonce := (store.nonceAndAad slot index).1
    aad := (store.nonceAndAad slot index).2
    plain := padded store.chunkSize plain }

/-- A cell as it is written. -/
def sealedCell (pool : Pool) (store : SeekStore) (slot index : Nat) (plain : List UInt8) :
    List UInt8 :=
  let call := store.cellSeal pool slot index plain
  Bytes.toLittleEndian indexField index ++
    pool.aead.encrypt call.key call.nonce call.aad call.plain

/-- Opening the bytes of one cell. -/
def openCell (pool : Pool) (store : SeekStore) (slot : Nat) (cell : List UInt8) :
    Except SdkError (Nat × List UInt8) :=
  let index := Bytes.ofLittleEndian (cell.take indexField)
  match pool.aead.decrypt pool.key (store.nonceAndAad slot index).1
      (store.nonceAndAad slot index).2 (cell.drop indexField) with
  | none => .error (poolError ("seek cell " ++ toString slot ++ " does not authenticate"))
  | some plain =>
      if plain.length < lenField then
        .error (poolError ("seek cell " ++ toString slot ++ " has no length field"))
      else
        let len := Bytes.ofLittleEndian (plain.take lenField)
        if len = 0 ∨ store.chunkSize.toNat < len then
          .error (poolError ("seek cell " ++ toString slot ++ " claims " ++ toString len ++
            " bytes (1..=" ++ toString store.chunkSize ++ " allowed)"))
        else if plain.length < lenField + len then
          .error (poolError ("seek cell " ++ toString slot ++ " length runs past the cell"))
        else
          .ok (index, (plain.drop lenField).take len)

def readCell (pool : Pool) (store : SeekStore) (file : List UInt8) (slot : Nat) :
    Except SdkError (Nat × List UInt8) :=
  match ByteFile.readExact file (cellOffset store.chunkSize slot) (cellLen store.chunkSize) with
  | none => .error (.io "failed to fill whole buffer")
  | some cell => store.openCell pool slot cell

/-- The cells that are whole. -/
def wholeCells (chunkSize : UInt32) (file : List UInt8) : Nat :=
  min ((file.length - headerLen) / cellLen chunkSize) maxCells

/-- A cell that was begun counts as used. -/
def usedCells (chunkSize : UInt32) (file : List UInt8) : Nat :=
  min ((file.length - headerLen + (cellLen chunkSize - 1)) / cellLen chunkSize) maxCells

/-- The chunk number that stands in a cell. -/
def indexAt (chunkSize : UInt32) (file : List UInt8) (slot : Nat) : Option Nat :=
  (ByteFile.readExact file (cellOffset chunkSize slot) indexField).map Bytes.ofLittleEndian

/-- The table of the cells from a number on. A cell whose chunk number is past the
end is left out, and of two cells with one chunk the first one stays. -/
def rebuild (chunkSize : UInt32) (file : List UInt8) :
    (left slot : Nat) → List Nat → Except SdkError (List Nat)
  | 0, _, slots => .ok slots
  | left + 1, slot, slots =>
      match indexAt chunkSize file slot with
      | none => .error (.io "failed to fill whole buffer")
      | some index =>
          rebuild chunkSize file left (slot + 1)
            (if slots[index]? = some 0 then slots.set index (slot + 1) else slots)

/-- The header is one of this file. -/
def headerFits (chunkSize chunkCount : UInt32) (file : List UInt8) : Bool :=
  match ByteFile.readExact file 0 headerLen with
  | none => false
  | some header =>
      header.take 4 = magic ∧ header.getD 4 0 = version ∧
        Bytes.ofLittleEndian ((header.drop 8).take 4) = chunkSize.toNat ∧
        Bytes.ofLittleEndian ((header.drop 12).take 4) = chunkCount.toNat

def blank (mxc : List UInt8) (chunkSize chunkCount : UInt32)
    (nonceBase : Vector UInt8 MediaPool.nonceBaseLen) : SeekStore :=
  { nonceBase := nonceBase, chunkSize := chunkSize, mxc := mxc,
    slots := List.replicate chunkCount.toNat 0, cells := 0 }

/-- A file that is there. Nothing is returned if it is not one of these chunks,
or if its first cell does not open. -/
def reopen (pool : Pool) (mxc : List UInt8) (chunkSize chunkCount : UInt32)
    (file : List UInt8) : Except SdkError (Option SeekStore) :=
  if headerFits chunkSize chunkCount file then
    let nonceBase := Vector.ofFn fun i => file.getD (16 + i.val) 0
    let store := blank mxc chunkSize chunkCount nonceBase
    let whole := wholeCells chunkSize file
    match rebuild chunkSize file whole 0 store.slots with
    | .error error => .error error
    | .ok slots =>
        let store := { store with slots := slots, cells := usedCells chunkSize file }
        if 0 < whole ∧ (store.readCell pool file 0).toOption = none then
          .ok none
        else
          .ok (some store)
  else
    .ok none

/-- The file is opened again if it can be, and made anew otherwise. A header that
is not written leaves some of its bytes. -/
def openStore (pool : Pool) (mxc : List UInt8) (chunkSize chunkCount : UInt32)
    (nonceBase : Vector UInt8 MediaPool.nonceBaseLen) (disk : Disk) (fault : Option Nat) :
    Except SdkError SeekStore × Disk :=
  if chunkSize = 0 ∨ chunkCount = 0 ∨ maxSeekChunks < chunkCount.toNat then
    (.error (.usage ("no seek file for chunk_size " ++ toString chunkSize ++ " × chunk_count " ++
      toString chunkCount)), disk)
  else
    match reopen pool mxc chunkSize chunkCount disk.bytes with
    | .error error => (.error error, disk)
    | .ok (some store) => (.ok store, disk)
    | .ok none =>
        let header := encodeHeader chunkSize chunkCount nonceBase
        match fault with
        | some written => (.error (.io "write failed"), { disk with bytes := header.take written })
        | none => (.ok (blank mxc chunkSize chunkCount nonceBase), { disk with bytes := header })

def has (store : SeekStore) (index : Nat) : Bool :=
  store.slots[index]?.any fun slot => slot ≠ 0

/-- Some bytes written at an offset. Without any the file stays as it is. -/
def writeCell (file : List UInt8) (offset : Nat) (part : List UInt8) : List UInt8 :=
  if part = [] then file else ByteFile.writeAt file offset part

/-- The number of the cell is taken before it is written, and the table is changed
after. A write that fails has put some bytes of the cell into the file, and all of
them if it is the sync that fails. -/
def append (pool : Pool) (store : SeekStore) (index : Nat) (plain : List UInt8) (disk : Disk)
    (fault : Option Nat) : Option SdkError × SeekStore × Disk :=
  if store.slots.length ≤ index then
    (some (.usage ("chunk " ++ toString index ++ " is past chunk_count " ++
      toString store.slots.length)), store, disk)
  else if store.has index then
    (none, store, disk)
  else if plain = [] ∨ store.chunkSize.toNat < plain.length then
    (some (.usage ("chunk " ++ toString index ++ " has " ++ toString plain.length ++
      " bytes (1..=" ++ toString store.chunkSize ++ " allowed)")), store, disk)
  else if maxCells ≤ store.cells then
    (some (.usage "the seek file has no cell numbers left"), store, disk)
  else
    let slot := store.cells
    let cell := store.sealedCell pool slot index plain
    let log := disk.sealed ++ [store.cellSeal pool slot index plain]
    let offset := cellOffset store.chunkSize slot
    let taken := { store with cells := slot + 1 }
    match fault with
    | some written =>
        (some (.io "write failed"), taken,
          ⟨writeCell disk.bytes offset (cell.take written), log⟩)
    | none =>
        (none, { taken with slots := store.slots.set index (slot + 1) },
          ⟨writeCell disk.bytes offset cell, log⟩)

/-- A cell that does not open is taken out of the table. -/
def read (pool : Pool) (store : SeekStore) (file : List UInt8) (index : Nat) :
    Option (List UInt8) × SeekStore :=
  match (store.slots[index]?).filter fun slot => slot ≠ 0 with
  | none => (none, store)
  | some slot =>
      match store.readCell pool file (slot - 1) with
      | .ok (stored, plain) =>
          if stored = index then (some plain, store)
          else (none, { store with slots := store.slots.set index 0 })
      | .error _ => (none, { store with slots := store.slots.set index 0 })

end SeekStore

end WbfMatrixClient
