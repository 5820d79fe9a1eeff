import WbfMatrixClient.Lib.Chunking
import WbfMatrixClient.Upload

/-!
# Downloading and seeking

A download starts from a manifest. What the keeper of the media says about it
is first compared with the event block in the manifest, then with the
description, which has to open under the file key. After that every chunk is
read, its length checked, and opened, and at the end the digest is compared.
Reading a range opens only the chunks that it touches.

Nothing the download asks for changes the keeper, so it is given by its
answers.
-/

namespace WbfMatrixClient

structure InfoAck where
  fileSize : Option Nat
  chunkSize : Option Nat
  chunkCount : Option Nat
  truncated : Option Bool

structure ReadAck where
  chunk : Nat
  len : Nat

/-- The answers of whoever keeps the media. -/
structure Keeper where
  info : (mxc : String) → Except SdkError (InfoAck × List UInt8)
  read : (mxc : String) → (index : Nat) → Except SdkError (ReadAck × List UInt8)

structure DownloadReport where
  chunks : Nat
  bytes : Nat
  sha256Verified : Bool

structure SeekResult where
  bytes : List UInt8
  chunksRead : List Nat
  truncated : Bool

structure VerifiedTarget where
  file : FileCipher
  fileSize : Nat
  chunkCount : Nat

def Manifest.fileCipher (manifest : Manifest) : Except SdkError FileCipher :=
  match FileCipher.fromEventBlock manifest.block with
  | .error e => .error e.toSdkError
  | .ok file => .ok file

def Manifest.fileSize (manifest : Manifest) : Nat :=
  manifest.block.fileSize.getD 0

def checkInfoAgainstBlock (info : InfoAck) (block : ChunkedBlock) (expectedCount : Nat) :
    Except SdkError Unit :=
  match info.chunkSize, info.chunkCount with
  | some infoChunkSize, some infoChunkCount =>
      if infoChunkSize ≠ block.chunkSize then
        .error (.integrity ("chunk_size: block " ++ toString block.chunkSize ++ " vs Info " ++
          toString infoChunkSize))
      else if infoChunkCount ≠ expectedCount then
        .error (.integrity ("chunk_count: block implies " ++ toString expectedCount ++
          " vs Info " ++ toString infoChunkCount))
      else if ChunkedBlock.bothOrAbsent info.fileSize block.fileSize = false then
        .error (.integrity ("file_size: block " ++ toString (block.fileSize.getD 0) ++
          " vs Info " ++ toString (info.fileSize.getD 0)))
      else if info.truncated = some true then
        .error (.integrity "Info says the upload was truncated")
      else
        .ok ()
  | _, _ => .error (.integrity "Info says this is not chunked media")

/-- The description is opened as the one that sealing writes, and else as the
one that creating writes. -/
def openEitherDescription (packages : Packages) (file : FileCipher) (data : List UInt8) :
    Except CryptoError (List UInt8) :=
  match file.openDescription packages .seal data with
  | .ok json => .ok json
  | .error _ => file.openDescription packages .create data

def checkDescription (packages : Packages) (file : FileCipher) (block : ChunkedBlock)
    (data : List UInt8) : Except SdkError Unit :=
  if data.isEmpty then
    .error (.integrity "Info returned an empty description")
  else
    match openEitherDescription packages file data with
    | .error _ => .error (.integrity "description does not decrypt with this key")
    | .ok json =>
        match ChunkedBlock.fromDescriptionJson packages json with
        | .error message => .error (.integrity ("description: " ++ message))
        | .ok description =>
            if block.isConsistentWithDescription description then
              .ok ()
            else
              .error (.integrity "description disagrees with the event block")

def verifyInfo (packages : Packages) (manifest : Manifest) (info : InfoAck)
    (description : List UInt8) : Except SdkError VerifiedTarget :=
  match manifest.fileCipher with
  | .error e => .error e
  | .ok file =>
      match chunkCount manifest.fileSize manifest.block.chunkSize with
      | none => .error (.integrity "file_size / chunk_size gives more chunks than u32")
      | some expectedCount =>
          match checkInfoAgainstBlock info manifest.block expectedCount with
          | .error e => .error e
          | .ok () =>
              match checkDescription packages file manifest.block description with
              | .error e => .error e
              | .ok () =>
                  .ok { file := file, fileSize := manifest.fileSize,
                        chunkCount := expectedCount }

def verifyTarget (packages : Packages) (keeper : Keeper) (manifest : Manifest) :
    Except SdkError VerifiedTarget :=
  match keeper.info manifest.mxc with
  | .error e => .error e
  | .ok (info, description) => verifyInfo packages manifest info description

def isLowerHex (c : Char) : Bool :=
  ('0' ≤ c ∧ c ≤ '9') ∨ ('a' ≤ c ∧ c ≤ 'f')

def parseSha256Field (block : ChunkedBlock) : Except SdkError (Option (List Char)) :=
  match block.sha256 with
  | none => .ok none
  | some text =>
      if text.length = 64 ∧ text.all isLowerHex then
        .ok (some text)
      else
        .error (.integrity ("sha256 field is not 64 lowercase hex chars: " ++
          String.ofList text))

/-- The answer must be about the chunk that was asked for. -/
def readReply (ack : ReadAck) (data : List UInt8) (index : Nat) : Except SdkError (List UInt8) :=
  if ack.len ≠ data.length then
    .error (.protocol ("Read ack says len " ++ toString ack.len ++ " but data is " ++
      toString data.length ++ " bytes"))
  else if ack.chunk ≠ index then
    .error (.protocol ("asked for chunk " ++ toString index ++ ", got " ++ toString ack.chunk))
  else
    .ok data

def openChunkData (packages : Packages) (manifest : Manifest) (target : VerifiedTarget)
    (index : Nat) (data : List UInt8) : Except SdkError (List UInt8) :=
  match expectedPlainLen target.fileSize manifest.block.chunkSize index with
  | none => .error (.integrity ("chunk " ++ toString index ++ " is beyond chunk_count"))
  | some expected =>
      match target.file.openChunk packages index data expected with
      | .error e => .error e.toSdkError
      | .ok plain => .ok plain

def readAndOpenChunk (packages : Packages) (keeper : Keeper) (manifest : Manifest)
    (target : VerifiedTarget) (index : Nat) : Except SdkError (List UInt8) :=
  match keeper.read manifest.mxc index with
  | .error e => .error e
  | .ok (ack, data) =>
      match readReply ack data index with
      | .error e => .error e
      | .ok data => openChunkData packages manifest target index data

/-- The chunks in order, behind what has been written. -/
def downloadLoop (packages : Packages) (keeper : Keeper) (manifest : Manifest)
    (target : VerifiedTarget) : (indices : List Nat) → (out : List UInt8) →
      Except SdkError Unit × List UInt8
  | [], out => (.ok (), out)
  | index :: indices, out =>
      match readAndOpenChunk packages keeper manifest target index with
      | .error e => (.error e, out)
      | .ok plain => downloadLoop packages keeper manifest target indices (out ++ plain)

def finishDownload (packages : Packages) (target : VerifiedTarget)
    (expectedSha256 : Option (List Char)) (out : List UInt8) : Except SdkError DownloadReport :=
  if out.length ≠ target.fileSize then
    .error (.integrity ("wrote " ++ toString out.length ++ " bytes, file_size says " ++
      toString target.fileSize))
  else
    match expectedSha256 with
    | none =>
        .ok { chunks := target.chunkCount, bytes := out.length, sha256Verified := false }
    | some expected =>
        if packages.sha256Hex out ≠ expected then
          .error (.integrity ("sha256 mismatch: block " ++ String.ofList expected ++ ", file " ++
            String.ofList (packages.sha256Hex out)))
        else
          .ok { chunks := target.chunkCount, bytes := out.length, sha256Verified := true }

/-- The result, and what has been written. -/
def download (packages : Packages) (keeper : Keeper) (manifest : Manifest) :
    Except SdkError DownloadReport × List UInt8 :=
  match verifyTarget packages keeper manifest with
  | .error e => (.error e, [])
  | .ok target =>
      match parseSha256Field manifest.block with
      | .error e => (.error e, [])
      | .ok expectedSha256 =>
          match downloadLoop packages keeper manifest target (List.range target.chunkCount) [] with
          | (.error e, out) => (.error e, out)
          | (.ok (), out) => (finishDownload packages target expectedSha256 out, out)

/-- The part of a chunk that lies in the range. -/
def wantedPart (plain : List UInt8) (index lower upper : Nat) : Except SdkError (List UInt8) :=
  if lower ≤ upper ∧ upper ≤ plain.length then
    .ok ((plain.drop lower).take (upper - lower))
  else
    .error (.integrity ("chunk " ++ toString index ++ " has " ++ toString plain.length ++
      " bytes, wanted " ++ toString lower ++ ".." ++ toString upper))

/-- The chunks from an index on until the end of the range. The chunk size is
positive wherever this is called. -/
def seekLoop (packages : Packages) (keeper : Keeper) (manifest : Manifest)
    (target : VerifiedTarget) (start stop index : Nat) (bytes : List UInt8)
    (chunksRead : List Nat) : Except SdkError (List UInt8 × List Nat) :=
  if _h : 0 < manifest.block.chunkSize ∧ index * manifest.block.chunkSize < stop then
    match readAndOpenChunk packages keeper manifest target index with
    | .error e => .error e
    | .ok plain =>
        let chunkStart := index * manifest.block.chunkSize
        match wantedPart plain index (start - chunkStart)
            (min (stop - chunkStart) plain.length) with
        | .error e => .error e
        | .ok wanted =>
            seekLoop packages keeper manifest target start stop (index + 1) (bytes ++ wanted)
              (chunksRead ++ [index])
  else
    .ok (bytes, chunksRead)
termination_by stop - index * manifest.block.chunkSize
decreasing_by
  rw [Nat.add_mul, Nat.one_mul]
  omega

/-- Where a range ends, and whether it was cut at the end of the file. The sum
of a position and a length stays within 64 bits. -/
def seekEnd (fileSize chunkSize start startIndex : Nat) : Option Nat → Nat × Bool
  | none => (min ((startIndex + 1) * chunkSize) fileSize, false)
  | some len =>
      let wantedEnd := min (start + len) 0xFFFFFFFFFFFFFFFF
      (min wantedEnd fileSize, fileSize < wantedEnd)

def seekRead (packages : Packages) (keeper : Keeper) (manifest : Manifest) (start : Nat)
    (len : Option Nat) : Except SdkError SeekResult :=
  match verifyTarget packages keeper manifest with
  | .error e => .error e
  | .ok target =>
      if target.fileSize ≤ start then
        .error (.usage ("--at " ++ toString start ++ " is not below file_size " ++
          toString target.fileSize))
      else
        match locate start manifest.block.chunkSize with
        | none => .error (.usage "chunk_size 0")
        | some first =>
            let stop := seekEnd target.fileSize manifest.block.chunkSize start first.index len
            match seekLoop packages keeper manifest target start stop.1 first.index [] [] with
            | .error e => .error e
            | .ok (bytes, chunksRead) =>
                .ok { bytes := bytes, chunksRead := chunksRead, truncated := stop.2 }

theorem checkDescription_sealed {packages : Packages} {file : FileCipher}
    {block description : ChunkedBlock} (hcheck : description.checkAsEventBlock = .ok ())
    (hsame : block.isConsistentWithDescription description.toDescription = true) :
    checkDescription packages file block
      (file.sealDescription packages .seal (description.toDescriptionJson packages)) =
        .ok () := by
  have hdata : file.sealDescription packages .seal (description.toDescriptionJson packages) ≠ [] :=
    FileCipher.sealWithIndex_ne_nil packages file _ _ (packages.toJson_ne_nil _)
  simp only [checkDescription, openEitherDescription]
  rw [if_neg (by simpa using hdata), FileCipher.openDescription_sealDescription]
  simp only
  rw [ChunkedBlock.fromDescriptionJson_toDescriptionJson packages hcheck]
  simp only
  rw [if_pos hsame]

/-- A digest as text passes the check of its field. -/
theorem parseSha256Field_of_digest {packages : Packages} {block : ChunkedBlock}
    {content : List UInt8}
    (h : block.sha256 = none ∨ block.sha256 = some (packages.sha256Hex content)) :
    parseSha256Field block = .ok block.sha256 := by
  have hdigit : ∀ n, n < 16 → isLowerHex (Nat.digitChar n) = true := by decide
  rcases h with h | h
  · rw [parseSha256Field, h]
  · have hlength : (packages.sha256Hex content).length = 64 := by
      rw [Packages.sha256Hex, Bytes.length_toHex]
      simp
    have hall : (packages.sha256Hex content).all isLowerHex = true := by
      rw [List.all_eq_true]
      intro c hc
      obtain ⟨n, hn, rfl⟩ := Bytes.mem_toHex hc
      exact hdigit n hn
    rw [parseSha256Field, h]
    simp only
    rw [if_pos ⟨hlength, hall⟩]

/-- The keeper has every chunk of the content, and the manifest passes the
checks against what the keeper says about it. -/
structure Keeps (packages : Packages) (keeper : Keeper) (manifest : Manifest)
    (file : FileCipher) (content : List UInt8) (total : Nat) : Prop where
  chunkSize : manifest.block.chunkSize = file.chunkSize
  count : chunkCount content.length file.chunkSize = some total
  target : verifyTarget packages keeper manifest =
    .ok { file := file, fileSize := content.length, chunkCount := total }
  read : ∀ index, index < total →
    let data := file.sealWithIndex packages index chunkAad
      (Chunking.piece file.chunkSize index content)
    keeper.read manifest.mxc index = .ok ({ chunk := index, len := data.length }, data)
  sha256 : manifest.block.sha256 = none ∨
    manifest.block.sha256 = some (packages.sha256Hex content)

namespace Keeps

variable {packages : Packages} {keeper : Keeper} {manifest : Manifest} {file : FileCipher}
  {content : List UInt8} {total : Nat}

section

variable (h : Keeps packages keeper manifest file content total)

include h

theorem chunkSize_pos : 0 < file.chunkSize := (chunkCount_eq_some_iff.mp h.count).1

/-- Every chunk is read and opened. -/
theorem readAndOpenChunk {index : Nat} (hindex : index < total) :
    readAndOpenChunk packages keeper manifest
        { file := file, fileSize := content.length, chunkCount := total } index =
      .ok (Chunking.piece file.chunkSize index content) := by
  obtain ⟨_, hmax, _⟩ := chunkCount_eq_some_iff.mp h.count
  have hexpected : expectedPlainLen content.length file.chunkSize index =
      some (Chunking.piece file.chunkSize index content).length := by
    rw [expectedPlainLen_of_lt h.count hindex, Chunking.length_piece, Nat.min_comm]
  have hseal : file.sealChunk packages index (Chunking.piece file.chunkSize index content) =
      .ok (file.sealWithIndex packages index chunkAad
        (Chunking.piece file.chunkSize index content)) :=
    FileCipher.sealChunk_eq_ok_iff.mpr ⟨by omega, Chunking.length_piece_le _ _ _, rfl⟩
  simp only [WbfMatrixClient.readAndOpenChunk, h.read index hindex, readReply, ne_eq,
    not_true_eq_false, if_false, openChunkData, h.chunkSize, hexpected,
    FileCipher.openChunk_sealChunk hseal]

theorem downloadLoop :
    ∀ (indices : List Nat) (out : List UInt8), (∀ index ∈ indices, index < total) →
      WbfMatrixClient.downloadLoop packages keeper manifest
          { file := file, fileSize := content.length, chunkCount := total } indices out =
        (.ok (), out ++
          (indices.map fun index => Chunking.piece file.chunkSize index content).flatten) := by
  intro indices
  induction indices with
  | nil =>
    intro out _
    simp [WbfMatrixClient.downloadLoop]
  | cons index indices ih =>
    intro out hindices
    rw [WbfMatrixClient.downloadLoop, h.readAndOpenChunk (hindices index (by simp))]
    simp only
    rw [ih _ fun i hi => hindices i (by simp [hi])]
    simp

theorem download : WbfMatrixClient.download packages keeper manifest =
      (.ok { chunks := total, bytes := content.length,
             sha256Verified := manifest.block.sha256.isSome }, content) := by
  have hloop := h.downloadLoop (List.range total) [] fun index hi => List.mem_range.mp hi
  rw [Chunking.flatten_pieces, List.nil_append,
    List.take_of_length_le (chunkCount_le h.count)] at hloop
  rw [WbfMatrixClient.download, h.target]
  simp only
  rw [parseSha256Field_of_digest h.sha256]
  simp only
  rw [hloop]
  simp only [finishDownload, ne_eq, not_true_eq_false, if_false]
  rcases h.sha256 with hsha | hsha
  · rw [hsha]
    rfl
  · rw [hsha]
    simp

omit h in
/-- The range up to the end of a chunk, from the range up to its beginning. -/
theorem range_append_wanted {size index start stop : Nat} {xs : List UInt8}
    (hindex : index * size < stop) (hstop : stop ≤ xs.length) :
    (xs.take (min stop (index * size))).drop start ++
        ((Chunking.piece size index xs).drop (start - index * size)).take
          (min (stop - index * size) (Chunking.piece size index xs).length -
            (start - index * size)) =
      (xs.take (min stop ((index + 1) * size))).drop start := by
  have hbefore : min stop (index * size) = index * size := by omega
  have hsplit : min stop ((index + 1) * size) =
      index * size + min (stop - index * size) size := by
    rw [Nat.add_mul, Nat.one_mul]
    omega
  rw [hbefore, hsplit, List.take_add, List.drop_append]
  congr 1
  have hlength : min (index * size) xs.length = index * size := by omega
  rw [Chunking.length_piece, Chunking.drop_piece, List.drop_take, List.drop_drop,
    List.length_take, List.take_take, hlength, List.take_eq_take_iff, List.length_drop]
  omega

theorem seekLoop {start stop : Nat} (hstart : start ≤ stop) (hstop : stop ≤ content.length) :
    ∀ (index : Nat) (chunksRead : List Nat), start < (index + 1) * file.chunkSize →
      ∃ chunksRead',
        WbfMatrixClient.seekLoop packages keeper manifest
            { file := file, fileSize := content.length, chunkCount := total } start stop index
            ((content.take (min stop (index * file.chunkSize))).drop start) chunksRead =
          .ok ((content.take stop).drop start, chunksRead') := by
  intro index
  induction hrest : stop - index * file.chunkSize using Nat.strong_induction_on
    generalizing index with
  | _ rest ih =>
    intro chunksRead hinside
    rw [WbfMatrixClient.seekLoop, h.chunkSize]
    by_cases hmore : index * file.chunkSize < stop
    · have hlt : index < total := (lt_chunkCount_iff h.count).mpr (by omega)
      have hlength := Chunking.length_piece file.chunkSize index content
      have hpos := h.chunkSize_pos
      have hnext : (index + 1) * file.chunkSize = index * file.chunkSize + file.chunkSize := by
        rw [Nat.add_mul, Nat.one_mul]
      have hwanted : start - index * file.chunkSize ≤
            min (stop - index * file.chunkSize)
              (Chunking.piece file.chunkSize index content).length ∧
          min (stop - index * file.chunkSize)
              (Chunking.piece file.chunkSize index content).length ≤
            (Chunking.piece file.chunkSize index content).length := by
        omega
      rw [dif_pos ⟨hpos, hmore⟩, h.readAndOpenChunk hlt]
      simp only [wantedPart, hwanted, and_self, if_true]
      rw [range_append_wanted hmore hstop]
      exact ih _ (by omega) (index + 1) rfl _ (by rw [Nat.add_mul, Nat.one_mul]; omega)
    · rw [dif_neg (by omega)]
      refine ⟨chunksRead, ?_⟩
      rw [Nat.min_eq_left (by omega)]

/-- Reading a range gives that range of the file, cut at its end, and without a
length the rest of the chunk it begins in. -/
theorem seekRead (hlength : content.length < 2 ^ 64) {start : Nat} (len : Option Nat)
    (hstart : start < content.length) :
    ∃ result, WbfMatrixClient.seekRead packages keeper manifest start len = .ok result ∧
      result.bytes = (content.drop start).take
        (len.getD ((start / file.chunkSize + 1) * file.chunkSize - start)) := by
  have hpos := h.chunkSize_pos
  obtain ⟨_, hmax, _⟩ := chunkCount_eq_some_iff.mp h.count
  have hbegin : start / file.chunkSize * file.chunkSize ≤ start := Nat.div_mul_le_self _ _
  have hinside : start < (start / file.chunkSize + 1) * file.chunkSize := by
    rw [Nat.mul_comm]
    exact Nat.lt_mul_div_succ start hpos
  have hfirst : start / file.chunkSize < total := (lt_chunkCount_iff h.count).mpr (by omega)
  have hlocate : locate start file.chunkSize =
      some { index := start / file.chunkSize, offset := start % file.chunkSize } := by
    rw [locate, if_neg (by omega), if_neg (by omega)]
  have hstop : (seekEnd content.length file.chunkSize start (start / file.chunkSize) len).1 =
      min (start + len.getD ((start / file.chunkSize + 1) * file.chunkSize - start))
        content.length := by
    cases len with
    | none =>
      simp only [seekEnd, Option.getD_none]
      omega
    | some len =>
      simp only [seekEnd, Option.getD_some]
      omega
  have hle : start ≤ (seekEnd content.length file.chunkSize start
      (start / file.chunkSize) len).1 := by
    rw [hstop]
    omega
  have hwithin : (seekEnd content.length file.chunkSize start
      (start / file.chunkSize) len).1 ≤ content.length := by
    rw [hstop]
    omega
  obtain ⟨chunksRead, hloop⟩ := h.seekLoop hle hwithin (start / file.chunkSize) [] hinside
  have hnil : (content.take (min
      (seekEnd content.length file.chunkSize start (start / file.chunkSize) len).1
      (start / file.chunkSize * file.chunkSize))).drop start = [] := by
    rw [List.drop_eq_nil_iff, List.length_take]
    omega
  rw [hnil] at hloop
  refine ⟨{
      bytes := (content.take (seekEnd content.length file.chunkSize start
        (start / file.chunkSize) len).1).drop start
      chunksRead := chunksRead
      truncated := (seekEnd content.length file.chunkSize start (start / file.chunkSize) len).2 },
    ?_, ?_⟩
  · rw [WbfMatrixClient.seekRead, h.target]
    simp only
    rw [if_neg (by omega), h.chunkSize, hlocate]
    simp only
    rw [hloop]
  · simp only
    rw [hstop, List.drop_take, List.take_eq_take_iff, List.length_drop]
    omega

end

end Keeps

end WbfMatrixClient
