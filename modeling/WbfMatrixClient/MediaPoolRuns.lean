import WbfMatrixClient.Lib.Chunking
import WbfMatrixClient.Lib.Runs
import WbfMatrixClient.MediaPool

/-!
# Writing, crashing and resuming a pool file

One content is written into a pool file by any number of writers one after
another. A step creates the file, hands the writer the next bytes of the
content from its plain length on, finishes, crashes, or resumes. A crash
leaves any file whose records either are the ones from before or do not open.

The invariant compares the file with the records the content would be sealed
to: a writer's whole segments are these records, what follows them is a part
of the next one, and the buffer is what the content has between the two.
-/

namespace WbfMatrixClient
namespace MediaPool

open Sealing Chunking

/-- What is written into the file. Its length fits the plain length's 64 bits. -/
structure Content where
  bytes : List UInt8
  length_lt : bytes.length < 2 ^ 64

structure State where
  disk : Disk
  writer : Option PoolWriter
  finished : Option Finished

def State.start : State :=
  { disk := ⟨[], []⟩, writer := none, finished := none }

inductive Action where
  | create (nonceBase : Vector UInt8 nonceBaseLen) (fault : Option Nat)
  | write (len : Nat) (faults : List (Option Nat))
  | finish (fault : Option PoolWriter.FinishFault)
  | crash (bytes : List UInt8)
  | resume

/-- Every record that is whole after a crash is the one from before, or does
not open. -/
def crashLeaves (pool : Pool) (before after : List UInt8) : Bool :=
  match readHeader after with
  | .error _ => true
  | .ok header =>
      (List.range ((after.length - headerLen) / recordLen header)).all fun index =>
        match openSegment pool header after index with
        | .error _ => true
        | .ok _ =>
            decide (readHeader before = .ok header ∧
              ByteFile.readExact after (segmentOffset header index) (recordLen header) =
                ByteFile.readExact before (segmentOffset header index) (recordLen header))

/-- One step. The caller finishes only when all of the content is written. -/
def step (pool : Pool) (mxc : List UInt8) (content : Content) (s : State) : Action → State
  | .create nonceBase fault =>
      if s.writer.isNone ∧ s.finished.isNone then
        let (writer, disk) := pool.createPending mxc nonceBase s.disk fault
        { s with writer := writer, disk := disk }
      else s
  | .write len faults =>
      match s.writer with
      | some w =>
          let (_, w, disk) :=
            w.write pool ((content.bytes.drop w.plainLen).take len) s.disk faults
          { s with writer := some w, disk := disk }
      | none => s
  | .finish fault =>
      match s.writer with
      | some w =>
          if w.plainLen = content.bytes.length then
            let (result, disk) := w.finish pool s.disk fault
            { writer := none, disk := disk, finished := result.toOption }
          else s
      | none => s
  | .crash bytes =>
      if crashLeaves pool s.disk.bytes bytes then
        { writer := none, finished := none, disk := { s.disk with bytes := bytes } }
      else s
  | .resume =>
      match s.writer with
      | some _ => s
      | none =>
          match pool.resumePending mxc s.disk with
          | .ok (w, disk) => { writer := some w, disk := disk, finished := none }
          | .error _ => { s with finished := none }

section Records

variable (pool : Pool) (content : Content)

/-- The record the content's piece at an index is sealed to. -/
def sealedRecord (header : Header) (index : Nat) : List UInt8 :=
  let call := segmentSeal pool header index (piece segmentSize index content.bytes)
  pool.aead.encrypt call.key call.nonce call.aad call.plain

/-- The index of a piece that is not empty. -/
def UsedIndex (index : Nat) : Prop :=
  index * segmentSize < content.bytes.length

theorem length_piece_pos {content : Content} {index : Nat} (h : UsedIndex content index) :
    0 < (piece segmentSize index content.bytes).length := by
  unfold UsedIndex at h
  rw [length_piece]
  have hsize : 0 < segmentSize := by decide
  omega

variable {header : Header}

theorem length_segmentPlain {data : List UInt8} (h : data.length ≤ header.segmentSize) :
    (segmentPlain header data).length = lenField + header.segmentSize := by
  simp only [segmentPlain, List.length_append, Bytes.length_toLittleEndian,
    List.length_replicate]
  omega

theorem length_sealedRecord (hsize : header.segmentSize = segmentSize) (index : Nat) :
    (sealedRecord pool content header index).length = recordLen header := by
  have hpiece : (piece segmentSize index content.bytes).length ≤ header.segmentSize := by
    rw [hsize]
    exact length_piece_le _ _ _
  simp only [sealedRecord, pool.aead.length_encrypt, segmentSeal, length_segmentPlain hpiece]
  rfl

theorem segmentOffset_succ (header : Header) (index : Nat) :
    segmentOffset header (index + 1) = segmentOffset header index + recordLen header := by
  simp only [segmentOffset, Nat.add_mul, Nat.one_mul]
  omega

theorem segmentOffset_le {i j : Nat} (h : i ≤ j) :
    segmentOffset header i ≤ segmentOffset header j := by
  have hmul := Nat.mul_le_mul_right (recordLen header) h
  unfold segmentOffset
  omega

/-- The record of a used index opens, and its data are the content's piece. -/
theorem openRecord_sealedRecord {index : Nat} (hsize : header.segmentSize = segmentSize)
    (hused : UsedIndex content index) :
    ∃ segment data,
      openRecord pool header index (sealedRecord pool content header index) = .ok segment ∧
        segment.len = (piece segmentSize index content.bytes).length ∧
        segment.data = .ok data ∧ data.val = piece segmentSize index content.bytes := by
  have hpos := length_piece_pos hused
  have hle : (piece segmentSize index content.bytes).length ≤ header.segmentSize := by
    rw [hsize]
    exact length_piece_le _ _ _
  have hle' := length_piece_le segmentSize index content.bytes
  have hplain := length_segmentPlain hle
  have htake : (segmentPlain header (piece segmentSize index content.bytes)).take lenField =
      Bytes.toLittleEndian lenField (piece segmentSize index content.bytes).length := by
    unfold segmentPlain
    rw [List.append_assoc, List.take_left' (Bytes.length_toLittleEndian _ _)]
  have hlen : Bytes.ofLittleEndian
      ((segmentPlain header (piece segmentSize index content.bytes)).take lenField) =
        (piece segmentSize index content.bytes).length := by
    rw [htake]
    refine Bytes.ofLittleEndian_toLittleEndian lenField _ (lt_of_le_of_lt hle' ?_)
    decide
  have hdecrypt : pool.aead.decrypt pool.key (nonceAndAad header index).1
      (nonceAndAad header index).2 (sealedRecord pool content header index) =
        some (segmentPlain header (piece segmentSize index content.bytes)) :=
    pool.aead.decrypt_encrypt _ _ _ _
  refine ⟨⟨segmentPlain header (piece segmentSize index content.bytes),
    (piece segmentSize index content.bytes).length, hpos, hle⟩,
    ⟨piece segmentSize index content.bytes, hle⟩, ?_, rfl, ?_, rfl⟩
  · unfold openRecord
    rw [hdecrypt]
    simp only [hplain, hlen]
    rw [if_neg (by omega), dif_neg (by omega)]
  · unfold OpenedSegment.data
    dsimp only
    rw [hplain, if_pos (by omega)]
    congr 2
    unfold segmentPlain
    rw [List.append_assoc, List.drop_left' (Bytes.length_toLittleEndian _ _),
      List.take_left' rfl]

end Records

section Files

variable (pool : Pool) (content : Content)

/-- A file with the first k records of the content, and possibly a part of the
next one. -/
structure Written (header : Header) (k : Nat) (file : List UInt8) : Prop where
  header_eq : readHeader file = .ok header
  size_eq : header.segmentSize = segmentSize
  offset_le : segmentOffset header k ≤ file.length
  records : ∀ i < k, ByteFile.readExact file (segmentOffset header i) (recordLen header) =
    some (sealedRecord pool content header i)
  tail : file.drop (segmentOffset header k) = [] ∨
    (UsedIndex content k ∧ ∃ m,
      file.drop (segmentOffset header k) = (sealedRecord pool content header k).take m)

/-- A file on disk between two writers: every whole record is one of the
content's, or does not open. -/
def AtRest (file : List UInt8) : Prop :=
  ∀ header, readHeader file = .ok header → header.segmentSize = segmentSize →
    ∀ i sealed,
      ByteFile.readExact file (segmentOffset header i) (recordLen header) = some sealed →
      (UsedIndex content i ∧ sealed = sealedRecord pool content header i) ∨
        ∃ error, openRecord pool header i sealed = .error error

variable {file : List UInt8}

/-- Only the first bytes of a file are its header. -/
theorem readHeader_congr {file' : List UInt8}
    (h : ByteFile.readExact file 0 headerLen = ByteFile.readExact file' 0 headerLen) :
    readHeader file = readHeader file' := by
  unfold readHeader
  rw [h]

theorem headerLen_le_segmentOffset (header : Header) (k : Nat) :
    0 + headerLen ≤ segmentOffset header k := by
  unfold segmentOffset
  omega

variable {pool content}

variable {header : Header} {k : Nat}

/-- The whole records of a file, without what follows them. -/
theorem Written.cut (hheader : readHeader file = .ok header)
    (hsize : header.segmentSize = segmentSize) (hle : segmentOffset header k ≤ file.length)
    (hrecords : ∀ i < k, ByteFile.readExact file (segmentOffset header i) (recordLen header) = some
      (sealedRecord pool content header i)) :
    Written pool content header k (file.take (segmentOffset header k)) := by
  have hlength : (file.take (segmentOffset header k)).length = segmentOffset header k := by
    rw [List.length_take]
    omega
  refine ⟨?_, hsize, le_of_eq hlength.symm, ?_, .inl ?_⟩
  · rw [← hheader]
    exact readHeader_congr (ByteFile.readExact_take (headerLen_le_segmentOffset header k))
  · intro i hi
    rw [ByteFile.readExact_take]
    · exact hrecords i hi
    · rw [← segmentOffset_succ]
      exact segmentOffset_le hi
  · rw [List.drop_eq_nil_iff]
    omega

theorem take_append_drop_take (xs : List UInt8) (n m : Nat) :
    xs.take n ++ (xs.take m).drop (xs.take n).length = xs.take (max n m) := by
  rw [List.length_take, List.drop_take]
  by_cases hn : xs.length ≤ n
  · have hmin : min n xs.length = xs.length := by omega
    have hmax : xs.length ≤ max n m := by omega
    rw [hmin, List.take_of_length_le hn, List.take_of_length_le hmax]
    simp
  · have hmin : min n xs.length = n := by omega
    rw [hmin]
    by_cases hnm : n ≤ m
    · have hmax : max n m = n + (m - n) := by omega
      rw [hmax, List.take_add]
    · have hmax : max n m = n := by omega
      have hzero : m - n = 0 := by omega
      rw [hmax, hzero]
      simp

section

variable (h : Written pool content header k file)

include h

/-- A write of the next record that fails leaves a part of that record. -/
theorem Written.writeAt_part (hused : UsedIndex content k) (n : Nat) :
    Written pool content header k
      (ByteFile.writeAt file (segmentOffset header k)
        ((sealedRecord pool content header k).take n)) := by
  refine ⟨?_, h.size_eq, ?_, ?_, .inr ⟨hused, ?_⟩⟩
  · rw [← h.header_eq]
    exact readHeader_congr (ByteFile.readExact_writeAt_of_le
      (headerLen_le_segmentOffset header k) h.offset_le)
  · rw [ByteFile.length_writeAt h.offset_le]
    exact le_trans h.offset_le (Nat.le_max_left _ _)
  · intro i hi
    rw [ByteFile.readExact_writeAt_of_le _ h.offset_le]
    · exact h.records i hi
    · rw [← segmentOffset_succ]
      exact segmentOffset_le hi
  · rw [ByteFile.drop_writeAt h.offset_le]
    rcases h.tail with htail | ⟨_, m, htail⟩
    · refine ⟨n, ?_⟩
      simp [htail]
    · refine ⟨max n m, ?_⟩
      rw [htail, take_append_drop_take]

/-- A write of the next record makes one more whole record. -/
theorem Written.writeAt_record : Written pool content header (k + 1)
      (ByteFile.writeAt file (segmentOffset header k)
        (sealedRecord pool content header k)) := by
  have hrecord := length_sealedRecord pool content h.size_eq k
  have hoffset := segmentOffset_succ header k
  have htail : (file.drop (segmentOffset header k)).length ≤ recordLen header := by
    rcases h.tail with htail | ⟨_, m, htail⟩
    · simp [htail]
    · rw [htail, List.length_take]
      omega
  refine ⟨?_, h.size_eq, ?_, ?_, .inl ?_⟩
  · rw [← h.header_eq]
    exact readHeader_congr (ByteFile.readExact_writeAt_of_le
      (headerLen_le_segmentOffset header k) h.offset_le)
  · rw [ByteFile.length_writeAt h.offset_le, hrecord, hoffset]
    exact Nat.le_max_right _ _
  · intro i hi
    rcases Nat.lt_succ_iff_lt_or_eq.mp hi with hlt | rfl
    · rw [ByteFile.readExact_writeAt_of_le _ h.offset_le]
      · exact h.records i hlt
      · rw [← segmentOffset_succ]
        exact segmentOffset_le hlt
    · have hread := @ByteFile.readExact_writeAt _ _ (sealedRecord pool content header i)
        h.offset_le
      rw [hrecord] at hread
      exact hread
  · rw [hoffset, ← List.drop_drop, ByteFile.drop_writeAt h.offset_le, hrecord,
      List.drop_left' hrecord, List.drop_eq_nil_iff]
    exact htail

/-- Nothing follows the records when the next index is not used. -/
theorem Written.length_eq (hend : content.bytes.length ≤ k * segmentSize) :
    file.length = segmentOffset header k := by
  have hle := h.offset_le
  rcases h.tail with htail | ⟨hused, _⟩
  · rw [List.drop_eq_nil_iff] at htail
    omega
  · unfold UsedIndex at hused
    omega

omit h in
theorem usedIndex_of_lt {i : Nat} (hk : k * segmentSize ≤ content.bytes.length) (hi : i < k) :
    UsedIndex content i := by
  unfold UsedIndex
  have hmul := Nat.mul_le_mul_right segmentSize hi
  rw [Nat.succ_mul] at hmul
  have hsize : 0 < segmentSize := by decide
  omega

/-- The file a writer leaves behind at any moment. -/
theorem Written.atRest (hused : ∀ i < k, UsedIndex content i) : AtRest pool content file := by
  intro header' hheader _ i sealed hread
  have heq : header' = header := by
    rw [h.header_eq] at hheader
    exact (Except.ok.inj hheader).symm
  subst heq
  left
  have hrecord := length_sealedRecord pool content h.size_eq k
  obtain ⟨hbytes, hle⟩ := ByteFile.readExact_of_drop hread
  rcases Nat.lt_trichotomy i k with hlt | rfl | hgt
  · refine ⟨hused i hlt, ?_⟩
    rw [h.records i hlt] at hread
    exact (Option.some.inj hread).symm
  · rcases h.tail with htail | ⟨hnext, m, htail⟩
    · rw [List.drop_eq_nil_iff] at htail
      unfold recordLen lenField at hle
      omega
    · refine ⟨hnext, ?_⟩
      have hlength := congrArg List.length htail
      rw [List.length_drop, List.length_take, hrecord] at hlength
      rw [hbytes, htail, List.take_take, List.take_of_length_le]
      omega
  · have htail : (file.drop (segmentOffset header' k)).length ≤ recordLen header' := by
      rcases h.tail with htail | ⟨_, m, htail⟩
      · simp [htail]
      · rw [htail, List.length_take]
        omega
    rw [List.length_drop] at htail
    have hnext := @segmentOffset_le header' _ _ (Nat.succ_le_of_lt hgt)
    rw [Nat.succ_eq_add_one, segmentOffset_succ] at hnext
    have hoffset := h.offset_le
    unfold recordLen lenField at *
    omega

end

end Files

theorem length_encodeHeader (header : Header) : (encodeHeader header).length = headerLen := by
  simp [encodeHeader, magic]
  rfl

theorem readHeader_encodeHeader {header : Header} (hsize : header.segmentSize < 256 ^ 4) :
    readHeader (encodeHeader header) = .ok header := by
  have hread : ByteFile.readExact (encodeHeader header) 0 headerLen =
      some (encodeHeader header) := by
    unfold ByteFile.readExact
    rw [length_encodeHeader, if_pos (by decide), List.drop_zero,
      List.take_of_length_le (le_of_eq (length_encodeHeader header))]
  have hfour : ((encodeHeader header).drop 8).take 4 =
      Bytes.toLittleEndian 4 header.segmentSize := by
    simp only [encodeHeader, magic, List.cons_append, List.nil_append, List.append_assoc,
      List.drop_succ_cons, List.drop_zero]
    exact List.take_left' (Bytes.length_toLittleEndian _ _)
  have hnonce : ∀ i : Fin nonceBaseLen,
      (encodeHeader header).getD (12 + i.val) 0 = header.nonceBase[i] := by
    intro i
    have hi : i.val < 16 := i.isLt
    have hdrop : (encodeHeader header).getD (12 + i.val) 0 =
        ((encodeHeader header).drop 12).getD i.val 0 := by
      simp [List.getD_eq_getElem?_getD]
    have hrest : (encodeHeader header).drop 12 =
        header.nonceBase.toList ++ Bytes.toLittleEndian 4 header.owner.toNat := by
      have hlength : (magic ++ [poolFormatVersion, 0, 0, 0] ++
          Bytes.toLittleEndian 4 header.segmentSize).length = 12 := by
        simp [magic]
      unfold encodeHeader
      rw [List.append_assoc]
      exact List.drop_left' hlength
    rw [hdrop, hrest, List.getD_eq_getElem?_getD, List.getElem?_append_left (by simp)]
    simp
  have howner : ((encodeHeader header).drop 28).take 4 =
      Bytes.toLittleEndian 4 header.owner.toNat := by
    have hlength : (magic ++ [poolFormatVersion, 0, 0, 0] ++
        Bytes.toLittleEndian 4 header.segmentSize ++ header.nonceBase.toList).length = 28 := by
      simp [magic]
      rfl
    unfold encodeHeader
    rw [List.drop_left' hlength, List.take_of_length_le]
    simp
  have hmagic : (encodeHeader header).take 4 = magic := rfl
  have hversion : (encodeHeader header).getD 4 0 = poolFormatVersion := rfl
  unfold readHeader
  rw [hread]
  simp only [hmagic, hversion, hfour, howner,
    Bytes.ofLittleEndian_toLittleEndian 4 _ hsize,
    Bytes.ofLittleEndian_toLittleEndian 4 _ header.owner.toNat_lt, ne_eq, not_true_eq_false,
    if_false, dif_neg (Nat.ne_of_gt header.segmentSize_pos)]
  have hvector : (Vector.ofFn fun i => (encodeHeader header).getD (12 + i.val) 0) =
      header.nonceBase := by
    apply Vector.ext
    intro i hi
    rw [Vector.getElem_ofFn]
    exact hnonce ⟨i, hi⟩
  simp only [hvector, UInt32.ofNat_toNat]

section Writers

variable (pool : Pool) (content : Content)

/-- What a writer's fields say about the content and the file it holds. -/
structure WriterSound (w : PoolWriter) (file : List UInt8) : Prop where
  written : Written pool content w.header w.segmentsWritten file
  plainLen_le : w.plainLen ≤ content.bytes.length
  sealed_le : w.segmentsWritten * segmentSize ≤ w.plainLen
  buffer_eq : w.buffer = (content.bytes.take w.plainLen).drop (w.segmentsWritten * segmentSize)
  absorbed_eq : w.absorbed = content.bytes.take w.plainLen
  final : w.holdsFinalSegment = true → w.plainLen = content.bytes.length

/-- Everything that was sealed is a piece of the content under its index. -/
def LogSound (log : List (Sealed (List UInt8) (List UInt8))) : Prop :=
  ∀ a ∈ log, ∃ x : Header × Nat,
    (x.1.segmentSize = segmentSize ∧ UsedIndex content x.2) ∧
      a = segmentSeal pool x.1 x.2 (piece segmentSize x.2 content.bytes)

variable {pool content}

theorem LogSound.append {log : List (Sealed (List UInt8) (List UInt8))}
    (h : LogSound pool content log) {header : Header} {index : Nat}
    (hsize : header.segmentSize = segmentSize) (hused : UsedIndex content index) :
    LogSound pool content
      (log ++ [segmentSeal pool header index (piece segmentSize index content.bytes)]) := by
  intro a ha
  rcases List.mem_append.mp ha with hold | hnew
  · exact h a hold
  · refine ⟨(header, index), ⟨hsize, hused⟩, ?_⟩
    simpa using hnew

/-- A segment's nonce is the nonce base and the index, and so names its piece. -/
theorem LogSound.nonceUnique {log : List (Sealed (List UInt8) (List UInt8))}
    (h : LogSound pool content log) : NonceUnique log := by
  refine nonceUnique_of_family h ?_
  rintro ⟨header, i⟩ ⟨header', j⟩ ⟨hsize, hi⟩ ⟨hsize', hj⟩ _ hnonce
  have hbound : ∀ k, UsedIndex content k → k < 256 ^ 8 := by
    intro k hk
    have hlength := content.length_lt
    unfold UsedIndex at hk
    have hmul : k ≤ k * segmentSize := Nat.le_mul_of_pos_right k (by decide)
    have hpow : (256 : Nat) ^ 8 = 2 ^ 64 := by decide
    omega
  have hparts := List.append_inj hnonce (by simp)
  have hindex := Bytes.toLittleEndian_injective (hbound i hi) (hbound j hj) hparts.2
  have hbase : header.nonceBase.toList = header'.nonceBase.toList := hparts.1
  dsimp only at hindex hsize hsize'
  subst hindex
  simp only [segmentSeal, nonceAndAad, segmentPlain, hbase, hsize, hsize']

variable {w : PoolWriter}

/-- A full buffer, or the buffer at the end of the content, is a whole piece. -/
theorem WriterSound.buffer_eq_piece {file : List UInt8} (h : WriterSound pool content w file)
    (hend : w.buffer.length = segmentSize ∨ w.plainLen = content.bytes.length) :
    w.buffer = piece segmentSize w.segmentsWritten content.bytes := by
  have hle := w.buffer_le
  rw [h.written.size_eq] at hle
  have hlength := congrArg List.length h.buffer_eq
  rw [List.length_drop, List.length_take] at hlength
  have hplain := h.plainLen_le
  have hsealed := h.sealed_le
  rcases hend with hfull | hall
  · rw [h.buffer_eq, drop_take_eq_take_piece (by rw [Nat.add_mul, Nat.one_mul]; omega),
      List.take_of_length_le]
    rw [length_piece]
    omega
  · rw [h.buffer_eq, hall, List.take_length]
    refine drop_eq_piece ?_
    rw [Nat.add_mul, Nat.one_mul]
    omega

theorem sealSegment_piece {header : Header} {index : Nat} (hsize : header.segmentSize = segmentSize)
    (hused : UsedIndex content index) :
    sealSegment pool header index (piece segmentSize index content.bytes) =
      .ok (sealedRecord pool content header index) := by
  have hpos := length_piece_pos hused
  have hle := length_piece_le segmentSize index content.bytes
  unfold sealSegment
  rw [if_neg (by omega)]
  rfl

variable {disk : Disk}

/-- Sealing the buffer: nothing to seal, a part of the record written, or one
more record. -/
theorem sealBuffer_cases (h : WriterSound pool content w disk.bytes)
    (hlog : LogSound pool content disk.sealed)
    (hend : w.buffer.length = segmentSize ∨ w.plainLen = content.bytes.length)
    (fault : Option Nat) :
    (w.buffer = [] ∧ w.sealBuffer pool disk fault = (none, w, disk)) ∨
      ∃ disk', LogSound pool content disk'.sealed ∧
        ((fault ≠ none ∧ (∃ error, w.sealBuffer pool disk fault = (some error, w, disk')) ∧
            Written pool content w.header w.segmentsWritten disk'.bytes) ∨
          (UsedIndex content w.segmentsWritten ∧
            w.sealBuffer pool disk fault =
              (none,
                { w with
                  segmentsWritten := w.segmentsWritten + 1
                  buffer := []
                  buffer_le := Nat.zero_le _ }, disk') ∧
            Written pool content w.header (w.segmentsWritten + 1) disk'.bytes)) := by
  by_cases hempty : w.buffer = []
  · left
    refine ⟨hempty, ?_⟩
    simp [PoolWriter.sealBuffer, hempty]
  · right
    have hpiece := h.buffer_eq_piece hend
    have hused : UsedIndex content w.segmentsWritten := by
      have hpos : 0 < w.buffer.length := List.length_pos_of_ne_nil hempty
      rw [hpiece, length_piece] at hpos
      unfold UsedIndex
      omega
    have hseal := @sealSegment_piece pool content _ _ h.written.size_eq hused
    have hlog' := hlog.append h.written.size_eq hused
    rw [← hpiece] at hseal hlog'
    cases fault with
    | some n =>
      refine ⟨⟨ByteFile.writeAt disk.bytes (segmentOffset w.header w.segmentsWritten)
          ((sealedRecord pool content w.header w.segmentsWritten).take n), _⟩, hlog',
        .inl ⟨by simp, ⟨.io "write failed", ?_⟩, ?_⟩⟩
      · simp only [PoolWriter.sealBuffer, if_neg hempty, hseal]
      · exact h.written.writeAt_part hused n
    | none =>
      refine ⟨⟨ByteFile.writeAt disk.bytes (segmentOffset w.header w.segmentsWritten)
          (sealedRecord pool content w.header w.segmentsWritten), _⟩, hlog',
        .inr ⟨hused, ?_, ?_⟩⟩
      · simp only [PoolWriter.sealBuffer, if_neg hempty, hseal]
      · exact h.written.writeAt_record

/-- Taking the next bytes of the content into the buffer. -/
theorem WriterSound.absorb {w : PoolWriter} {file : List UInt8}
    (h : WriterSound pool content w file) {remaining : List UInt8}
    (hnext : remaining = (content.bytes.drop w.plainLen).take remaining.length)
    (hle : w.plainLen + remaining.length ≤ content.bytes.length)
    (hopen : w.holdsFinalSegment = false) : WriterSound pool content (w.absorb remaining) file := by
  have htake : w.takeLen remaining ≤ remaining.length := Nat.min_le_right _ _
  have hbytes : content.bytes.take (w.plainLen + w.takeLen remaining) =
      content.bytes.take w.plainLen ++ remaining.take (w.takeLen remaining) := by
    generalize w.takeLen remaining = t at htake
    have hpart : remaining.take t = (content.bytes.drop w.plainLen).take t := by
      rw [hnext, List.take_take, Nat.min_eq_left htake]
    rw [List.take_add, hpart]
  have hsealed := h.sealed_le
  have hplain := h.plainLen_le
  refine ⟨h.written, ?_, ?_, ?_, ?_, ?_⟩
  · change w.plainLen + w.takeLen remaining ≤ _
    omega
  · change _ ≤ w.plainLen + w.takeLen remaining
    exact le_trans hsealed (Nat.le_add_right _ _)
  · change w.buffer ++ remaining.take (w.takeLen remaining) =
      (content.bytes.take (w.plainLen + w.takeLen remaining)).drop
        (w.segmentsWritten * segmentSize)
    rw [hbytes, List.drop_append_of_le_length, ← h.buffer_eq]
    rw [List.length_take]
    omega
  · change w.absorbed ++ remaining.take (w.takeLen remaining) =
      content.bytes.take (w.plainLen + w.takeLen remaining)
    rw [hbytes, h.absorbed_eq]
  · intro hfinal
    change w.holdsFinalSegment = true at hfinal
    rw [hopen] at hfinal
    simp at hfinal

/-- After a full buffer was sealed the next segment begins. -/
theorem WriterSound.sealed {file file' : List UInt8} (h : WriterSound pool content w file)
    (hfull : w.buffer.length = segmentSize)
    (hwritten : Written pool content w.header (w.segmentsWritten + 1) file') :
    WriterSound pool content
      { w with
        segmentsWritten := w.segmentsWritten + 1
        buffer := []
        buffer_le := Nat.zero_le _ } file' := by
  have hlength := congrArg List.length h.buffer_eq
  rw [List.length_drop, List.length_take, hfull] at hlength
  have hplain := h.plainLen_le
  have hsealed := h.sealed_le
  have hpos : 0 < segmentSize := by decide
  refine ⟨hwritten, hplain, ?_, ?_, h.absorbed_eq, h.final⟩
  · dsimp only
    rw [Nat.add_mul, Nat.one_mul]
    omega
  · dsimp only
    symm
    rw [List.drop_eq_nil_iff, List.length_take, Nat.add_mul, Nat.one_mul]
    omega

/-- The bytes left after one round of the loop are again the next ones. -/
theorem next_drop {remaining : List UInt8}
    (hnext : remaining = (content.bytes.drop w.plainLen).take remaining.length) :
    remaining.drop (w.takeLen remaining) =
      (content.bytes.drop (w.plainLen + w.takeLen remaining)).take
        (remaining.drop (w.takeLen remaining)).length := by
  generalize w.takeLen remaining = t
  rw [List.length_drop, ← List.drop_drop, ← List.drop_take, ← hnext]

theorem writeLoop_spec (remaining : List UInt8) (w : PoolWriter) (disk : Disk)
    (faults : List (Option Nat)) (h : WriterSound pool content w disk.bytes)
    (hlog : LogSound pool content disk.sealed)
    (hnext : remaining = (content.bytes.drop w.plainLen).take remaining.length)
    (hle : w.plainLen + remaining.length ≤ content.bytes.length)
    (hopen : w.holdsFinalSegment = false) :
    ∃ error w' disk', w.writeLoop pool remaining disk faults = (error, w', disk') ∧
      WriterSound pool content w' disk'.bytes ∧ LogSound pool content disk'.sealed ∧
      (error = none → w'.plainLen = w.plainLen + remaining.length) ∧
      (faults = [] → error = none) := by
  fun_induction PoolWriter.writeLoop pool remaining w disk faults with
  | case1 w disk faults => exact ⟨none, w, disk, rfl, h, hlog, fun _ => rfl, fun _ => rfl⟩
  | case2 remaining w disk faults _ next hfull error w' disk' hseal =>
    have hsound : WriterSound pool content next disk.bytes := h.absorb hnext hle hopen
    rw [hsound.written.size_eq] at hfull
    rcases sealBuffer_cases hsound hlog (.inl hfull) (faults.headD none) with
      ⟨_, heq⟩ | ⟨disk₁, hlog₁, ⟨hfault, ⟨_, heq⟩, hwritten⟩ | ⟨_, heq, _⟩⟩
    · rw [heq] at hseal
      cases hseal
    · rw [heq] at hseal
      cases hseal
      refine ⟨some error, next, disk', rfl, { hsound with written := hwritten }, hlog₁, ?_, ?_⟩
      · intro hnone
        cases hnone
      · intro hnil
        exact absurd (by rw [hnil]; rfl) hfault
    · rw [heq] at hseal
      cases hseal
  | case3 remaining w disk faults _ next rest hfull w' disk' hseal ih =>
    have hsound : WriterSound pool content next disk.bytes := h.absorb hnext hle hopen
    rw [hsound.written.size_eq] at hfull
    have htake : w.takeLen remaining ≤ remaining.length := Nat.min_le_right _ _
    have hrest : rest.length = remaining.length - w.takeLen remaining := List.length_drop
    have hplain : next.plainLen = w.plainLen + w.takeLen remaining := rfl
    have hstep : WriterSound pool content w' disk'.bytes ∧
        LogSound pool content disk'.sealed ∧ w'.plainLen = next.plainLen ∧
        w'.holdsFinalSegment = false := by
      rcases sealBuffer_cases hsound hlog (.inl hfull) (faults.headD none) with
        ⟨hempty, _⟩ | ⟨disk₁, hlog₁, ⟨_, ⟨_, heq⟩, _⟩ | ⟨_, heq, hwritten⟩⟩
      · rw [hempty] at hfull
        exact absurd hfull (by decide)
      · rw [heq] at hseal
        cases hseal
      · rw [heq] at hseal
        cases hseal
        exact ⟨hsound.sealed hfull hwritten, hlog₁, rfl, hopen⟩
    obtain ⟨hsound', hlog', hplain', hopen'⟩ := hstep
    obtain ⟨error, w₂, disk₂, heq, hsound₂, hlog₂, hlen₂, hnone₂⟩ :=
      ih hsound' hlog' (by rw [hplain']; exact next_drop hnext) (by omega) hopen'
    refine ⟨error, w₂, disk₂, heq, hsound₂, hlog₂, ?_, ?_⟩
    · intro hnone
      rw [hlen₂ hnone, hplain']
      omega
    · intro hnil
      exact hnone₂ (by rw [hnil]; rfl)
  | case4 remaining w disk faults _ next rest _ ih =>
    have hsound : WriterSound pool content next disk.bytes := h.absorb hnext hle hopen
    have htake : w.takeLen remaining ≤ remaining.length := Nat.min_le_right _ _
    have hrest : rest.length = remaining.length - w.takeLen remaining := List.length_drop
    have hplain : next.plainLen = w.plainLen + w.takeLen remaining := rfl
    obtain ⟨error, w₂, disk₂, heq, hsound₂, hlog₂, hlen₂, hnone₂⟩ :=
      ih hsound hlog (next_drop hnext) (by omega) hopen
    refine ⟨error, w₂, disk₂, heq, hsound₂, hlog₂, ?_, hnone₂⟩
    intro hnone
    rw [hlen₂ hnone]
    omega

/-- A write call with the next bytes of the content. -/
theorem write_spec (h : WriterSound pool content w disk.bytes)
    (hlog : LogSound pool content disk.sealed) (len : Nat) (faults : List (Option Nat)) :
    ∃ error w' disk',
      w.write pool ((content.bytes.drop w.plainLen).take len) disk faults = (error, w', disk') ∧
      WriterSound pool content w' disk'.bytes ∧ LogSound pool content disk'.sealed ∧
      (faults = [] → w'.plainLen = min (w.plainLen + len) content.bytes.length) := by
  have hplain := h.plainLen_le
  have hlength : ((content.bytes.drop w.plainLen).take len).length =
      min len (content.bytes.length - w.plainLen) := by
    rw [List.length_take, List.length_drop]
  unfold PoolWriter.write
  split_ifs with hfinal
  · refine ⟨_, w, disk, rfl, h, hlog, ?_⟩
    intro _
    have hend := h.final hfinal.1
    omega
  · by_cases hopen : w.holdsFinalSegment = false
    · obtain ⟨error, w', disk', heq, hsound, hlog', hlen, hnone⟩ :=
        writeLoop_spec ((content.bytes.drop w.plainLen).take len) w disk faults h hlog
          (by rw [List.length_take, List.take_eq_take_iff]; omega) (by omega) hopen
      refine ⟨error, w', disk', heq, hsound, hlog', ?_⟩
      intro hfaults
      rw [hlen (hnone hfaults)]
      omega
    · have hempty : (content.bytes.drop w.plainLen).take len = [] := by
        by_contra hne
        exact hfinal ⟨by simpa using hopen, hne⟩
      rw [hempty]
      refine ⟨none, w, disk, ?_, h, hlog, ?_⟩
      · unfold PoolWriter.writeLoop
        rfl
      · intro _
        have hend := h.final (by simpa using hopen)
        omega

/-- A file that holds all of the content's records and nothing else. -/
structure Complete (pool : Pool) (content : Content) (header : Header) (count : Nat)
    (file : List UInt8) : Prop where
  written : Written pool content header count file
  count_pos : 0 < count
  last_used : UsedIndex content (count - 1)
  length_le : content.bytes.length ≤ count * segmentSize

theorem Complete.atRest {header : Header} {count : Nat} {file : List UInt8}
    (h : Complete pool content header count file) : AtRest pool content file := by
  refine h.written.atRest ?_
  intro i hi
  have hlast := h.last_used
  unfold UsedIndex at hlast ⊢
  have hmul : i * segmentSize ≤ (count - 1) * segmentSize :=
    Nat.mul_le_mul_right segmentSize (by omega)
  omega

/-- The seal of a finish, with all of the content absorbed. -/
theorem sealBuffer_last (h : WriterSound pool content w disk.bytes)
    (hlog : LogSound pool content disk.sealed) (hall : w.plainLen = content.bytes.length)
    (hpos : 0 < content.bytes.length) (fault : Option Nat) :
    ∃ error w' disk', w.sealBuffer pool disk fault = (error, w', disk') ∧
      LogSound pool content disk'.sealed ∧ AtRest pool content disk'.bytes ∧
      w'.absorbed = w.absorbed ∧ w'.plainLen = w.plainLen ∧
      (error = none → ∃ header, Complete pool content header w'.segmentsWritten disk'.bytes) ∧
      (fault = none → error = none) := by
  have hsealed := h.sealed_le
  rw [hall] at hsealed
  have hused := fun i => @usedIndex_of_lt content w.segmentsWritten i hsealed
  have hlength := congrArg List.length h.buffer_eq
  rw [List.length_drop, List.length_take, hall, Nat.min_self] at hlength
  rcases sealBuffer_cases h hlog (.inr hall) fault with
    ⟨hempty, heq⟩ | ⟨disk', hlog', ⟨hfault, ⟨error, heq⟩, hwritten⟩ | ⟨hlast, heq, hwritten⟩⟩
  · rw [hempty, List.length_nil] at hlength
    have hcount : 0 < w.segmentsWritten := by
      rcases Nat.eq_zero_or_pos w.segmentsWritten with hzero | hpos'
      · rw [hzero] at hlength
        omega
      · exact hpos'
    refine ⟨none, w, disk, heq, hlog, h.written.atRest hused, rfl, rfl, ?_, fun _ => rfl⟩
    intro _
    exact ⟨w.header, h.written, hcount, hused _ (by omega), by omega⟩
  · refine ⟨some error, w, disk', heq, hlog', hwritten.atRest hused, rfl, rfl, ?_, ?_⟩
    · intro hnone
      cases hnone
    · intro hnone
      exact absurd hnone hfault
  · have hbuffer := w.buffer_le
    rw [h.written.size_eq] at hbuffer
    have hcomplete : Complete pool content w.header (w.segmentsWritten + 1) disk'.bytes := by
      refine ⟨hwritten, Nat.succ_pos _, hlast, ?_⟩
      rw [Nat.add_mul, Nat.one_mul]
      omega
    exact ⟨none, _, disk', heq, hlog', hcomplete.atRest, rfl, rfl,
      fun _ => ⟨w.header, hcomplete⟩, fun _ => rfl⟩

/-- What finishing leaves behind: a complete file, or one to resume from. -/
theorem finish_spec (h : WriterSound pool content w disk.bytes)
    (hlog : LogSound pool content disk.sealed) (hall : w.plainLen = content.bytes.length)
    (fault : Option PoolWriter.FinishFault) :
    ∃ result disk', w.finish pool disk fault = (result, disk') ∧
      LogSound pool content disk'.sealed ∧ AtRest pool content disk'.bytes ∧
      (∀ done, result = .ok done →
        done.hashHex = Bytes.toHex (pool.blake3 content.bytes) ∧
        done.sha256Hex = Bytes.toHex (pool.sha256 content.bytes) ∧
        done.plainLen = content.bytes.length ∧
        done.bytesOnDisk = disk'.bytes.length ∧
        ∃ header, Complete pool content header done.segments disk'.bytes) ∧
      (fault = none → 0 < content.bytes.length → ∃ done, result = .ok done) := by
  have habsorbed : w.absorbed = content.bytes := by rw [h.absorbed_eq, hall, List.take_length]
  have hsealed := h.sealed_le
  rw [hall] at hsealed
  by_cases hzero : w.plainLen = 0
  · refine ⟨.error (.usage "a pool file needs at least one byte"), disk, ?_, hlog,
      h.written.atRest (fun i => usedIndex_of_lt hsealed), ?_, ?_⟩
    · simp [PoolWriter.finish, hzero]
    · intro done hdone
      cases hdone
    · intro _ hpos
      omega
  · simp only [PoolWriter.finish, if_neg hzero]
    obtain ⟨error, w', disk', heq, hlog', hrest, habsorbed', hplain', hcomplete, hnone⟩ :=
      sealBuffer_last h hlog hall (by omega)
        (PoolWriter.FinishFault.ofSeal fault)
    rw [heq]
    rcases error with _ | error
    · by_cases hsync : fault = some .syncing
      · refine ⟨.error (.io "sync failed"), disk', by simp [hsync], hlog', hrest, ?_, ?_⟩
        · intro done hdone
          cases hdone
        · intro hnofault
          rw [hnofault] at hsync
          cases hsync
      · dsimp only
        rw [if_neg hsync]
        refine ⟨_, disk', rfl, hlog', hrest, ?_, fun _ _ => ⟨_, rfl⟩⟩
        intro done hdone
        cases hdone
        refine ⟨?_, ?_, ?_, rfl, hcomplete rfl⟩
        · rw [habsorbed', habsorbed]
        · rw [habsorbed', habsorbed]
        · rw [hplain', hall]
    · refine ⟨.error error, disk', rfl, hlog', hrest, ?_, ?_⟩
      · intro done hdone
        cases hdone
      · intro hnofault
        subst hnofault
        have hbad := hnone rfl
        cases hbad

end Writers

section Resuming

variable {pool : Pool} {content : Content}

/-- A writer halfway through resuming: whole segments only. -/
structure Resuming (pool : Pool) (content : Content) (header : Header) (index : Nat)
    (w : PoolWriter) (file : List UInt8) : Prop where
  header_eq : w.header = header
  segments_eq : w.segmentsWritten = index
  buffer_eq : w.buffer = []
  absorbed_eq : w.absorbed = content.bytes.take (index * segmentSize)
  plainLen_eq : w.plainLen = index * segmentSize
  index_le : index * segmentSize ≤ content.bytes.length
  open_eq : w.holdsFinalSegment = false
  records : ∀ i < index, ByteFile.readExact file (segmentOffset header i) (recordLen header) =
    some (sealedRecord pool content header i)

variable {header : Header} {file : List UInt8} {index : Nat}

theorem openSegment_of_record (hsize : header.segmentSize = segmentSize)
    (hused : UsedIndex content index)
    (hrecord : ByteFile.readExact file (segmentOffset header index) (recordLen header) = some
      (sealedRecord pool content header index)) :
    ∃ segment data, openSegment pool header file index = .ok segment ∧
      segment.len = (piece segmentSize index content.bytes).length ∧
      segment.data = .ok data ∧ data.val = piece segmentSize index content.bytes := by
  obtain ⟨segment, data, hopen, hlen, hdata, hval⟩ :=
    openRecord_sealedRecord pool content hsize hused
  refine ⟨segment, data, ?_, hlen, hdata, hval⟩
  unfold openSegment
  rw [hrecord]
  exact hopen

/-- The writer between two segments, over the file cut behind them. -/
theorem Resuming.writerSound {w : PoolWriter} (h : Resuming pool content header index w file)
    (hheader : readHeader file = .ok header) (hsize : header.segmentSize = segmentSize)
    (hle : segmentOffset header index ≤ file.length) :
    WriterSound pool content w (file.take (segmentOffset header w.segmentsWritten)) := by
  refine ⟨?_, ?_, ?_, ?_, ?_, ?_⟩
  · rw [h.header_eq, h.segments_eq]
    exact Written.cut hheader hsize hle h.records
  · rw [h.plainLen_eq]
    exact h.index_le
  · rw [h.plainLen_eq, h.segments_eq]
  · rw [h.buffer_eq, h.plainLen_eq, h.segments_eq]
    symm
    rw [List.drop_eq_nil_iff, List.length_take]
    exact Nat.min_le_left _ _
  · rw [h.absorbed_eq, h.plainLen_eq]
  · intro hfinal
    rw [h.open_eq] at hfinal
    cases hfinal

/-- Rehashing absorbs the whole segments once more. -/
theorem rehashLoop_spec (hsize : header.segmentSize = segmentSize)
    (hindex : index * segmentSize ≤ content.bytes.length)
    (hrecords : ∀ i < index, ByteFile.readExact file (segmentOffset header i) (recordLen header) =
      some (sealedRecord pool content header i)) :
    ∀ (left kept : Nat) (w : PoolWriter), left + kept = index → w.header = header →
      w.absorbed = content.bytes.take (kept * segmentSize) →
      w.plainLen = kept * segmentSize →
      ∃ w', PoolWriter.rehashLoop pool file left kept w = .ok w' ∧ w'.header = w.header ∧
        w'.segmentsWritten = w.segmentsWritten ∧ w'.buffer = w.buffer ∧
        w'.holdsFinalSegment = w.holdsFinalSegment ∧
        w'.absorbed = content.bytes.take (index * segmentSize) ∧
        w'.plainLen = index * segmentSize := by
  intro left
  induction left with
  | zero =>
    intro kept w hkept _ habsorbed hplain
    have hkept' : kept = index := by omega
    subst hkept'
    exact ⟨w, rfl, rfl, rfl, rfl, rfl, habsorbed, hplain⟩
  | succ left ih =>
    intro kept w hkept hheader habsorbed hplain
    have hlt : kept < index := by omega
    have hused : UsedIndex content kept := usedIndex_of_lt hindex hlt
    obtain ⟨segment, data, hopen, _, hdata, hval⟩ :=
      openSegment_of_record hsize hused (hrecords kept hlt)
    subst hheader
    have hwhole : (piece segmentSize kept content.bytes).length = segmentSize := by
      refine length_piece_of_le ?_
      exact le_trans (Nat.mul_le_mul_right segmentSize hlt) hindex
    obtain ⟨w', heq, hheader', hsegments, hbuffer, hfinal, habsorbed', hplain'⟩ :=
      ih (kept + 1) (w.hash data.val) (by omega) rfl
        (by
          rw [take_succ_mul, ← hval, ← habsorbed]
          rfl)
        (by
          change w.plainLen + data.val.length = _
          rw [hval, hwhole, hplain, Nat.add_mul, Nat.one_mul])
    refine ⟨w', ?_, hheader', hsegments, hbuffer, hfinal, habsorbed', hplain'⟩
    simp only [PoolWriter.rehashLoop, hopen, hdata]
    exact heq

/-- The loop never fails on a file at rest, and the writer it returns is sound
over the file cut behind its whole segments. -/
theorem resumeLoop_spec {records : Nat} (hrest : AtRest pool content file)
    (hheader : readHeader file = .ok header) (hsize : header.segmentSize = segmentSize)
    (hrecords : segmentOffset header records ≤ file.length) :
    ∀ (left index : Nat) (w : PoolWriter), left + index = records →
      Resuming pool content header index w file →
      ∃ w', PoolWriter.resumeLoop pool file records left index w = .ok w' ∧
        w'.header = header ∧
        WriterSound pool content w' (file.take (segmentOffset header w'.segmentsWritten)) := by
  intro left
  induction left with
  | zero =>
    intro index w hindex hw
    have hindex' : index = records := by omega
    subst hindex'
    exact ⟨w, rfl, hw.header_eq, hw.writerSound hheader hsize hrecords⟩
  | succ left ih =>
    intro index w hindex hw
    have hoffset : segmentOffset header (index + 1) ≤ file.length :=
      le_trans (segmentOffset_le (by omega)) hrecords
    have hoffset' : segmentOffset header index ≤ file.length :=
      le_trans (segmentOffset_le (by omega)) hrecords
    have hwheader := hw.header_eq
    subst hwheader
    rcases hread : ByteFile.readExact file (segmentOffset w.header index)
        (recordLen w.header) with _ | sealed
    · have hsome := (ByteFile.readExact_isSome_iff file (segmentOffset w.header index)
        (recordLen w.header)).mpr (by rw [← segmentOffset_succ]; exact hoffset)
      rw [hread] at hsome
      cases hsome
    · rcases hrest w.header hheader hsize index sealed hread with
        ⟨hused, hsealed⟩ | ⟨error, hopen⟩
      · rw [hsealed] at hread
        obtain ⟨segment, data, hopen, hlen, hdata, hval⟩ :=
          openSegment_of_record hsize hused hread
        simp only [PoolWriter.resumeLoop, hopen, hdata]
        have hgrow := take_succ_mul segmentSize index content.bytes
        have hmul : (index + 1) * segmentSize = index * segmentSize + segmentSize := by
          rw [Nat.add_mul, Nat.one_mul]
        have hpiece := length_piece segmentSize index content.bytes
        have habsorbed : w.absorbed ++ data.val =
            content.bytes.take ((index + 1) * segmentSize) := by
          rw [hgrow, hw.absorbed_eq, hval]
        by_cases hwhole : segment.len = w.header.segmentSize
        · have hnext : Resuming pool content w.header (index + 1)
              { w.hash data.val with segmentsWritten := index + 1 } file := by
            have hfull : segment.len = segmentSize := hwhole.trans hsize
            have hpos : 0 < segmentSize := by decide
            refine ⟨rfl, rfl, hw.buffer_eq, habsorbed, ?_, ?_, hw.open_eq, ?_⟩
            · change w.plainLen + data.val.length = _
              rw [hval, hw.plainLen_eq, hmul, ← hlen, hfull]
            · generalize segmentSize = size at hpos hfull hmul hlen hpiece ⊢
              omega
            · intro i hi
              rcases Nat.lt_succ_iff_lt_or_eq.mp hi with hlt | rfl
              · exact hw.records i hlt
              · exact hread
          obtain ⟨w', heq, hheader', hsound⟩ := ih (index + 1) _ (by omega) hnext
          refine ⟨w', ?_, hheader', hsound⟩
          rw [if_pos (by exact hwhole)]
          exact heq
        · rw [if_neg (by exact hwhole)]
          have hend : content.bytes.length ≤ (index + 1) * segmentSize := by
            have hpartial : segment.len ≠ segmentSize := fun h => hwhole (h.trans hsize.symm)
            generalize segmentSize = size at hpartial hmul hlen hpiece ⊢
            omega
          by_cases hlast : index + 1 = records
          · rw [if_pos hlast]
            refine ⟨_, rfl, rfl, ?_⟩
            have hplain : w.plainLen + data.val.length = content.bytes.length := by
              rw [hval, hw.plainLen_eq]
              unfold UsedIndex at hused
              generalize segmentSize = size at hused hend hmul hpiece ⊢
              omega
            refine ⟨?_, le_of_eq hplain, ?_, ?_, ?_, fun _ => hplain⟩
            · change Written pool content w.header w.segmentsWritten
                (file.take (segmentOffset w.header w.segmentsWritten))
              rw [hw.segments_eq]
              exact Written.cut hheader hsize hoffset' hw.records
            · change w.segmentsWritten * segmentSize ≤ w.plainLen + data.val.length
              rw [hw.segments_eq, hplain]
              exact hw.index_le
            · change data.val =
                (content.bytes.take (w.plainLen + data.val.length)).drop
                  (w.segmentsWritten * segmentSize)
              rw [hplain, List.take_length, hw.segments_eq, hval]
              exact (drop_eq_piece hend).symm
            · change w.absorbed ++ data.val =
                content.bytes.take (w.plainLen + data.val.length)
              rw [hplain, List.take_length, habsorbed, List.take_of_length_le hend]
          · rw [if_neg hlast]
            obtain ⟨w', heq, hheader', hsegments, hbuffer, hfinal, habsorbed', hplain'⟩ :=
              rehashLoop_spec hsize hw.index_le hw.records index 0
                { w.hash data.val with absorbed := [], plainLen := 0, segmentsWritten := index }
                (by omega) rfl (by simp) (by simp)
            have hresuming : Resuming pool content w.header index w' file :=
              ⟨hheader', hsegments, hbuffer.trans hw.buffer_eq, habsorbed', hplain',
                hw.index_le, hfinal.trans hw.open_eq, hw.records⟩
            exact ⟨w', heq, hheader', hresuming.writerSound hheader hsize hoffset'⟩
      · have hfail : openSegment pool w.header file index = .error error := by
          unfold openSegment
          rw [hread]
          exact hopen
        simp only [PoolWriter.resumeLoop, hfail]
        exact ⟨w, rfl, rfl, hw.writerSound hheader hsize hoffset'⟩

theorem resumePending_spec {disk disk' : Disk} {mxc : List UInt8} {w : PoolWriter}
    (hrest : AtRest pool content disk.bytes) (h : pool.resumePending mxc disk = .ok (w, disk')) :
    WriterSound pool content w disk'.bytes ∧ disk'.sealed = disk.sealed := by
  unfold Pool.resumePending at h
  rcases hheader : readHeader disk.bytes with error | header
  · rw [hheader] at h
    cases h
  · rw [hheader] at h
    dsimp only at h
    split_ifs at h with hsize howner
    have hsize' : header.segmentSize = segmentSize := by simpa using hsize
    have hrecords : segmentOffset header ((disk.bytes.length - headerLen) / recordLen header) ≤
        disk.bytes.length := by
      have hdiv := Nat.div_mul_le_self (disk.bytes.length - headerLen) (recordLen header)
      have hread := ByteFile.readExact_isSome_iff disk.bytes 0 headerLen
      unfold readHeader at hheader
      rcases hbytes : ByteFile.readExact disk.bytes 0 headerLen with _ | bytes
      · rw [hbytes] at hheader
        cases hheader
      · rw [hbytes] at hread
        have hlength := hread.mp rfl
        unfold segmentOffset
        omega
    obtain ⟨w', heq, hheader', hsound⟩ := resumeLoop_spec hrest hheader hsize' hrecords
      ((disk.bytes.length - headerLen) / recordLen header) 0 (.new header) (by omega)
      ⟨rfl, rfl, rfl, by simp [PoolWriter.new], by simp [PoolWriter.new], by simp, rfl,
        fun i hi => absurd hi (Nat.not_lt_zero i)⟩
    rw [heq] at h
    cases h
    exact ⟨hsound, rfl⟩

theorem createPending_spec (mxc : List UInt8) (nonceBase : Vector UInt8 nonceBaseLen) (disk : Disk)
    (fault : Option Nat) :
    let created := pool.createPending mxc nonceBase disk fault
    created.2.sealed = disk.sealed ∧ AtRest pool content created.2.bytes ∧
      ∀ w, created.1 = some w → WriterSound pool content w created.2.bytes := by
  have hempty : ∀ header : Header, header.segmentSize = segmentSize →
      Written pool content header 0 (encodeHeader header) := by
    intro header hsize
    have hlength := length_encodeHeader header
    refine ⟨readHeader_encodeHeader (by rw [hsize]; decide), hsize, ?_, ?_, .inl ?_⟩
    · simp [segmentOffset, hlength]
    · intro i hi
      exact absurd hi (Nat.not_lt_zero i)
    · rw [List.drop_eq_nil_iff, hlength]
      simp [segmentOffset]
  cases fault with
  | none =>
    refine ⟨rfl, (hempty _ rfl).atRest (fun i hi => absurd hi (Nat.not_lt_zero i)), ?_⟩
    intro w hw
    cases hw
    refine ⟨hempty _ rfl, Nat.zero_le _, ?_, ?_, ?_, ?_⟩
    · simp [PoolWriter.new]
    · simp [PoolWriter.new]
    · simp [PoolWriter.new]
    · intro hfinal
      cases hfinal
  | some written =>
    refine ⟨rfl, ?_, ?_⟩
    · intro header _ _ i sealed hread
      obtain ⟨_, hle⟩ := ByteFile.readExact_of_drop hread
      change segmentOffset header i + recordLen header ≤
        ((encodeHeader _).take written).length at hle
      rw [List.length_take, length_encodeHeader] at hle
      unfold segmentOffset recordLen lenField at hle
      omega
    · intro w hw
      cases hw

theorem atRest_of_crashLeaves {before after : List UInt8} (hrest : AtRest pool content before)
    (h : crashLeaves pool before after = true) : AtRest pool content after := by
  intro header hheader hsize i sealed hread
  unfold crashLeaves at h
  rw [hheader] at h
  dsimp only at h
  rw [List.all_eq_true] at h
  obtain ⟨_, hle⟩ := ByteFile.readExact_of_drop hread
  have hindex : i ∈ List.range ((after.length - headerLen) / recordLen header) := by
    rw [List.mem_range, Nat.lt_div_iff_mul_lt (by unfold recordLen lenField; omega)]
    unfold segmentOffset at hle
    unfold recordLen lenField at *
    omega
  have hrecord := h i hindex
  have hopen : openSegment pool header after i = openRecord pool header i sealed := by
    unfold openSegment
    rw [hread]
  rw [hopen] at hrecord
  rcases hresult : openRecord pool header i sealed with error | segment
  · exact .inr ⟨error, rfl⟩
  · rw [hresult] at hrecord
    obtain ⟨hbefore, hsame⟩ := of_decide_eq_true hrecord
    rw [hread] at hsame
    rw [← hresult]
    exact hrest header hbefore hsize i sealed hsame.symm

end Resuming

end MediaPool
end WbfMatrixClient
