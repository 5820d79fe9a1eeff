import WbfMatrixClient.MediaDownload
import WbfMatrixClient.MediaPoolRoundTrip
import WbfMatrixClient.SeekStoreRuns

/-!
# An interrupted download stays a prefix

A step opens the download from what is on disk, hands it a chunk that was fetched, reads
one, or finishes. The chunks that are handed over are those of the file. Writing may
fail after any number of bytes.

The pool file and the seek file each have an invariant of their own; here they stand
next to each other, and a chunk that goes from one to the other is the file's.
-/

namespace WbfMatrixClient
namespace MediaDownload

open Chunking Sealing
open MediaPool (Pool Disk PoolWriter Content WriterSound LogSound AtRest Complete segmentSize)

section Sealed

variable {pool : Pool} {content : Content} {w : PoolWriter} {bytes : List UInt8}

variable {stop : Nat}

/-- How far one segment reaches from a position in it, up to an end behind it. -/
theorem segment_reach {size index position : Nat} (hdiv : index * size ≤ position)
    (hnext : position < index * size + size) (hstop : position < stop) :
    let upper := min (stop - index * size) size
    ¬(upper < position - index * size ∨ size < upper) ∧
      position < index * size + upper ∧ index * size + upper ≤ stop ∧
      upper - (position - index * size) = index * size + upper - position := by
  dsimp only
  omega

theorem readSealedLoop_spec (h : WriterSound pool content w bytes) (hstop : stop ≤ w.sealedPlainLen)
    (fuel position : Nat) (hposition : position ≤ stop) (hfuel : stop - position < fuel) :
    w.readSealedLoop pool bytes stop fuel position =
      .ok ((content.bytes.drop position).take (stop - position)) := by
  have hsize := h.written.size_eq
  have hpos : 0 < segmentSize := by decide
  induction fuel generalizing position with
  | zero => exact absurd hfuel (Nat.not_lt_zero _)
  | succ fuel ih =>
    rw [PoolWriter.readSealedLoop]
    by_cases hdone : stop ≤ position
    · rw [if_pos hdone, Nat.sub_eq_zero_of_le hdone, List.take_zero]
    rw [if_neg hdone]
    rw [PoolWriter.sealedPlainLen, hsize] at hstop
    have hdiv := Nat.div_mul_le_self position segmentSize
    have hnext := Nat.lt_div_mul_add (a := position) hpos
    have hindex : position / w.header.segmentSize = position / segmentSize := by rw [hsize]
    generalize position / segmentSize = index at hdiv hnext hindex
    have hless : index < w.segmentsWritten := by
      by_contra hge
      have hmul := Nat.mul_le_mul_right segmentSize (Nat.le_of_not_lt hge)
      exact hdone (le_trans hstop (le_trans hmul hdiv))
    have hend : index * segmentSize + segmentSize ≤ content.bytes.length := by
      have hmul := Nat.mul_le_mul_right segmentSize (Nat.succ_le_of_lt hless)
      rw [Nat.succ_mul] at hmul
      exact le_trans hmul (le_trans h.sealed_le h.plainLen_le)
    have hused : MediaPool.UsedIndex content index :=
      Nat.lt_of_lt_of_le (Nat.lt_add_of_pos_right hpos) hend
    obtain ⟨segment, data, hopen, hlen, hdata, hval⟩ :=
      MediaPool.openSegment_of_record hsize hused (h.written.records index hless)
    have hpiece : (piece segmentSize index content.bytes).length = segmentSize :=
      length_piece_of_le (by rw [Nat.add_mul, Nat.one_mul]; exact hend)
    have hfull : segment.len = segmentSize := by rw [hlen, hpiece]
    have hreach := segment_reach hdiv hnext (Nat.lt_of_not_le hdone)
    dsimp only at hreach
    rw [hindex]
    dsimp only
    rw [hopen]
    dsimp only
    rw [hdata]
    dsimp only
    rw [hval, hfull, hsize, hpiece, if_neg hreach.1]
    generalize hupper : min (stop - index * segmentSize) segmentSize = upper at *
    obtain ⟨_, hafter, hwithin, hpart⟩ := hreach
    rw [ih (index * segmentSize + upper) hwithin
      (Nat.lt_of_lt_of_le (Nat.sub_lt_sub_left (Nat.lt_of_lt_of_le hafter hwithin) hafter)
        (Nat.le_of_lt_succ hfuel))]
    -- The part of this segment, and then the rest.
    have hshort : upper - (position - index * segmentSize) ≤
        segmentSize - (position - index * segmentSize) :=
      Nat.sub_le_sub_right (hupper ▸ Nat.min_le_right _ _) _
    rw [Except.map, drop_piece, List.take_take, Nat.add_sub_cancel' hdiv, Nat.min_eq_left hshort,
      hpart]
    generalize index * segmentSize + upper = reached at *
    have hsplit : stop - position = (reached - position) + (stop - reached) := by
      rw [← Nat.sub_add_sub_cancel hwithin hafter.le, Nat.add_comm]
    rw [hsplit, List.take_add, List.drop_drop, Nat.add_sub_cancel' hafter.le]

theorem readSealed_spec (h : WriterSound pool content w bytes) {start : Nat} (hstart : start ≤ stop)
    (hstop : stop ≤ w.sealedPlainLen) :
    w.readSealed pool bytes start stop =
      .ok ((content.bytes.drop start).take (stop - start)) := by
  rw [PoolWriter.readSealed, if_neg (by omega)]
  exact readSealedLoop_spec h hstop _ _ hstart (Nat.lt_succ_self _)

end Sealed

structure State where
  disk : MediaDisk
  download : Option MediaDownload

inductive Action where
  /-- The program starts again. What was only in memory is gone. -/
  | opening (course : OpenCourse)
  | land (index : Nat) (faults : List (Option Nat))
  | advance (faults : List (Option Nat))
  | read (index : Nat)
  | store (index : Nat) (seekBase : Vector UInt8 MediaPool.nonceBaseLen)
      (openFault appendFault : Option Nat)
  | finish (course : FinishCourse)

section Steps

variable (pool : Pool) (file : MediaFile) (content : Content)

/-- A chunk of the file. -/
def chunk (index : Nat) : List UInt8 :=
  piece file.chunkSize.toNat index content.bytes

def step (s : State) : Action → State
  | .opening course =>
      let (result, disk) := openDownload pool file course s.disk
      { disk := disk, download := result.toOption }
  | .land index faults =>
      match s.download with
      | none => s
      | some d =>
          let (_, d, pending) :=
            d.landChunk pool index (chunk file content index) faults s.disk.pending
          { disk := { s.disk with pending := pending }, download := some d }
  | .advance faults =>
      match s.download with
      | none => s
      | some d =>
          let (_, d, disk) := d.advanceFromSeekStore pool faults s.disk
          { disk := disk, download := some d }
  | .read index =>
      { s with download := s.download.map fun d => (d.readLocalChunk pool index s.disk).2 }
  | .store index seekBase openFault appendFault =>
      match s.download with
      | none => s
      | some d =>
          let (_, d, disk) := d.storeSeekChunk pool index (chunk file content index) seekBase
            openFault appendFault s.disk
          { disk := disk, download := some d }
  | .finish course =>
      match s.download with
      | none => s
      | some d => { disk := (d.finish pool course s.disk).2, download := none }

/-- The size of the file, and that it is cut into chunks. -/
structure Describes (count : Nat) : Prop where
  fileSize : file.fileSize = content.bytes.length
  count_eq : WbfMatrixClient.chunkCount file.fileSize file.chunkSize.toNat = some count
  count_pos : 0 < count

/-- Every chunk in the seek file is one of the file's. -/
structure SeekSound (count : UInt32) (disk : MediaDisk) (seek : Option SeekStore) : Prop where
  sound : ∃ last appended, SeekStore.StateSound pool file.mxc file.chunkSize count
      { disk := disk.seek, store := last, appended := appended, acked := [] } ∧
    (∀ entry ∈ appended, entry.2 = chunk file content entry.1) ∧
    ∀ store, seek = some store → last = some store
  missing : disk.seekExists = false → disk.seek.bytes = []

/-- The pool file and the writer hold the beginning of the file. -/
structure PendingSound (pending : Disk) (download : Option MediaDownload) : Prop where
  log : LogSound pool content pending.sealed
  rest : AtRest pool content pending.bytes
  writer : ∀ d, download = some d → WriterSound pool content d.writer pending.bytes

structure DownloadSound (count : Nat) (s : State) : Prop where
  pending : PendingSound pool content s.disk.pending s.download
  seek : SeekSound pool file content (UInt32.ofNat count) s.disk (s.download.bind MediaDownload.seek)
  file_eq : ∀ d, s.download = some d → d.file = file ∧ d.chunkCount = UInt32.ofNat count

end Steps

section Steps

variable {pool : Pool} {file : MediaFile} {content : Content} {count : Nat}

theorem chunkRange_spec (hfile : Describes file content count) {d : MediaDownload}
    (hd : d.file = file) {index start stop : Nat} (h : d.chunkRange index = .ok (start, stop)) :
    start = index * file.chunkSize.toNat ∧ start ≤ stop ∧
      stop = min content.bytes.length ((index + 1) * file.chunkSize.toNat) ∧
      chunk file content index = (content.bytes.drop start).take (stop - start) := by
  rw [chunkRange, hd, expectedPlainLen, hfile.count_eq] at h
  dsimp only at h
  split_ifs at h with hpast
  cases h
  have hinside := (lt_chunkCount_iff hfile.count_eq).mp (Nat.lt_of_not_le hpast)
  rw [hfile.fileSize] at hinside
  rw [hfile.fileSize, Nat.add_mul, Nat.one_mul]
  refine ⟨rfl, Nat.le_add_right _ _, by omega, ?_⟩
  rw [chunk, piece, Nat.add_sub_cancel_left, List.take_eq_take_iff, List.length_drop]
  omega

/-- Landing a chunk of the file writes the next bytes of it, or nothing. -/
theorem landChunk_spec (hfile : Describes file content count) {d : MediaDownload}
    (hd : d.file = file) {pending : Disk} (h : PendingSound pool content pending (some d))
    (index : Nat) (faults : List (Option Nat)) :
    ∃ error writer pending',
      d.landChunk pool index (chunk file content index) faults pending =
        (error, { d with writer := writer }, pending') ∧
      PendingSound pool content pending' (some { d with writer := writer }) := by
  rw [landChunk]
  cases hrange : d.chunkRange index with
  | error e => exact ⟨some e, d.writer, pending, rfl, h⟩
  | ok range =>
    obtain ⟨start, stop⟩ := range
    obtain ⟨hstart, hle, hstop, hchunk⟩ := chunkRange_spec hfile hd hrange
    dsimp only
    by_cases hlength : (chunk file content index).length ≠ stop - start
    · rw [if_pos hlength]
      exact ⟨_, d.writer, pending, rfl, h⟩
    rw [if_neg hlength]
    by_cases hgap : d.writer.plainLen < start ∨ stop ≤ d.writer.plainLen
    · rw [if_pos hgap]
      exact ⟨_, d.writer, pending, rfl, h⟩
    rw [if_neg hgap]
    have hrest : (chunk file content index).drop (d.writer.plainLen - start) =
        (content.bytes.drop d.writer.plainLen).take (stop - d.writer.plainLen) := by
      rw [hchunk, List.drop_take, List.drop_drop,
        show start + (d.writer.plainLen - start) = d.writer.plainLen by omega,
        show stop - start - (d.writer.plainLen - start) = stop - d.writer.plainLen by omega]
    obtain ⟨error, writer, pending', hwrite, hsound, hlog, _⟩ :=
      MediaPool.write_spec (h.writer d rfl) h.log (stop - d.writer.plainLen) faults
    rw [hrest, hwrite]
    refine ⟨error, writer, pending', rfl, hlog, hsound.atRest, ?_⟩
    rintro _ ⟨⟩
    exact hsound

section Seek

variable {chunkCount : UInt32} {disk : MediaDisk} {seek : Option SeekStore} {store : SeekStore}

/-- A seek file without bytes, whoever has it open. -/
theorem seekSound_empty (chunkCount : UInt32) (hempty : disk.seek.bytes = []) :
    SeekSound pool file content chunkCount disk none := by
  refine ⟨⟨none, [], ⟨?_, ?_, ?_⟩, ?_, ?_⟩, fun _ => hempty⟩
  · exact fun store hstore => by cases hstore
  · exact fun store hstore => by cases hstore
  · intro _ hfits
    rw [hempty, SeekStore.headerFits_of_length_lt (by decide)] at hfits
    cases hfits
  · exact fun entry hentry => by cases hentry
  · exact fun store hstore => by cases hstore

theorem SeekSound.closed (h : SeekSound pool file content chunkCount disk seek) :
    SeekSound pool file content chunkCount disk none := by
  obtain ⟨last, appended, hsound, hexact, _⟩ := h.sound
  exact ⟨⟨last, appended, hsound, hexact, fun _ hstore => by cases hstore⟩, h.missing⟩

theorem SeekSound.exists_of_open (h : SeekSound pool file content chunkCount disk (some store)) :
    disk.seekExists = true := by
  obtain ⟨last, appended, hsound, _, hlast⟩ := h.sound
  by_contra hnot
  have hlong := (hsound.store store (hlast store rfl)).cells.headerLen_le
  have hempty := h.missing (Bool.not_eq_true _ ▸ hnot)
  dsimp only at hlong
  rw [hempty] at hlong
  cases hlong

theorem SeekSound.opening (h : SeekSound pool file content chunkCount disk seek) (there : Bool)
    (base : Vector UInt8 MediaPool.nonceBaseLen) (fault : Option Nat)
    {result : Except SdkError SeekStore} {seek' : Disk}
    (hopen : SeekStore.openStore pool file.mxc file.chunkSize chunkCount base disk.seek fault =
      (result, seek')) (hthere : there = false → seek'.bytes = []) :
    SeekSound pool file content chunkCount { disk with seek := seek', seekExists := there }
      result.toOption := by
  obtain ⟨last, appended, hsound, hexact, _⟩ := h.sound
  have hstep := hsound.step (.opening base fault)
  rw [SeekStore.step] at hstep
  simp only [hopen] at hstep
  exact ⟨⟨result.toOption, appended, hstep, hexact, fun _ hstore => hstore⟩, hthere⟩

/-- A chunk of the file is appended, or a part of its cell. -/
theorem SeekSound.append (h : SeekSound pool file content chunkCount disk (some store))
    (index : Nat) (fault : Option Nat) {error : Option SdkError} {store' : SeekStore} {seek' : Disk}
    (happend : store.append pool index (chunk file content index) disk.seek fault = (error, store',
      seek')) :
    SeekSound pool file content chunkCount { disk with seek := seek' } (some store') := by
  have hexists := h.exists_of_open
  obtain ⟨last, appended, hsound, hexact, hlast⟩ := h.sound
  have hstep := hsound.step (.append index (chunk file content index) fault)
  rw [SeekStore.step, hlast store rfl] at hstep
  simp only [happend] at hstep
  refine ⟨⟨some store', appended ++ [(index, chunk file content index)],
    ⟨hstep.fits, hstep.store, hstep.header⟩, ?_, fun _ hstore => hstore⟩, ?_⟩
  · intro entry hentry
    rcases List.mem_append.mp hentry with hentry | hentry
    · exact hexact entry hentry
    · cases List.mem_singleton.mp hentry
      rfl
  · intro hnot
    rw [hexists] at hnot
    cases hnot

theorem SeekSound.read (h : SeekSound pool file content chunkCount disk (some store))
    (hrejects : pool.aead.RejectsTorn) (index : Nat) :
    SeekSound pool file content chunkCount disk
        (some (store.read pool disk.seek.bytes index).2) ∧
      ∀ plain, (store.read pool disk.seek.bytes index).1 = some plain →
        plain = chunk file content index := by
  obtain ⟨last, appended, hsound, hexact, hlast⟩ := h.sound
  constructor
  · have hstep := hsound.step (.read index)
    rw [SeekStore.step] at hstep
    refine ⟨⟨_, appended, hstep, hexact, ?_⟩, h.missing⟩
    intro other hother
    cases hother
    dsimp only
    rw [hlast store rfl]
    rfl
  · intro plain hplain
    obtain ⟨slot, _, hcell⟩ := SeekStore.read_eq_some_iff.mp hplain
    have hstore := hsound.store store (hlast store rfl)
    rw [hstore.named.readCell pool chunkCount] at hcell
    exact hexact _ (hstore.cells.readCell hrejects hcell).1

end Seek

variable {pending : Disk} {download : Option MediaDownload}

theorem PendingSound.closed (h : PendingSound pool content pending download) :
    PendingSound pool content pending none := ⟨h.log, h.rest, fun _ hd => by cases hd⟩

theorem PendingSound.emptied (h : PendingSound pool content pending download) :
    PendingSound pool content { pending with bytes := [] } none :=
  ⟨h.log, MediaPool.stateSound_start.rest, fun _ hd => by cases hd⟩

variable {d : MediaDownload}

theorem PendingSound.withSeek (h : PendingSound pool content pending (some d))
    (seek : Option SeekStore) :
    PendingSound pool content pending (some { d with seek := seek }) := by
  refine ⟨h.log, h.rest, ?_⟩
  rintro _ ⟨⟩
  exact h.writer d rfl

section

variable (hfile : Describes file content count)

include hfile

/-- The pool file is taken up again, and what is made anew is as good. -/
theorem resumeOrCreate_spec {pending' : Disk} (h : PendingSound pool content pending download)
    (course : OpenCourse) {writer : Option PoolWriter}
    (hopen : resumeOrCreate pool file course pending = (writer, pending')) :
    LogSound pool content pending'.sealed ∧ AtRest pool content pending'.bytes ∧
      ∀ w, writer = some w → WriterSound pool content w pending'.bytes := by
  have hcreate : ∀ {writer : Option PoolWriter} {pending' : Disk},
      pool.createPending file.mxc course.pendingBase pending course.pendingFault =
        (writer, pending') →
      LogSound pool content pending'.sealed ∧ AtRest pool content pending'.bytes ∧
        ∀ w, writer = some w → WriterSound pool content w pending'.bytes := by
    intro writer pending' hcreated
    obtain ⟨hsealed, hrest, hwriter⟩ := @MediaPool.createPending_spec pool content file.mxc
      course.pendingBase pending course.pendingFault
    rw [hcreated] at hsealed hrest hwriter
    refine ⟨?_, hrest, hwriter⟩
    dsimp only at hsealed
    rw [hsealed]
    exact h.log
  rw [resumeOrCreate] at hopen
  cases hresume : pool.resumePending file.mxc pending with
  | error e =>
    rw [hresume] at hopen
    exact hcreate hopen
  | ok resumed =>
    obtain ⟨w, disk⟩ := resumed
    obtain ⟨hsound, hsealed⟩ := MediaPool.resumePending_spec h.rest hresume
    have hfits : w.plainLen ≤ file.fileSize := by
      rw [hfile.fileSize]
      exact hsound.plainLen_le
    rw [hresume] at hopen
    dsimp only at hopen
    rw [if_pos hfits] at hopen
    cases hopen
    refine ⟨?_, hsound.atRest, ?_⟩
    · rw [hsealed]
      exact h.log
    · rintro _ ⟨⟩
      exact hsound

theorem DownloadSound.opening {s : State} (h : DownloadSound pool file content count s)
    (course : OpenCourse) :
    DownloadSound pool file content count (step pool file content s (.opening course)) := by
  have hcount : (WbfMatrixClient.chunkCount file.fileSize file.chunkSize.toNat).filter
      (fun count => decide (0 < count)) = some count := by
    rw [hfile.count_eq]
    exact Option.filter_some_pos (decide_eq_true hfile.count_pos)
  rw [step, openDownload, hcount]
  dsimp only
  cases hopen : resumeOrCreate pool file course s.disk.pending with
  | mk writer pending =>
    obtain ⟨hlog, hrest, hwriter⟩ := resumeOrCreate_spec hfile h.pending course hopen
    cases writer with
    | none =>
      exact ⟨⟨hlog, hrest, fun _ hd => by cases hd⟩, ⟨h.seek.closed.sound, h.seek.missing⟩,
        fun _ hd => by cases hd⟩
    | some writer =>
      have hpending : ∀ seek, PendingSound pool content pending
          (some { file := file, writer := writer, seek := seek,
                  chunkCount := UInt32.ofNat count }) := by
        intro seek
        refine ⟨hlog, hrest, ?_⟩
        rintro _ ⟨⟩
        exact hwriter writer rfl
      dsimp only
      by_cases hexists : s.disk.seekExists = true
      · rw [if_pos hexists]
        cases hseek : SeekStore.openStore pool file.mxc file.chunkSize (UInt32.ofNat count)
          course.seekBase s.disk.seek course.seekFault with
        | mk result seek' =>
          have hsound := h.seek.opening s.disk.seekExists course.seekBase
            course.seekFault hseek (by rw [hexists]; exact fun hno => by cases hno)
          refine ⟨hpending _, ⟨hsound.sound, hsound.missing⟩, ?_⟩
          rintro _ ⟨⟩
          exact ⟨rfl, rfl⟩
      · rw [if_neg hexists]
        refine ⟨hpending none, ⟨h.seek.closed.sound, h.seek.missing⟩, ?_⟩
        rintro _ ⟨⟩
        exact ⟨rfl, rfl⟩

omit hfile in
/-- Opening does not touch the finished files. -/
theorem openDownload_finished (pool : Pool) (file : MediaFile) (course : OpenCourse)
    (disk : MediaDisk) : (openDownload pool file course disk).2.finished = disk.finished := by
  rw [openDownload]
  cases (WbfMatrixClient.chunkCount file.fileSize file.chunkSize.toNat).filter
    fun count => decide (0 < count) with
  | none => rfl
  | some count =>
    dsimp only
    cases resumeOrCreate pool file course disk.pending with
    | mk writer pending =>
      cases writer with
      | none => rfl
      | some writer =>
        dsimp only
        split <;> rfl

theorem DownloadSound.land {disk : MediaDisk}
    (h : DownloadSound pool file content count { disk := disk, download := some d }) (index : Nat)
    (faults : List (Option Nat)) :
    ∃ error d' pending',
      d.landChunk pool index (chunk file content index) faults disk.pending =
        (error, d', pending') ∧
      DownloadSound pool file content count
        { disk := { disk with pending := pending' }, download := some d' } := by
  obtain ⟨hd, hcount⟩ := h.file_eq d rfl
  obtain ⟨error, writer, pending', hland, hpending⟩ :=
    landChunk_spec hfile hd h.pending index faults
  refine ⟨error, _, pending', hland, hpending, ⟨h.seek.sound, h.seek.missing⟩, ?_⟩
  rintro _ ⟨⟩
  exact ⟨hd, hcount⟩

omit hfile in
/-- What is kept of a download when only its seek file has changed. -/
theorem DownloadSound.withSeek {disk disk' : MediaDisk} {d : MediaDownload}
    (h : DownloadSound pool file content count { disk := disk, download := some d })
    {seek : Option SeekStore} (hseek : SeekSound pool file content (UInt32.ofNat count) disk' seek)
    (hpending : disk'.pending = disk.pending) :
    DownloadSound pool file content count
      { disk := disk', download := some { d with seek := seek } } := by
  refine ⟨?_, hseek, ?_⟩
  · rw [hpending]
    exact h.pending.withSeek seek
  · rintro _ ⟨⟩
    exact h.file_eq d rfl

theorem DownloadSound.advance (hrejects : pool.aead.RejectsTorn) {disk : MediaDisk}
    (h : DownloadSound pool file content count { disk := disk, download := some d })
    (faults : List (Option Nat)) :
    ∃ result d' disk', d.advanceFromSeekStore pool faults disk = (result, d', disk') ∧
      DownloadSound pool file content count { disk := disk', download := some d' } ∧
      disk'.finished = disk.finished := by
  rw [advanceFromSeekStore]
  cases hseek : d.seek with
  | none => exact ⟨.ok false, d, disk, rfl, h, rfl⟩
  | some seek =>
    have hopen : SeekSound pool file content (UInt32.ofNat count) disk (some seek) := by
      rw [← hseek]
      exact h.seek
    obtain ⟨hread, hexact⟩ := hopen.read hrejects d.nextChunk
    dsimp only
    cases hone : seek.read pool disk.seek.bytes d.nextChunk with
    | mk plain seek' =>
      rw [hone] at hread hexact
      have hnext := h.withSeek hread rfl
      cases plain with
      | none => exact ⟨.ok false, _, disk, rfl, hnext, rfl⟩
      | some plain =>
        rw [hexact plain rfl]
        obtain ⟨error, d', pending', hland, hsound⟩ :=
          hnext.land hfile d.nextChunk faults
        dsimp only
        rw [hland]
        cases error with
        | none => exact ⟨.ok true, d', _, rfl, hsound, rfl⟩
        | some e => exact ⟨.error e, d', _, rfl, hsound, rfl⟩

/-- A chunk of the file is read as it is, or is not there, and the download stays as it
should be. -/
theorem DownloadSound.read (hrejects : pool.aead.RejectsTorn) {disk : MediaDisk} {d : MediaDownload}
    (h : DownloadSound pool file content count { disk := disk, download := some d }) (index : Nat) :
    ∃ result d', d.readLocalChunk pool index disk = (result, d') ∧
      DownloadSound pool file content count { disk := disk, download := some d' } ∧
      (index < count → result = .ok none ∨ result = .ok (some (chunk file content index))) ∧
      (count ≤ index → ∃ error, result = .error error) := by
  obtain ⟨hd, _⟩ := h.file_eq d rfl
  rw [readLocalChunk]
  by_cases hpast : count ≤ index
  · have hrange : ∃ error, d.chunkRange index = .error error := by
      rw [chunkRange, hd, expectedPlainLen, hfile.count_eq]
      dsimp only
      rw [if_pos hpast]
      exact ⟨_, rfl⟩
    obtain ⟨error, hrange⟩ := hrange
    rw [hrange]
    exact ⟨.error error, d, rfl, h, fun hinside => absurd hpast (Nat.not_le.mpr hinside),
      fun _ => ⟨error, rfl⟩⟩
  have hinside := Nat.lt_of_not_le hpast
  suffices hfound : ∃ found d', d.readLocalChunk pool index disk = (.ok found, d') ∧
      DownloadSound pool file content count { disk := disk, download := some d' } ∧
      ∀ plain, found = some plain → plain = chunk file content index by
    obtain ⟨found, d', hread, hsound, hexact⟩ := hfound
    rw [readLocalChunk] at hread
    refine ⟨.ok found, d', hread, hsound, fun _ => ?_, fun hover => absurd hover hpast⟩
    cases found with
    | none => exact .inl rfl
    | some plain => exact .inr (by rw [hexact plain rfl])
  rw [readLocalChunk]
  cases hrange : d.chunkRange index with
  | error e =>
    rw [chunkRange, hd, expectedPlainLen, hfile.count_eq] at hrange
    dsimp only at hrange
    rw [if_neg hpast] at hrange
    cases hrange
  | ok range =>
    obtain ⟨start, stop⟩ := range
    obtain ⟨_, hle, _, hchunk⟩ := chunkRange_spec hfile hd hrange
    dsimp only
    by_cases hsealed : stop ≤ d.writer.sealedPlainLen
    · rw [if_pos hsealed, readSealed_spec (h.pending.writer d rfl) hle hsealed]
      refine ⟨_, d, rfl, h, fun plain hplain => ?_⟩
      cases hplain
      exact hchunk.symm
    rw [if_neg hsealed]
    cases hseek : d.seek with
    | none => exact ⟨none, d, rfl, h, fun _ hplain => by cases hplain⟩
    | some seek =>
      have hopen : SeekSound pool file content (UInt32.ofNat count) disk (some seek) := by
        rw [← hseek]
        exact h.seek
      obtain ⟨hread, hexact⟩ := hopen.read hrejects index
      dsimp only
      cases hone : seek.read pool disk.seek.bytes index with
      | mk plain seek' =>
        rw [hone] at hread hexact
        exact ⟨plain, _, rfl, h.withSeek hread rfl, hexact⟩

end

theorem DownloadSound.store {disk : MediaDisk} {d : MediaDownload}
    (h : DownloadSound pool file content count { disk := disk, download := some d }) (index : Nat)
    (seekBase : Vector UInt8 MediaPool.nonceBaseLen) (openFault appendFault : Option Nat) :
    ∃ error d' disk',
      d.storeSeekChunk pool index (chunk file content index) seekBase openFault appendFault disk =
        (error, d', disk') ∧
      DownloadSound pool file content count { disk := disk', download := some d' } ∧
      disk'.finished = disk.finished := by
  obtain ⟨hd, hcount⟩ := h.file_eq d rfl
  rw [storeSeekChunk]
  cases hseek : d.seek with
  | some seek =>
    have hopen : SeekSound pool file content (UInt32.ofNat count) disk (some seek) := by
      rw [← hseek]
      exact h.seek
    dsimp only
    cases happend : seek.append pool index (chunk file content index) disk.seek appendFault with
    | mk error rest =>
      obtain ⟨seek', bytes⟩ := rest
      exact ⟨error, _, _, rfl, h.withSeek (hopen.append index appendFault happend) rfl,
        rfl⟩
  | none =>
    dsimp only
    cases hone : SeekStore.openStore pool d.file.mxc d.file.chunkSize d.chunkCount seekBase
      disk.seek openFault with
    | mk result bytes =>
      rw [hd, hcount] at hone
      cases result with
      | error e =>
        have hmissing : (disk.seekExists ||
            decide (d.chunkCount.toNat ≤ SeekStore.maxSeekChunks)) = false →
            bytes.bytes = [] := by
          intro hnot
          rw [Bool.or_eq_false_iff, decide_eq_false_iff_not, hcount] at hnot
          rw [SeekStore.openStore, if_pos (.inr (.inr (Nat.lt_of_not_le hnot.2)))] at hone
          cases hone
          exact h.seek.missing hnot.1
        have hsound := h.seek.opening _ seekBase openFault hone hmissing
        have hsame : d = { d with seek := none } := by rw [← hseek]
        refine ⟨some e, d, _, rfl, ?_, rfl⟩
        rw [hsame]
        exact h.withSeek hsound rfl
      | ok store =>
        have hsound := h.seek.opening true seekBase openFault hone
          (fun hno => by cases hno)
        dsimp only
        cases happend : store.append pool index (chunk file content index) bytes
          appendFault with
        | mk error rest =>
          obtain ⟨store', bytes'⟩ := rest
          exact ⟨error, _, _, rfl, h.withSeek (hsound.append index appendFault happend) rfl,
            rfl⟩

/-- The file that is named by the hash of the content, when there is one, is a finished
file of it. -/
def Shelved (pool : Pool) (content : Content) (disk : MediaDisk) : Prop :=
  ∀ bytes, disk.finished (Bytes.toHex (pool.blake3 content.bytes)) = some bytes →
    ∃ header segments, Complete pool content header segments bytes

/-- After finishing there is no download, whatever came of it. What it returns is that of
the whole file, and the file under its name is a finished file of the content. -/
theorem DownloadSound.finish (hfile : Describes file content count) {disk : MediaDisk}
    {d : MediaDownload}
    (h : DownloadSound pool file content count { disk := disk, download := some d })
    (hshelved : Shelved pool content disk) (course : FinishCourse) :
    ∃ result disk', d.finish pool course disk = (result, disk') ∧
      DownloadSound pool file content count { disk := disk', download := none } ∧
      Shelved pool content disk' ∧
      ∀ done verification, result = .ok (done, verification) →
        done.hashHex = Bytes.toHex (pool.blake3 content.bytes) ∧
        done.plainLen = content.bytes.length ∧ ∃ bytes, disk'.finished done.hashHex = some bytes := by
  obtain ⟨hd, _⟩ := h.file_eq d rfl
  have hclosed : ∀ {disk' : MediaDisk}, PendingSound pool content disk'.pending none →
      SeekSound pool file content (UInt32.ofNat count) disk' none →
      DownloadSound pool file content count { disk := disk', download := none } :=
    fun hpending hseek => ⟨hpending, hseek, fun _ hd => by cases hd⟩
  rw [MediaDownload.finish]
  by_cases hshort : d.writer.plainLen ≠ d.file.fileSize
  · rw [if_pos hshort]
    exact ⟨_, _, rfl, hclosed h.pending.emptied (seekSound_empty _ rfl), hshelved,
      fun _ _ hok => by cases hok⟩
  rw [if_neg hshort]
  have hall : d.writer.plainLen = content.bytes.length := by
    rw [not_not.mp hshort, hd, hfile.fileSize]
  obtain ⟨result, pending, hfinish, hlog, hrest, hdone, _⟩ :=
    MediaPool.finish_spec (h.pending.writer d rfl) h.pending.log hall course.writing
  have hpending : PendingSound pool content pending none := ⟨hlog, hrest, fun _ hd => by cases hd⟩
  have hseek : SeekSound pool file content (UInt32.ofNat count) { disk with pending := pending }
      none := ⟨h.seek.closed.sound, h.seek.missing⟩
  rw [hfinish]
  cases result with
  | error e => exact ⟨_, _, rfl, hclosed hpending hseek, hshelved, fun _ _ hok => by cases hok⟩
  | ok done =>
    obtain ⟨hhash, _, hlen, _, header, hcomplete⟩ := hdone done rfl
    dsimp only
    cases course.adopting with
    | some e => exact ⟨_, _, rfl, hclosed hpending hseek, hshelved, fun _ _ hok => by cases hok⟩
    | none =>
      -- Under the name there is the file that was there, or the one that was written.
      have hadopted : Shelved pool content
            (adopt pool done.hashHex { disk with pending := pending }) ∧
          ∃ bytes, (adopt pool done.hashHex { disk with pending := pending }).finished
            done.hashHex = some bytes := by
        rw [adopt]
        dsimp only
        cases hthere : (disk.finished done.hashHex).bind fun bytes =>
          (pool.openRead bytes).toOption with
        | some reader =>
          obtain ⟨bytes, hbytes, _⟩ := Option.bind_eq_some_iff.mp hthere
          exact ⟨hshelved, bytes, hbytes⟩
        | none =>
          refine ⟨?_, pending.bytes, if_pos rfl⟩
          intro bytes hbytes
          dsimp only at hbytes
          rw [← hhash, Option.isSome_none, if_neg Bool.false_ne_true, if_pos rfl] at hbytes
          cases hbytes
          exact ⟨header, done.segments, hcomplete⟩
      have hemptied : PendingSound pool content
          (adopt pool done.hashHex { disk with pending := pending }).pending none :=
        hpending.emptied
      dsimp only
      cases course.discarding with
      | some e =>
        exact ⟨_, _, rfl, hclosed hemptied ⟨hseek.sound, hseek.missing⟩, hadopted.1,
          fun _ _ hok => by cases hok⟩
      | none =>
        refine ⟨_, _, rfl, hclosed hemptied (seekSound_empty _ rfl), hadopted.1, ?_⟩
        intro other verification hok
        cases hok
        exact ⟨hhash, hlen, hadopted.2⟩

/-- What there is before the download is begun. -/
def State.start (finished : List Char → Option (List UInt8)) : State :=
  { disk := { pending := ⟨[], []⟩, seek := ⟨[], []⟩, seekExists := false, finished := finished }
    download := none }

theorem downloadSound_start (finished : List Char → Option (List UInt8)) :
    DownloadSound pool file content count (.start finished) := by
  refine ⟨⟨?_, MediaPool.stateSound_start.rest, fun _ hd => by cases hd⟩, seekSound_empty _ rfl,
    fun _ hd => by cases hd⟩
  exact fun _ hcall => by cases hcall

theorem DownloadSound.step (hfile : Describes file content count) (hrejects : pool.aead.RejectsTorn)
    {s : State} (h : DownloadSound pool file content count s ∧ Shelved pool content s.disk)
    (action : Action) :
    DownloadSound pool file content count (step pool file content s action) ∧
      Shelved pool content (step pool file content s action).disk := by
  obtain ⟨hsound, hshelved⟩ := h
  obtain ⟨disk, download⟩ := s
  cases action with
  | opening course =>
    refine ⟨hsound.opening hfile course, ?_⟩
    have hsame := openDownload_finished pool file course disk
    rw [MediaDownload.step]
    dsimp only
    rw [Shelved, hsame]
    exact hshelved
  | land index faults =>
    cases download with
    | none => exact ⟨hsound, hshelved⟩
    | some d =>
      obtain ⟨_, d', pending', hland, hnext⟩ := hsound.land hfile index faults
      rw [MediaDownload.step]
      dsimp only
      rw [hland]
      exact ⟨hnext, hshelved⟩
  | advance faults =>
    cases download with
    | none => exact ⟨hsound, hshelved⟩
    | some d =>
      obtain ⟨_, d', disk', hadvance, hnext, hsame⟩ :=
        hsound.advance hfile hrejects faults
      rw [MediaDownload.step]
      dsimp only
      rw [hadvance]
      refine ⟨hnext, ?_⟩
      dsimp only
      rw [Shelved, hsame]
      exact hshelved
  | read index =>
    cases download with
    | none => exact ⟨hsound, hshelved⟩
    | some d =>
      obtain ⟨_, d', hread, hnext, _⟩ := hsound.read hfile hrejects index
      rw [MediaDownload.step]
      dsimp only [Option.map_some]
      rw [hread]
      exact ⟨hnext, hshelved⟩
  | store index seekBase openFault appendFault =>
    cases download with
    | none => exact ⟨hsound, hshelved⟩
    | some d =>
      obtain ⟨_, d', disk', hstore, hnext, hsame⟩ :=
        hsound.store index seekBase openFault appendFault
      rw [MediaDownload.step]
      dsimp only
      rw [hstore]
      refine ⟨hnext, ?_⟩
      dsimp only
      rw [Shelved, hsame]
      exact hshelved
  | finish course =>
    cases download with
    | none => exact ⟨hsound, hshelved⟩
    | some d =>
      obtain ⟨_, disk', hfinish, hnext, hafter, _⟩ := hsound.finish hfile hshelved course
      rw [MediaDownload.step]
      dsimp only
      rw [hfinish]
      exact ⟨hnext, hafter⟩

theorem downloadSound_run (hfile : Describes file content count) (hrejects : pool.aead.RejectsTorn)
    {finished : List Char → Option (List UInt8)}
    (hshelved : Shelved pool content (State.start finished).disk) (actions : List Action) :
    DownloadSound pool file content count
        (Runs.run (MediaDownload.step pool file content) (.start finished) actions) ∧
      Shelved pool content
        (Runs.run (MediaDownload.step pool file content) (.start finished) actions).disk :=
  Runs.run_invariant
    (fun s => DownloadSound pool file content count s ∧ Shelved pool content s.disk)
    (fun _ action h => DownloadSound.step hfile hrejects h action) actions (.start finished)
    ⟨downloadSound_start finished, hshelved⟩

/-- What has been written so far, on disk and in memory. -/
def pendingPlain (pool : Pool) (d : MediaDownload) (bytes : List UInt8) :
    Except SdkError (List UInt8) :=
  (d.writer.readSealed pool bytes 0 d.writer.sealedPlainLen).map fun plain =>
    plain ++ d.writer.buffer

theorem pendingPlain_spec {bytes : List UInt8} (h : WriterSound pool content d.writer bytes) :
    d.pendingPlain pool bytes = .ok (content.bytes.take d.writer.plainLen) := by
  have hsealed : d.writer.sealedPlainLen = d.writer.segmentsWritten * segmentSize := by
    rw [PoolWriter.sealedPlainLen, h.written.size_eq]
  rw [pendingPlain, readSealed_spec h (Nat.zero_le _) le_rfl, h.buffer_eq, hsealed, List.drop_zero,
    Nat.sub_zero]
  have hsplit := List.take_append_drop (d.writer.segmentsWritten * segmentSize)
    (content.bytes.take d.writer.plainLen)
  rw [List.take_take, Nat.min_eq_left h.sealed_le] at hsplit
  rw [Except.map, hsplit]

/-- The next chunk is the one that the written part ends in. -/
theorem nextChunk_spec (hfile : Describes file content count) (hd : d.file = file)
    (hle : d.writer.plainLen ≤ content.bytes.length) :
    d.nextChunk * file.chunkSize.toNat ≤ d.writer.plainLen ∧
      d.writer.plainLen < (d.nextChunk + 1) * file.chunkSize.toNat := by
  obtain ⟨hpos, hcount, _⟩ := chunkCount_eq_some_iff.mp hfile.count_eq
  have hbound : d.writer.plainLen / file.chunkSize.toNat ≤ count := by
    have hall := chunkCount_le hfile.count_eq
    rw [hfile.fileSize] at hall
    calc d.writer.plainLen / file.chunkSize.toNat
        ≤ count * file.chunkSize.toNat / file.chunkSize.toNat :=
          Nat.div_le_div_right (le_trans hle hall)
      _ = count := Nat.mul_div_cancel count hpos
  have hmax : maxChunkIndex = 2 ^ 32 - 3 := rfl
  rw [nextChunk, hd, Nat.min_eq_left (by omega), Nat.add_mul, Nat.one_mul]
  exact ⟨Nat.div_mul_le_self _ _, Nat.lt_div_mul_add hpos⟩

/-- A file whose size gives no chunks is never opened. -/
theorem download_none_of_no_chunks (pool : Pool) (content : Content)
    (hcount : (WbfMatrixClient.chunkCount file.fileSize file.chunkSize.toNat).filter (fun count =>
      decide (0 < count)) = none) (finished : List Char → Option (List UInt8))
    (actions : List Action) :
    (Runs.run (MediaDownload.step pool file content) (.start finished) actions).download =
      none := by
  refine Runs.run_invariant (fun s : State => s.download = none) ?_ actions (.start finished) rfl
  intro s action hnone
  cases action with
  | opening course =>
    rw [MediaDownload.step, openDownload, hcount]
    rfl
  | land index faults | advance faults =>
    rw [MediaDownload.step, hnone]
    exact hnone
  | read index =>
    rw [MediaDownload.step, hnone]
    rfl
  | store index seekBase openFault appendFault | finish course =>
    rw [MediaDownload.step, hnone]
    exact hnone

theorem complete_reads {header : MediaPool.Header} {segments : Nat} {bytes : List UInt8}
    (h : Complete pool content header segments bytes) :
    ∃ r, pool.openRead bytes = .ok r ∧ r.plainLen = content.bytes.length ∧
      ∀ outLen, 0 < outLen →
        r.readToEnd pool outLen (content.bytes.length + 1) = .ok content.bytes := by
  obtain ⟨r, hopen, hsound, hposition⟩ := MediaPool.openRead_spec h
  refine ⟨r, hopen, hsound.plainLen_eq, fun outLen hout => ?_⟩
  have hread := MediaPool.readToEnd_spec hout (content.bytes.length + 1) r hsound (by omega)
  rw [hposition, List.drop_zero] at hread
  exact hread

/-- Every finished file has the name of its hash. -/
def Named (pool : Pool) (finished : List Char → Option (List UInt8)) : Prop :=
  ∀ hash bytes, finished (Bytes.toHex hash) = some bytes →
    ∃ other header segments, Complete pool other header segments bytes ∧
      pool.blake3 other.bytes = hash

theorem Named.shelved {finished : List Char → Option (List UInt8)} (h : Named pool finished)
    (hunique : ∀ other : Content, pool.blake3 other.bytes = pool.blake3 content.bytes → other.bytes
      = content.bytes) : Shelved pool content (State.start finished).disk := by
  intro bytes hbytes
  obtain ⟨other, header, segments, hcomplete, hhash⟩ := h _ bytes hbytes
  have hsame : other = content := by
    obtain ⟨otherBytes, _⟩ := other
    obtain ⟨contentBytes, _⟩ := content
    cases hunique _ hhash
    rfl
  rw [hsame] at hcomplete
  exact ⟨header, segments, hcomplete⟩

/-- Whatever is done and however often the program starts again, what is pending is the
beginning of the file up to a point in the next chunk, a chunk that is there is the
file's, and a download that finishes leaves the whole file. -/
theorem download_prefix (pool : Pool) (file : MediaFile) (content : Content)
    (finished : List Char → Option (List UInt8)) (actions : List Action)
    (hsize : file.fileSize = content.bytes.length) (hrejects : pool.aead.RejectsTorn)
    (hnamed : Named pool finished)
    (hunique : ∀ other : Content, pool.blake3 other.bytes = pool.blake3 content.bytes → other.bytes
      = content.bytes) :
    let s := Runs.run (MediaDownload.step pool file content) (.start finished) actions
    ∀ d, s.download = some d →
      (d.writer.plainLen ≤ content.bytes.length ∧
        d.pendingPlain pool s.disk.pending.bytes = .ok (content.bytes.take d.writer.plainLen) ∧
        d.nextChunk * file.chunkSize.toNat ≤ d.writer.plainLen ∧
        d.writer.plainLen < (d.nextChunk + 1) * file.chunkSize.toNat) ∧
      (∀ index, index < d.chunkCount.toNat →
        (d.readLocalChunk pool index s.disk).1 = .ok none ∨
        (d.readLocalChunk pool index s.disk).1 = .ok (some (chunk file content index))) ∧
      (∀ index, d.chunkCount.toNat ≤ index →
        ∃ error, (d.readLocalChunk pool index s.disk).1 = .error error) ∧
      (∀ course done verification disk,
        d.finish pool course s.disk = (.ok (done, verification), disk) →
        ∃ bytes r, disk.finished done.hashHex = some bytes ∧ pool.openRead bytes = .ok r ∧
          r.plainLen = content.bytes.length ∧
          ∀ outLen, 0 < outLen →
            r.readToEnd pool outLen (content.bytes.length + 1) = .ok content.bytes) := by
  intro s d hdownload
  cases hcount : (WbfMatrixClient.chunkCount file.fileSize file.chunkSize.toNat).filter
      (fun count => decide (0 < count)) with
  | none =>
      have hnone := download_none_of_no_chunks pool content hcount finished actions
      exact absurd (hdownload.symm.trans hnone) (by simp)
  | some count =>
      obtain ⟨heq, hpos⟩ := Option.filter_eq_some_iff.mp hcount
      have hfile : Describes file content count := ⟨hsize, heq, of_decide_eq_true hpos⟩
      obtain ⟨hsound, hshelved⟩ : DownloadSound pool file content count s ∧
          Shelved pool content s.disk :=
        downloadSound_run hfile hrejects (hnamed.shelved hunique) actions
      rw [show s = { disk := s.disk, download := some d } by rw [← hdownload]] at hsound hshelved
      obtain ⟨hd, hchunks⟩ := hsound.file_eq d rfl
      have hwriter := hsound.pending.writer d rfl
      have hcountEq : d.chunkCount.toNat = count := by
        obtain ⟨_, hle, _⟩ := chunkCount_eq_some_iff.mp heq
        rw [hchunks, UInt32.toNat_ofNat']
        exact Nat.mod_eq_of_lt (by unfold maxChunkIndex at hle; omega)
      obtain ⟨hlower, hupper⟩ := nextChunk_spec hfile hd hwriter.plainLen_le
      refine ⟨⟨hwriter.plainLen_le, pendingPlain_spec hwriter, hlower, hupper⟩, ?_, ?_, ?_⟩
      · intro index hinside
        obtain ⟨result, d', hread, _, hfound, _⟩ := hsound.read hfile hrejects index
        rw [hread]
        exact hfound (hcountEq ▸ hinside)
      · intro index hpast
        obtain ⟨result, d', hread, _, _, herror⟩ := hsound.read hfile hrejects index
        rw [hread]
        exact herror (hcountEq ▸ hpast)
      · intro course done verification disk hok
        obtain ⟨result, disk', hfinish, _, hafter, hdone⟩ := hsound.finish hfile hshelved course
        rw [hfinish] at hok
        cases hok
        obtain ⟨hhash, _, bytes, hbytes⟩ := hdone done verification rfl
        obtain ⟨header, segments, hcomplete⟩ := hafter bytes (hhash ▸ hbytes)
        obtain ⟨r, hopen, hlen, hread⟩ := complete_reads hcomplete
        exact ⟨bytes, r, hbytes, hopen, hlen, hread⟩

end Steps

/-- A chunk is stored before the first one has landed, and is there after the program has
started again. -/
theorem download_prefix_out_of_order :
    let pool : Pool := { aead := Aead.marked _ _ _, key := [], blake3 := id, sha256 := id }
    let file : MediaFile := { mxc := [], fileSize := 3, chunkSize := 2, sha256 := none }
    let content : Content := ⟨[1, 2, 3], by decide⟩
    let base := Vector.replicate MediaPool.nonceBaseLen (0 : UInt8)
    let course : OpenCourse :=
      { pendingBase := base, pendingFault := none, seekBase := base, seekFault := none }
    let actions : List Action := [.opening course, .store 1 base none none, .opening course]
    let s := Runs.run (MediaDownload.step pool file content) (.start fun _ => none) actions
    ∃ d, s.download = some d ∧ d.pendingPlain pool s.disk.pending.bytes = .ok [] ∧
      (d.readLocalChunk pool 1 s.disk).1 = .ok (some [3]) := by
  intro pool file content base course actions s
  have hrun : (s.download.map fun d =>
      (d.writer.plainLen, d.chunkCount, (d.readLocalChunk pool 1 s.disk).1.toOption)) =
        some (0, 2, some (some [3])) := by
    decide +kernel
  obtain ⟨d, hd, hstate⟩ := Option.map_eq_some_iff.mp hrun
  obtain ⟨hlen, hcount, hread⟩ := Prod.mk.inj hstate |>.imp id Prod.mk.inj
  obtain ⟨⟨_, hplain, _⟩, hexact, _⟩ := download_prefix pool file content (fun _ => none) actions
    rfl (Aead.marked_rejectsTorn _ _ (by decide)) (fun _ _ hbytes => by cases hbytes)
    (fun _ hhash => hhash) d hd
  rw [hlen] at hplain
  refine ⟨d, hd, hplain, ?_⟩
  rcases hexact 1 (by rw [hcount]; decide) with hnone | hsome
  · rw [hnone] at hread
    cases hread
  · exact hsome

end MediaDownload
end WbfMatrixClient
