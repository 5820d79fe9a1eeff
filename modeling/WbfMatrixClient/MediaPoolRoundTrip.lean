import WbfMatrixClient.MediaPoolRuns

/-!
# A finished pool file reads back

The reader over a complete file: what one read returns, and reading to the
end. Together with the writer's invariant along every run of writes, failures,
crashes and resumes this gives the round trip, and the log of seals gives that
no nonce was used for two plaintexts.
-/

namespace WbfMatrixClient
namespace MediaPool

open Sealing Chunking

section Reading

variable {pool : Pool} {content : Content}

/-- A reader of a complete file, at any position. -/
structure ReaderSound (pool : Pool) (content : Content) (header : Header) (count : Nat)
    (r : PoolReader) : Prop where
  complete : Complete pool content header count r.file
  header_eq : r.header = header
  segments_eq : r.segments = count
  plainLen_eq : r.plainLen = content.bytes.length
  loaded : ∀ i data, r.loadedSegment = some (i, data) →
    data = piece segmentSize i content.bytes

theorem Complete.length_eq {header : Header} {count : Nat} {file : List UInt8}
    (h : Complete pool content header count file) :
    file.length = segmentOffset header count := h.written.length_eq h.length_le

variable {header : Header} {count : Nat}

theorem openRead_spec {file : List UInt8} (h : Complete pool content header count file) :
    ∃ r, pool.openRead file = .ok r ∧ ReaderSound pool content header count r ∧
      r.position = 0 := by
  have hlength := h.length_eq
  have hpos := h.count_pos
  have hrecord : 0 < recordLen header := by
    unfold recordLen lenField
    omega
  have hbody : file.length - headerLen = count * recordLen header := by
    rw [hlength, segmentOffset]
    omega
  have hbody_pos : 0 < count * recordLen header := Nat.mul_pos hpos hrecord
  obtain ⟨segment, data, hopen, hlen, _, _⟩ :=
    openSegment_of_record h.written.size_eq h.last_used (h.written.records (count - 1) (by omega))
  unfold Pool.openRead
  rw [h.written.header_eq]
  dsimp only
  rw [hbody, Nat.mul_mod_left, Nat.mul_div_cancel _ hrecord, if_neg (by omega), hopen]
  refine ⟨_, rfl, ⟨h, rfl, rfl, ?_, ?_⟩, rfl⟩
  · change (count - 1) * header.segmentSize + segment.len = _
    have hlast := h.last_used
    have hend := h.length_le
    have hmul : count * segmentSize = (count - 1) * segmentSize + segmentSize := by
      rw [← Nat.succ_mul]
      congr 1
      omega
    rw [hlen, h.written.size_eq, length_piece]
    unfold UsedIndex at hlast
    generalize segmentSize = size at hlast hend hmul ⊢
    omega
  · intro i data hloaded
    cases hloaded

variable {r : PoolReader}

section

variable (h : ReaderSound pool content header count r)

include h

/-- Loading a segment gives the content's piece, from the cache or the file. -/
theorem loadSegment_spec {index : Nat} (hused : UsedIndex content index) :
    ∃ r', r.loadSegment pool index = .ok (r', piece segmentSize index content.bytes) ∧
      ReaderSound pool content header count r' ∧ r'.position = r.position := by
  have hindex : index < count := by
    by_contra hge
    have hmul := Nat.mul_le_mul_right segmentSize (Nat.le_of_not_lt hge)
    have hend := h.complete.length_le
    unfold UsedIndex at hused
    omega
  have hheader := h.header_eq
  subst hheader
  rcases hfilter : r.loadedSegment.filter (fun loaded => loaded.1 == index) with _ | ⟨i, plain⟩
  · obtain ⟨segment, data, hopen, hlen, hdata, hval⟩ :=
      openSegment_of_record h.complete.written.size_eq hused
        (h.complete.written.records index hindex)
    simp only [PoolReader.loadSegment, hfilter, hopen]
    rw [if_neg, hdata]
    · refine ⟨{ r with loadedSegment := some (index, data.val) }, ?_, ?_, rfl⟩
      · dsimp only
        rw [hval]
      · refine ⟨h.complete, rfl, h.segments_eq, h.plainLen_eq, ?_⟩
        intro i loaded hloaded
        cases hloaded
        exact hval
    · rintro ⟨hinner, hshort⟩
      apply hshort
      rw [h.segments_eq] at hinner
      have hmul : (index + 1) * segmentSize ≤ (count - 1) * segmentSize :=
        Nat.mul_le_mul_right segmentSize (by omega)
      have hlast := h.complete.last_used
      unfold UsedIndex at hlast
      rw [hlen, length_piece_of_le (by omega), h.complete.written.size_eq]
  · obtain ⟨hloaded, hsame⟩ := Option.filter_eq_some_iff.mp hfilter
    have hi : i = index := by simpa using hsame
    have hplain := h.loaded i plain hloaded
    subst hi
    refine ⟨r, ?_, h, rfl⟩
    simp only [PoolReader.loadSegment, hfilter]
    rw [hplain]

/-- One read returns the next bytes of the content, up to the end of the segment. -/
theorem read_within (outLen : Nat) :
    ∃ r', r.read pool outLen = .ok (r', (content.bytes.drop r.position).take
        (min outLen (segmentSize - r.position % segmentSize))) ∧
      ReaderSound pool content header count r' ∧
      r'.position = r.position + ((content.bytes.drop r.position).take
        (min outLen (segmentSize - r.position % segmentSize))).length := by
  unfold PoolReader.read
  rw [h.plainLen_eq]
  split_ifs with hdone
  · have hnone : (content.bytes.drop r.position).take
        (min outLen (segmentSize - r.position % segmentSize)) = [] := by
      rcases hdone with hend | rfl
      · rw [List.drop_eq_nil_of_le hend, List.take_nil]
      · rw [Nat.zero_min, List.take_zero]
    rw [hnone]
    exact ⟨r, rfl, h, rfl⟩
  · have hsize : r.header.segmentSize = segmentSize := by
      rw [h.header_eq]
      exact h.complete.written.size_eq
    have hpos : 0 < segmentSize := by decide
    rw [hsize]
    have hdiv := Nat.div_add_mod r.position segmentSize
    rw [Nat.mul_comm] at hdiv
    have hmod := Nat.mod_lt r.position hpos
    have hused : UsedIndex content (r.position / segmentSize) := by
      unfold UsedIndex
      omega
    obtain ⟨r', heq, hsound, hposition⟩ := loadSegment_spec h hused
    have hlength := length_piece segmentSize (r.position / segmentSize) content.bytes
    dsimp only
    rw [heq]
    dsimp only
    rw [if_neg (by omega)]
    -- the rest of the segment is the rest of the content, cut off where the segment ends
    have hrest : ((piece segmentSize (r.position / segmentSize) content.bytes).drop
        (r.position % segmentSize)).take (min ((piece segmentSize (r.position / segmentSize)
          content.bytes).length - r.position % segmentSize) outLen) =
        (content.bytes.drop r.position).take
          (min outLen (segmentSize - r.position % segmentSize)) := by
      rw [drop_piece, hdiv, List.take_take, List.take_eq_take_iff, List.length_drop, hlength]
      generalize segmentSize = size at hdiv hmod ⊢
      omega
    rw [hrest]
    refine ⟨_, rfl, ⟨hsound.complete, hsound.header_eq, hsound.segments_eq, hsound.plainLen_eq,
      hsound.loaded⟩, ?_⟩
    change r'.position + _ = _
    rw [hposition, List.length_take, List.length_drop, hlength]
    generalize segmentSize = size at hdiv hmod ⊢
    omega

/-- One read returns the next bytes of the content, and at least one of them
if there are any. -/
theorem read_spec (outLen : Nat) :
    ∃ r' n, r.read pool outLen =
        .ok (r', (content.bytes.drop r.position).take n) ∧
      ReaderSound pool content header count r' ∧ n ≤ outLen ∧
      r'.position = r.position + n ∧
      (r.position < content.bytes.length → r.position + n ≤ content.bytes.length) ∧
      (r.position < content.bytes.length → 0 < outLen → 0 < n) := by
  obtain ⟨r', heq, hsound, hposition⟩ := read_within h outLen
  have hmod := Nat.mod_lt r.position (show 0 < segmentSize by decide)
  have hlength : ((content.bytes.drop r.position).take
      (min outLen (segmentSize - r.position % segmentSize))).length =
        min (min outLen (segmentSize - r.position % segmentSize))
          (content.bytes.length - r.position) := by
    rw [List.length_take, List.length_drop]
  refine ⟨r', _, ?_, hsound, ?_, hposition, ?_, ?_⟩
  · rw [heq, hlength, List.take_eq_take_iff.mpr]
    rw [List.length_drop]
    omega
  all_goals
    rw [hlength]
    generalize segmentSize = size at hmod ⊢
    omega

end

/-- Reading until nothing more comes returns the rest of the content. -/
theorem readToEnd_spec {outLen : Nat} (hout : 0 < outLen) :
    ∀ (fuel : Nat) (r : PoolReader), ReaderSound pool content header count r →
      content.bytes.length - r.position < fuel →
      r.readToEnd pool outLen fuel = .ok (content.bytes.drop r.position) := by
  intro fuel
  induction fuel with
  | zero =>
    intro r _ hfuel
    omega
  | succ fuel ih =>
    intro r h hfuel
    obtain ⟨r', n, heq, hsound, _, hposition, hle, hprogress⟩ := read_spec h outLen
    unfold PoolReader.readToEnd
    rw [heq]
    by_cases hdone : content.bytes.length ≤ r.position
    · rw [List.drop_eq_nil_of_le hdone]
      simp
    · have hn : 0 < n := hprogress (by omega) hout
      have hend := hle (by omega)
      have hne : (content.bytes.drop r.position).take n ≠ [] := by
        intro hnil
        have hlength := congrArg List.length hnil
        rw [List.length_take, List.length_drop, List.length_nil] at hlength
        omega
      have hrest := ih r' hsound (by omega)
      rcases hbytes : (content.bytes.drop r.position).take n with _ | ⟨byte, bytes⟩
      · exact absurd hbytes hne
      · dsimp only
        rw [hrest, hposition, ← List.drop_drop, ← hbytes]
        simp [Except.map]

end Reading

section Run

variable {pool : Pool} {mxc : List UInt8} {content : Content}

/-- What `finish` reports about the content, with the complete file it leaves. -/
structure FinishedSound (pool : Pool) (content : Content) (done : Finished)
    (file : List UInt8) : Prop where
  hashHex_eq : done.hashHex = Bytes.toHex (pool.blake3 content.bytes)
  sha256Hex_eq : done.sha256Hex = Bytes.toHex (pool.sha256 content.bytes)
  plainLen_eq : done.plainLen = content.bytes.length
  bytesOnDisk_eq : done.bytesOnDisk = file.length
  complete : ∃ header, Complete pool content header done.segments file

structure StateSound (pool : Pool) (content : Content) (s : State) : Prop where
  log : LogSound pool content s.disk.sealed
  rest : AtRest pool content s.disk.bytes
  writer : ∀ w, s.writer = some w → WriterSound pool content w s.disk.bytes
  open_or_done : s.writer = none ∨ s.finished = none
  finished : ∀ done, s.finished = some done → FinishedSound pool content done s.disk.bytes

theorem stateSound_start : StateSound pool content State.start := by
  refine ⟨?_, ?_, ?_, .inl rfl, ?_⟩
  · intro a ha
    simp [State.start] at ha
  · intro header hheader
    simp [State.start, readHeader, ByteFile.readExact, headerLen] at hheader
  · intro w hw
    cases hw
  · intro done hdone
    cases hdone

theorem WriterSound.atRest {w : PoolWriter} {file : List UInt8}
    (h : WriterSound pool content w file) :
    AtRest pool content file :=
  h.written.atRest fun _ hi => usedIndex_of_lt (le_trans h.sealed_le h.plainLen_le) hi

theorem StateSound.ofWriter {w : PoolWriter} {disk : Disk}
    (h : WriterSound pool content w disk.bytes) (hlog : LogSound pool content disk.sealed) :
    StateSound pool content { disk := disk, writer := some w, finished := none } := by
  refine ⟨hlog, h.atRest, ?_, .inr rfl, ?_⟩
  · intro w' hw'
    cases hw'
    exact h
  · intro done hdone
    cases hdone

/-- Every step keeps the file, the writer and the log in line with the content. -/
theorem StateSound.step {s : State} (h : StateSound pool content s) (action : Action) :
    StateSound pool content (step pool mxc content s action) := by
  cases action with
  | create nonceBase fault =>
    unfold MediaPool.step
    dsimp only
    split_ifs with hfree
    · obtain ⟨hsealed, hrest, hwriter⟩ :=
        @createPending_spec pool content mxc nonceBase s.disk fault
      have hfinished : s.finished = none := by simpa using hfree.2
      refine ⟨?_, hrest, hwriter, .inr hfinished, ?_⟩
      · have hlog := h.log
        rw [← hsealed] at hlog
        exact hlog
      · intro done hdone
        rw [hfinished] at hdone
        cases hdone
    · exact h
  | write len faults =>
    unfold MediaPool.step
    rcases hw : s.writer with _ | w
    · exact h
    · obtain ⟨error, w', disk', heq, hsound, hlog, _⟩ :=
        write_spec (h.writer w hw) h.log len faults
      have hfinished : s.finished = none := by
        rcases h.open_or_done with hnone | hnone
        · rw [hw] at hnone
          cases hnone
        · exact hnone
      dsimp only
      rw [heq, hfinished]
      exact StateSound.ofWriter hsound hlog
  | finish fault =>
    unfold MediaPool.step
    rcases hw : s.writer with _ | w
    · exact h
    · dsimp only
      split_ifs with hall
      · obtain ⟨result, disk', heq, hlog, hrest, hdone, _⟩ :=
          finish_spec (h.writer w hw) h.log hall fault
        rw [heq]
        refine ⟨hlog, hrest, ?_, .inl rfl, ?_⟩
        · intro w' hw'
          cases hw'
        · intro done hfinished
          rcases result with error | done'
          · cases hfinished
          · cases hfinished
            obtain ⟨hhash, hsha, hplain, hbytes, hcomplete⟩ := hdone done rfl
            exact ⟨hhash, hsha, hplain, hbytes, hcomplete⟩
      · exact h
  | crash bytes =>
    unfold MediaPool.step
    dsimp only
    split_ifs with hleaves
    · refine ⟨h.log, atRest_of_crashLeaves h.rest hleaves, ?_, .inl rfl, ?_⟩
      · intro w hw
        cases hw
      · intro done hdone
        cases hdone
    · exact h
  | resume =>
    unfold MediaPool.step
    rcases hw : s.writer with _ | w
    · dsimp only
      rcases hresume : pool.resumePending mxc s.disk with error | ⟨w, disk⟩
      · refine ⟨h.log, h.rest, ?_, .inr rfl, ?_⟩
        · intro w hw'
          cases hw'
        · intro done hdone
          cases hdone
      · obtain ⟨hsound, hsealed⟩ := resumePending_spec h.rest hresume
        have hlog := h.log
        rw [← hsealed] at hlog
        exact StateSound.ofWriter hsound hlog
    · exact h

theorem stateSound_run (pool : Pool) (mxc : List UInt8) (content : Content)
    (actions : List Action) :
    StateSound pool content (Runs.run (step pool mxc content) State.start actions) :=
  Runs.run_invariant (StateSound pool content) (fun _ action h => StateSound.step h action)
    actions _ stateSound_start

/-- From any state with an open writer, writing the rest and finishing without
a fault gives a finished file. -/
theorem write_rest_finish {s : State} {w : PoolWriter} (h : StateSound pool content s)
    (hw : s.writer = some w) (hpos : 0 < content.bytes.length) :
    (Runs.run (step pool mxc content) s
      [.write (content.bytes.length - w.plainLen) [], .finish none]).finished.isSome = true := by
  obtain ⟨error, w', disk', heq, hsound, hlog, hplain⟩ :=
    write_spec (h.writer w hw) h.log (content.bytes.length - w.plainLen) []
  have hle := (h.writer w hw).plainLen_le
  have hall : w'.plainLen = content.bytes.length := by
    rw [hplain rfl]
    omega
  obtain ⟨result, disk₂, hfinish, _, _, _, hok⟩ := finish_spec hsound hlog hall none
  obtain ⟨done, hdone⟩ := hok rfl hpos
  simp only [Runs.run_cons, Runs.run_nil, MediaPool.step, hw, heq, hall, if_pos, hfinish, hdone,
    Except.toOption, Option.isSome_some]

end Run

end MediaPool
end WbfMatrixClient
