import WbfMatrixClient.MediaDownloadRuns

/-!
# The files of a download under any manifest

A manifest may say what it likes about a file before it is compared with what the server says. The
pool file is taken up again all the same, and a seek file that was made for chunks of another size
is made anew. What the files hold is the content in any case: a part that is read is what stands at
its place, and a download that ends, even one that was told of a smaller file, leaves a beginning of
the content under the hash of it.
-/

namespace WbfMatrixClient

namespace SeekStore

/-- A header names the size and the number of the chunks. -/
theorem eq_of_headerFits {chunkSize chunkCount otherSize otherCount : UInt32}
    {base : Vector UInt8 MediaPool.nonceBaseLen} {rest : List UInt8}
    (h : headerFits otherSize otherCount (encodeHeader chunkSize chunkCount base ++ rest) = true) :
    otherSize = chunkSize ∧ otherCount = chunkCount := by
  have hlength := length_encodeHeader chunkSize chunkCount base
  have hread : ByteFile.readExact (encodeHeader chunkSize chunkCount base ++ rest) 0 headerLen =
      some (encodeHeader chunkSize chunkCount base) := by
    rw [ByteFile.readExact_append (by omega), ByteFile.readExact, if_pos (by omega),
      List.drop_zero, List.take_of_length_le (by omega)]
  obtain ⟨hsize, hcount, _⟩ := encodeHeader_parts chunkSize chunkCount base []
  rw [List.append_nil] at hsize hcount
  rw [headerFits, hread] at h
  simp only [hsize, hcount, Bytes.ofLittleEndian_toLittleEndian 4 _ chunkSize.toNat_lt,
    Bytes.ofLittleEndian_toLittleEndian 4 _ chunkCount.toNat_lt, decide_eq_true_eq] at h
  obtain ⟨_, _, hsize', hcount'⟩ := h
  exact ⟨(UInt32.toNat_inj.mp hsize').symm, (UInt32.toNat_inj.mp hcount').symm⟩

/-- Opening leaves the file as it is, or begins a new one. -/
theorem openStore_bytes {pool : MediaPool.Pool} {mxc : List UInt8} {chunkSize chunkCount : UInt32}
    {base : Vector UInt8 MediaPool.nonceBaseLen} {disk disk' : MediaPool.Disk} {fault : Option Nat}
    {result : Except SdkError SeekStore}
    (h : openStore pool mxc chunkSize chunkCount base disk fault = (result, disk')) :
    disk' = disk ∨
      ∃ written, disk'.bytes = (encodeHeader chunkSize chunkCount base).take written := by
  rw [openStore] at h
  split_ifs at h
  · cases h
    exact .inl rfl
  · cases hopen : reopen pool mxc chunkSize chunkCount disk.bytes with
    | error e =>
      rw [hopen] at h
      cases h
      exact .inl rfl
    | ok store =>
      rw [hopen] at h
      cases store with
      | some store =>
        cases h
        exact .inl rfl
      | none =>
        cases fault with
        | some written =>
          cases h
          exact .inr ⟨written, rfl⟩
        | none =>
          cases h
          refine .inr ⟨headerLen, (List.take_of_length_le ?_).symm⟩
          rw [length_encodeHeader]

end SeekStore

namespace MediaDownload

open Chunking Sealing
open MediaPool (Pool Disk PoolWriter Content Finished WriterSound LogSound AtRest Complete
  segmentSize segmentOffset)

section Files

variable {pool : Pool} {content : Content}

section Seeks

variable {mxc : List UInt8} {file other : MediaFile} {chunkCount : UInt32} {disk : MediaDisk}

theorem SeekSound.congr {seek : Option SeekStore}
    (h : SeekSound pool file content chunkCount disk seek) (hmxc : other.mxc = file.mxc)
    (hsize : other.chunkSize = file.chunkSize) :
    SeekSound pool other content chunkCount disk seek := by
  obtain ⟨⟨last, appended, hsound, hexact, hlast⟩, hmissing⟩ := h
  refine ⟨⟨last, appended, ?_, fun entry hentry => ?_, hlast⟩, hmissing⟩
  · rw [hmxc, hsize]
    exact hsound
  · rw [chunk, hsize]
    exact hexact entry hentry

/-- Whatever chunks a seek file is opened for, they are the content's. -/
def SeeksSound (pool : Pool) (mxc : List UInt8) (content : Content) (disk : MediaDisk) : Prop :=
  ∀ file : MediaFile, file.mxc = mxc → ∀ chunkCount,
    SeekSound pool file content chunkCount disk none

/-- A seek file that is not one of these chunks. -/
theorem seekSound_of_misfit
    (hmisfit : SeekStore.headerFits file.chunkSize chunkCount disk.seek.bytes = false)
    (hmissing : disk.seekExists = false → disk.seek.bytes = []) :
    SeekSound pool file content chunkCount disk none := by
  refine ⟨⟨none, [], ⟨?_, ?_, ?_⟩, ?_, ?_⟩, hmissing⟩
  · exact fun store hstore => by cases hstore
  · exact fun store hstore => by cases hstore
  · intro _ hfits
    rw [hmisfit] at hfits
    cases hfits
  · exact fun entry hentry => by cases hentry
  · exact fun store hstore => by cases hstore

/-- With a seek file of these chunks there is none of others. -/
theorem SeekSound.seeks {store : SeekStore}
    (h : SeekSound pool file content chunkCount disk (some store)) :
    SeeksSound pool file.mxc content disk := by
  intro other hmxc otherCount
  obtain ⟨last, appended, hsound, _, hlast⟩ := h.sound
  obtain ⟨rest, hbytes⟩ := (hsound.store store (hlast store rfl)).cells.header
  dsimp only at hbytes
  cases hfits : SeekStore.headerFits other.chunkSize otherCount disk.seek.bytes with
  | false => exact seekSound_of_misfit hfits h.missing
  | true =>
    rw [hbytes] at hfits
    obtain ⟨hsize, rfl⟩ := SeekStore.eq_of_headerFits hfits
    exact h.closed.congr hmxc hsize

theorem SeeksSound.opening (h : SeeksSound pool file.mxc content disk) (there : Bool)
    (base : Vector UInt8 MediaPool.nonceBaseLen) (fault : Option Nat)
    {result : Except SdkError SeekStore} {seek' : Disk}
    (hopen : SeekStore.openStore pool file.mxc file.chunkSize chunkCount base disk.seek fault =
      (result, seek')) (hthere : there = false → seek'.bytes = []) :
    SeeksSound pool file.mxc content { disk with seek := seek', seekExists := there } := by
  have hthese := (h file rfl chunkCount).opening there base fault hopen hthere
  intro other hmxc otherCount
  rcases SeekStore.openStore_bytes hopen with rfl | ⟨written, hbytes⟩
  · obtain ⟨hsound, _⟩ := h other hmxc otherCount
    exact ⟨hsound, hthere⟩
  cases hfits : SeekStore.headerFits other.chunkSize otherCount seek'.bytes with
  | false => exact seekSound_of_misfit hfits hthere
  | true =>
    have hwhole : seek'.bytes =
        SeekStore.encodeHeader file.chunkSize chunkCount base ++ [] := by
      have hlength := SeekStore.length_encodeHeader file.chunkSize chunkCount base
      rw [List.append_nil, hbytes]
      refine List.take_of_length_le ?_
      by_contra hshort
      rw [SeekStore.headerFits_of_length_lt (by rw [hbytes, List.length_take]; omega)] at hfits
      cases hfits
    rw [hwhole] at hfits
    obtain ⟨hsize, rfl⟩ := SeekStore.eq_of_headerFits hfits
    exact hthese.closed.congr hmxc hsize

theorem seeksSound_empty (mxc : List UInt8) (hempty : disk.seek.bytes = []) :
    SeeksSound pool mxc content disk := fun _ _ chunkCount => seekSound_empty chunkCount hempty

theorem SeeksSound.of_eq {disk' : MediaDisk} (h : SeeksSound pool mxc content disk)
    (hseek : disk'.seek = disk.seek) (hexists : disk'.seekExists = disk.seekExists) :
    SeeksSound pool mxc content disk' := by
  intro file hmxc chunkCount
  obtain ⟨hsound, hmissing⟩ := h file hmxc chunkCount
  refine ⟨?_, ?_⟩
  · rw [hseek]
    exact hsound
  · rw [hseek, hexists]
    exact hmissing

end Seeks

/-- A pool file that nothing was written to since it was opened. -/
structure Untouched (content : Content) (w : PoolWriter) (bytes : List UInt8) : Prop where
  buffer : w.buffer = [] ∨ w.plainLen = content.bytes.length
  tail : bytes.drop (segmentOffset w.header w.segmentsWritten) = []

/-- What is in the buffer after resuming is the end of a finished file. -/
theorem resumeLoop_buffer (pool : Pool) (bytes : List UInt8) (records : Nat) :
    ∀ (left index : Nat) {w w' : PoolWriter},
      PoolWriter.resumeLoop pool bytes records left index w = .ok w' →
      w.buffer = [] → w'.buffer = [] ∨ w'.holdsFinalSegment = true := by
  have hrehash : ∀ (left kept : Nat) {w w' : PoolWriter},
      PoolWriter.rehashLoop pool bytes left kept w = .ok w' → w'.buffer = w.buffer := by
    intro left
    induction left with
    | zero =>
      intro kept w w' h
      cases h
      rfl
    | succ left ih =>
      intro kept w w' h
      rw [PoolWriter.rehashLoop] at h
      split at h
      · cases h
      · split at h
        · cases h
        · exact (ih _ h).trans rfl
  intro left
  induction left with
  | zero =>
    intro index w w' h hempty
    cases h
    exact .inl hempty
  | succ left ih =>
    intro index w w' h hempty
    rw [PoolWriter.resumeLoop] at h
    split at h
    · cases h
      exact .inl hempty
    · split at h
      · cases h
      · dsimp only at h
        split_ifs at h
        · exact ih _ h hempty
        · cases h
          exact .inr rfl
        · rw [PoolWriter.rehashUpTo] at h
          exact .inl ((hrehash _ _ h).trans hempty)

variable {pending pending' : Disk}

theorem resumePending_untouched {mxc : List UInt8} {w : PoolWriter}
    (hrest : AtRest pool content pending.bytes)
    (h : pool.resumePending mxc pending = .ok (w, pending')) :
    Untouched content w pending'.bytes := by
  obtain ⟨hsound, _⟩ := MediaPool.resumePending_spec hrest h
  rw [Pool.resumePending] at h
  split at h
  · cases h
  · rename_i header hheader
    split_ifs at h
    dsimp only at h
    split at h
    · cases h
    · rename_i w' hresume
      cases h
      have hsame : w.header = header := by
        have hread := hsound.written.header_eq
        dsimp only at hread
        rw [MediaPool.readHeader_congr (ByteFile.readExact_take
          (MediaPool.headerLen_le_segmentOffset header _)), hheader] at hread
        exact (Except.ok.inj hread).symm
      refine ⟨?_, ?_⟩
      · rcases resumeLoop_buffer pool pending.bytes _ _ _ hresume rfl with hempty | hfinal
        · exact .inl hempty
        · exact .inr (hsound.final hfinal)
      · rw [hsame, List.drop_eq_nil_iff]
        exact List.length_take_le _ _

theorem createPending_untouched {mxc : List UInt8} {base : Vector UInt8 MediaPool.nonceBaseLen}
    {fault : Option Nat} {w : PoolWriter}
    (h : pool.createPending mxc base pending fault = (some w, pending')) :
    Untouched content w pending'.bytes := by
  cases fault with
  | some written => cases h
  | none =>
    cases h
    refine ⟨.inl rfl, ?_⟩
    rw [List.drop_eq_nil_iff, MediaPool.length_encodeHeader]
    exact (Nat.zero_add _).symm.le.trans (MediaPool.headerLen_le_segmentOffset _ 0)

/-- The pool file is taken up again or made anew, whatever its size is said to be. -/
theorem resumeOrCreate_sound {file : MediaFile} {course : OpenCourse} {writer : Option PoolWriter}
    (hlog : LogSound pool content pending.sealed) (hrest : AtRest pool content pending.bytes)
    (h : resumeOrCreate pool file course pending = (writer, pending')) :
    LogSound pool content pending'.sealed ∧ AtRest pool content pending'.bytes ∧
      ∀ w, writer = some w →
        WriterSound pool content w pending'.bytes ∧ Untouched content w pending'.bytes := by
  have hcreate : ∀ {from_ pending' : Disk} {writer : Option PoolWriter},
      LogSound pool content from_.sealed →
      pool.createPending file.mxc course.pendingBase from_ course.pendingFault =
        (writer, pending') →
      LogSound pool content pending'.sealed ∧ AtRest pool content pending'.bytes ∧
        ∀ w, writer = some w →
          WriterSound pool content w pending'.bytes ∧ Untouched content w pending'.bytes := by
    intro from_ pending' writer hlog hcreated
    obtain ⟨hsealed, hrest, hwriter⟩ := @MediaPool.createPending_spec pool content file.mxc
      course.pendingBase from_ course.pendingFault
    rw [hcreated] at hsealed hrest hwriter
    dsimp only at hsealed
    refine ⟨hsealed ▸ hlog, hrest, fun w hw => ⟨hwriter w hw, ?_⟩⟩
    exact createPending_untouched (hw ▸ hcreated)
  rw [resumeOrCreate] at h
  cases hresume : pool.resumePending file.mxc pending with
  | error e =>
    rw [hresume] at h
    exact hcreate hlog h
  | ok resumed =>
    obtain ⟨w, disk⟩ := resumed
    obtain ⟨hsound, hsealed⟩ := MediaPool.resumePending_spec hrest hresume
    rw [hresume] at h
    dsimp only at h
    split_ifs at h
    · cases h
      refine ⟨hsealed ▸ hlog, hsound.atRest, ?_⟩
      rintro _ ⟨⟩
      exact ⟨hsound, resumePending_untouched hrest hresume⟩
    · exact hcreate (hsealed ▸ hlog) h

section Ends

variable {w : PoolWriter} {bytes : List UInt8}

/-- A beginning of the content. -/
def beginning (content : Content) (n : Nat) : Content where
  bytes := content.bytes.take n
  length_lt := Nat.lt_of_le_of_lt (List.length_take_le' n content.bytes) content.length_lt

theorem piece_take {size segments index : Nat} (xs : List UInt8) (h : index < segments) :
    piece size index (xs.take (segments * size)) = piece size index xs := by
  have hmul := Nat.mul_le_mul_right size (Nat.succ_le_of_lt h)
  rw [Nat.succ_mul] at hmul
  rw [piece, piece, List.drop_take, List.take_take, Nat.min_eq_left (by omega)]

/-- Whole segments without anything behind them are a finished file of a beginning. -/
theorem Untouched.complete (h : Untouched content w bytes)
    (hsound : WriterSound pool content w bytes) (hempty : w.buffer = []) (hsome : w.plainLen ≠ 0) :
    Complete pool (beginning content w.plainLen) w.header w.segmentsWritten bytes := by
  have hle := hsound.plainLen_le
  have hsealed := hsound.sealed_le
  have hwhole : w.plainLen = w.segmentsWritten * segmentSize := by
    have hnil := hsound.buffer_eq
    rw [hempty, eq_comm, List.drop_eq_nil_iff, List.length_take, Nat.min_eq_left hle] at hnil
    exact Nat.le_antisymm hnil hsealed
  have hpos : 0 < w.segmentsWritten := by
    by_contra hzero
    rw [Nat.eq_zero_of_not_pos hzero, Nat.zero_mul] at hwhole
    exact hsome hwhole
  have hlength : (beginning content w.plainLen).bytes.length = w.segmentsWritten * segmentSize := by
    rw [beginning, List.length_take, Nat.min_eq_left hle, hwhole]
  refine ⟨⟨hsound.written.header_eq, hsound.written.size_eq, hsound.written.offset_le, ?_,
    .inl h.tail⟩, hpos, ?_, hlength.le⟩
  · intro index hindex
    rw [hsound.written.records index hindex, MediaPool.sealedRecord, MediaPool.sealedRecord,
      beginning, hwhole, piece_take _ hindex]
  · rw [MediaPool.UsedIndex, hlength]
    exact Nat.mul_lt_mul_of_pos_right (Nat.sub_lt hpos Nat.one_pos) (by decide)

/-- The writer is finished where the content ends, or where it was opened. -/
theorem finish_written {disk disk' : Disk} {fault : Option PoolWriter.FinishFault}
    {result : Except SdkError Finished} (hsound : WriterSound pool content w disk.bytes)
    (hlog : LogSound pool content disk.sealed)
    (hend : w.plainLen = content.bytes.length ∨ Untouched content w disk.bytes)
    (h : w.finish pool disk fault = (result, disk')) :
    LogSound pool content disk'.sealed ∧ AtRest pool content disk'.bytes ∧
      ∀ done, result = .ok done → ∃ n header,
        done.hashHex = Bytes.toHex (pool.blake3 (beginning content n).bytes) ∧
        Complete pool (beginning content n) header done.segments disk'.bytes := by
  by_cases hall : w.plainLen = content.bytes.length
  · obtain ⟨_, _, hfinish, hlog', hrest, hdone, _⟩ := MediaPool.finish_spec hsound hlog hall fault
    rw [h] at hfinish
    cases hfinish
    refine ⟨hlog', hrest, fun done hok => ?_⟩
    obtain ⟨hhash, _, _, _, header, hcomplete⟩ := hdone done hok
    have hsame : beginning content content.bytes.length = content := by
      obtain ⟨bytes, hlength⟩ := content
      rw [beginning]
      congr
      exact List.take_length
    refine ⟨content.bytes.length, header, ?_⟩
    rw [hsame]
    exact ⟨hhash, hcomplete⟩
  · have huntouched := hend.resolve_left hall
    have hempty := huntouched.buffer.resolve_right hall
    rw [PoolWriter.finish, PoolWriter.sealBuffer, if_pos hempty] at h
    split_ifs at h with hzero hsync
    · cases h
      exact ⟨hlog, hsound.atRest, fun _ hok => by cases hok⟩
    · cases h
      exact ⟨hlog, hsound.atRest, fun _ hok => by cases hok⟩
    · cases h
      refine ⟨hlog, hsound.atRest, ?_⟩
      rintro _ ⟨⟩
      refine ⟨w.plainLen, w.header, ?_, huntouched.complete hsound hempty hzero⟩
      rw [hsound.absorbed_eq]
      rfl

theorem Named.keep {finished : List Char → Option (List UInt8)} (h : Named pool finished)
    {other : Content} {header : MediaPool.Header} {segments : Nat} {name : List Char}
    (hname : name = Bytes.toHex (pool.blake3 other.bytes))
    (hcomplete : Complete pool other header segments bytes) :
    Named pool (Function.update finished name (some bytes)) := by
  intro hash found hfound
  by_cases hsame : Bytes.toHex hash = name
  · rw [hsame, Function.update_self] at hfound
    cases hfound
    rw [hname] at hsame
    exact ⟨other, header, segments, hcomplete, (Bytes.toHex_injective hsame).symm⟩
  · rw [Function.update_of_ne hsame] at hfound
    exact h hash found hfound

theorem Named.remove {finished : List Char → Option (List UInt8)} (h : Named pool finished)
    (name : List Char) : Named pool (Function.update finished name none) := by
  intro hash found hfound
  by_cases hsame : Bytes.toHex hash = name
  · rw [hsame, Function.update_self] at hfound
    cases hfound
  · rw [Function.update_of_ne hsame] at hfound
    exact h hash found hfound

theorem Named.adopt {disk : MediaDisk} {other : Content} {header : MediaPool.Header}
    {segments : Nat} {name : List Char} (h : Named pool disk.finished)
    (hname : name = Bytes.toHex (pool.blake3 other.bytes))
    (hcomplete : Complete pool other header segments disk.pending.bytes) :
    Named pool (adopt pool name disk).finished := by
  rw [MediaDownload.adopt]
  dsimp only
  split_ifs with hthere
  · exact h
  · have hkept := h.keep hname hcomplete
    intro hash found hfound
    refine hkept hash found ?_
    rw [Function.update_apply]
    exact hfound

end Ends

section Opened

variable {file : MediaFile} {count : Nat} {disk : MediaDisk} {d : MediaDownload}

/-- The two files are the content's, whatever chunks they are opened for next. -/
structure FilesSound (pool : Pool) (file : MediaFile) (content : Content) (count : Nat)
    (disk : MediaDisk) (d : MediaDownload) : Prop where
  download : DownloadSound pool file content count { disk := disk, download := some d }
  seeks : SeeksSound pool file.mxc content disk

/-- The files on disk, that nobody has open. -/
structure RestSound (pool : Pool) (mxc : List UInt8) (content : Content) (disk : MediaDisk) :
    Prop where
  pending : PendingSound pool content disk.pending none
  seeks : SeeksSound pool mxc content disk

theorem FilesSound.rest (h : FilesSound pool file content count disk d) :
    RestSound pool file.mxc content disk := ⟨h.download.pending.closed, h.seeks⟩

/-- Only the finished files are others. -/
theorem RestSound.withFinished {mxc : List UInt8} (h : RestSound pool mxc content disk)
    (finished : List Char → Option (List UInt8)) :
    RestSound pool mxc content { disk with finished := finished } :=
  ⟨h.pending, h.seeks.of_eq rfl rfl⟩

theorem RestSound.discard {mxc : List UInt8} (h : RestSound pool mxc content disk) :
    RestSound pool mxc content (discard disk) := ⟨h.pending.emptied, seeksSound_empty mxc rfl⟩

theorem restSound_start (mxc : List UInt8) (finished : List Char → Option (List UInt8)) :
    RestSound pool mxc content
      { pending := ⟨[], []⟩, seek := ⟨[], []⟩, seekExists := false, finished := finished } :=
  ⟨(@downloadSound_start pool ⟨mxc, 0, 0, none⟩ content 0 finished).pending,
    seeksSound_empty mxc rfl⟩

/-- Under any manifest what is opened is of the content, and nothing has been written to it. -/
theorem RestSound.opening (h : RestSound pool file.mxc content disk) (course : OpenCourse)
    {result : Except SdkError MediaDownload} {disk' : MediaDisk}
    (hopen : openDownload pool file course disk = (result, disk')) :
    RestSound pool file.mxc content disk' ∧ disk'.finished = disk.finished ∧
      ∀ d, result = .ok d → ∃ count,
        WbfMatrixClient.chunkCount file.fileSize file.chunkSize.toNat = some count ∧ 0 < count ∧
        FilesSound pool file content count disk' d ∧
        Untouched content d.writer disk'.pending.bytes := by
  have hsame := openDownload_finished pool file course disk
  rw [hopen] at hsame
  refine and_left_comm.mp ⟨hsame, ?_⟩
  rw [openDownload] at hopen
  cases hcount : (WbfMatrixClient.chunkCount file.fileSize file.chunkSize.toNat).filter
      fun count => decide (0 < count) with
  | none =>
    rw [hcount] at hopen
    cases hopen
    exact ⟨h, fun _ hok => by cases hok⟩
  | some count =>
    obtain ⟨hsize, hpos⟩ := Option.filter_eq_some_iff.mp hcount
    rw [hcount] at hopen
    dsimp only at hopen
    cases hwriter : resumeOrCreate pool file course disk.pending with
    | mk writer pending =>
      obtain ⟨hlog, hrest, hsound⟩ := resumeOrCreate_sound h.pending.log h.pending.rest hwriter
      have hpending : PendingSound pool content pending none :=
        ⟨hlog, hrest, fun _ hd => by cases hd⟩
      rw [hwriter] at hopen
      cases writer with
      | none =>
        cases hopen
        exact ⟨⟨hpending, h.seeks.of_eq rfl rfl⟩, fun _ hok => by cases hok⟩
      | some writer =>
        obtain ⟨hwritten, huntouched⟩ := hsound writer rfl
        have hfiles : ∀ {seek : Option SeekStore} {disk' : MediaDisk},
            disk'.pending = pending →
            SeekSound pool file content (UInt32.ofNat count) disk' seek →
            SeeksSound pool file.mxc content disk' →
            FilesSound pool file content count disk'
              { file := file, writer := writer, seek := seek,
                chunkCount := UInt32.ofNat count } := by
          intro seek disk' hsame hseek hseeks
          refine ⟨⟨?_, hseek, ?_⟩, hseeks⟩
          · rw [hsame]
            refine ⟨hlog, hrest, ?_⟩
            rintro _ ⟨⟩
            exact hwritten
          · rintro _ ⟨⟩
            exact ⟨rfl, rfl⟩
        dsimp only at hopen
        split_ifs at hopen with hexists
        · cases hseek : SeekStore.openStore pool file.mxc file.chunkSize
              (UInt32.ofNat count) course.seekBase disk.seek course.seekFault with
          | mk result seek' =>
            have hthere : disk.seekExists = false → seek'.bytes = [] := by
              rw [hexists]
              exact fun hno => by cases hno
            have hsound := (h.seeks file rfl (UInt32.ofNat count)).opening disk.seekExists
              course.seekBase course.seekFault hseek hthere
            have hseeks := h.seeks.opening disk.seekExists course.seekBase
              course.seekFault hseek hthere
            rw [hseek] at hopen
            cases hopen
            have hall := @hfiles _ { disk with pending := pending, seek := seek' } rfl
              ⟨hsound.sound, hsound.missing⟩ (hseeks.of_eq rfl rfl)
            refine ⟨hall.rest, ?_⟩
            rintro _ ⟨⟩
            exact ⟨count, hsize, of_decide_eq_true hpos, hall, huntouched⟩
        · cases hopen
          have hclosed := h.seeks file rfl (UInt32.ofNat count)
          have hall := @hfiles _ { disk with pending := pending } rfl
            ⟨hclosed.sound, hclosed.missing⟩ (h.seeks.of_eq rfl rfl)
          refine ⟨hall.rest, ?_⟩
          rintro _ ⟨⟩
          exact ⟨count, hsize, of_decide_eq_true hpos, hall, huntouched⟩

/-- What is read stands where the chunk begins, whatever the manifest says. -/
theorem FilesSound.read (h : FilesSound pool file content count disk d)
    (hrejects : pool.aead.RejectsTorn) {index : Nat}
    {result : Except SdkError (Option (List UInt8))} {d' : MediaDownload}
    (hread : d.readLocalChunk pool index disk = (result, d')) :
    FilesSound pool file content count disk d' ∧ d'.writer = d.writer ∧
      ∀ plain, result = .ok (some plain) →
        plain <+: content.bytes.drop (index * file.chunkSize.toNat) := by
  obtain ⟨hd, _⟩ := h.download.file_eq d rfl
  rw [readLocalChunk] at hread
  cases hrange : d.chunkRange index with
  | error e =>
    rw [hrange] at hread
    cases hread
    exact ⟨h, rfl, fun _ hok => by cases hok⟩
  | ok range =>
    obtain ⟨start, stop⟩ := range
    have hstart : start = index * file.chunkSize.toNat ∧ start ≤ stop := by
      rw [chunkRange, hd] at hrange
      split at hrange
      · cases hrange
      · cases hrange
        exact ⟨rfl, Nat.le_add_right _ _⟩
    rw [hrange] at hread
    dsimp only at hread
    split_ifs at hread with hsealed
    · rw [readSealed_spec (h.download.pending.writer d rfl) hstart.2 hsealed] at hread
      cases hread
      refine ⟨h, rfl, ?_⟩
      rintro _ ⟨⟩
      rw [hstart.1]
      exact List.take_prefix _ _
    · cases hseek : d.seek with
      | none =>
        rw [hseek] at hread
        cases hread
        exact ⟨h, rfl, fun _ hok => by cases hok⟩
      | some seek =>
        have hopen : SeekSound pool file content (UInt32.ofNat count) disk (some seek) := by
          rw [← hseek]
          exact h.download.seek
        obtain ⟨hsound, hexact⟩ := hopen.read hrejects index
        rw [hseek] at hread
        cases hread
        refine ⟨⟨h.download.withSeek hsound rfl, h.seeks⟩, rfl, ?_⟩
        intro found hfound
        rw [hexact found (Except.ok.inj hfound)]
        exact List.take_prefix _ _

theorem FilesSound.land (hfile : Describes file content count)
    (h : FilesSound pool file content count disk d) (index : Nat) (faults : List (Option Nat))
    {error : Option SdkError} {d' : MediaDownload} {pending' : Disk}
    (hland : d.landChunk pool index (chunk file content index) faults disk.pending = (error, d',
      pending')) : FilesSound pool file content count { disk with pending := pending' } d' := by
  obtain ⟨_, _, _, heq, hsound⟩ := h.download.land hfile index faults
  rw [hland] at heq
  cases heq
  exact ⟨hsound, h.seeks.of_eq rfl rfl⟩

theorem FilesSound.advance (hfile : Describes file content count) (hrejects : pool.aead.RejectsTorn)
    (h : FilesSound pool file content count disk d) (faults : List (Option Nat))
    {result : Except SdkError Bool} {d' : MediaDownload} {disk' : MediaDisk}
    (hadvance : d.advanceFromSeekStore pool faults disk = (result, d', disk')) :
    FilesSound pool file content count disk' d' := by
  obtain ⟨_, _, _, heq, hsound, _⟩ := h.download.advance hfile hrejects faults
  have hsame : (d.advanceFromSeekStore pool faults disk).2.2.seek = disk.seek ∧
      (d.advanceFromSeekStore pool faults disk).2.2.seekExists = disk.seekExists := by
    rw [advanceFromSeekStore]
    repeat' split
    all_goals exact ⟨rfl, rfl⟩
  rw [hadvance] at heq hsame
  cases heq
  exact ⟨hsound, h.seeks.of_eq hsame.1 hsame.2⟩

theorem FilesSound.store (h : FilesSound pool file content count disk d) (index : Nat)
    (seekBase : Vector UInt8 MediaPool.nonceBaseLen) (openFault appendFault : Option Nat)
    {error : Option SdkError} {d' : MediaDownload} {disk' : MediaDisk}
    (hstore : d.storeSeekChunk pool index (chunk file content index) seekBase openFault appendFault
      disk = (error, d', disk')) : FilesSound pool file content count disk' d' := by
  obtain ⟨_, _, _, heq, hsound, _⟩ := h.download.store index seekBase openFault appendFault
  rw [hstore] at heq
  cases heq
  refine ⟨hsound, ?_⟩
  cases hseek : d'.seek with
  | some store =>
    have hopen := hsound.seek
    dsimp only [Option.bind_some] at hopen
    rw [hseek] at hopen
    exact hopen.seeks
  | none =>
    -- no seek file is open afterwards: it could not be opened
    obtain ⟨hd, hcount⟩ := h.download.file_eq d rfl
    rw [storeSeekChunk] at hstore
    cases hopened : d.seek with
    | some store =>
      rw [hopened] at hstore
      cases hstore
      cases hseek
    | none =>
      rw [hopened, hd] at hstore
      dsimp only at hstore
      cases hone : SeekStore.openStore pool file.mxc file.chunkSize d.chunkCount seekBase
        disk.seek openFault with
      | mk result bytes =>
        rw [hone] at hstore
        cases result with
        | ok store =>
          cases hstore
          cases hseek
        | error e =>
          cases hstore
          refine h.seeks.opening _ seekBase openFault hone ?_
          exact hsound.seek.missing

/-- The file is moved into the pool where it ends, or is not finished. -/
theorem FilesSound.finish (h : FilesSound pool file content count disk d)
    (hend : d.writer.plainLen = file.fileSize → d.writer.plainLen = content.bytes.length ∨ Untouched
      content d.writer disk.pending.bytes) {finished : List Char → Option (List UInt8)}
    (hnamed : Named pool finished) (course : FinishCourse)
    {result : Except SdkError (Finished × Verification)} {disk' : MediaDisk}
    (hfinish : d.finish pool course { disk with finished := finished } = (result, disk')) :
    RestSound pool file.mxc content disk' ∧ Named pool disk'.finished ∧
      ∀ done verification, result = .ok (done, verification) →
        ∃ n, done.hashHex = Bytes.toHex (pool.blake3 (content.bytes.take n)) := by
  obtain ⟨hd, _⟩ := h.download.file_eq d rfl
  have hrest := h.rest.withFinished finished
  rw [MediaDownload.finish, hd] at hfinish
  split_ifs at hfinish with hshort
  · cases hfinish
    exact ⟨hrest.discard, hnamed, fun _ _ hok => by cases hok⟩
  rw [not_not] at hshort
  dsimp only at hfinish
  cases hwriter : d.writer.finish pool disk.pending course.writing with
  | mk written pending =>
    obtain ⟨hlog, hatRest, hdone⟩ := finish_written (h.download.pending.writer d rfl)
      h.download.pending.log (hend hshort) hwriter
    have hpending : PendingSound pool content pending none :=
      ⟨hlog, hatRest, fun _ hd => by cases hd⟩
    rw [hwriter] at hfinish
    cases written with
    | error e =>
      cases hfinish
      exact ⟨⟨hpending, hrest.seeks.of_eq rfl rfl⟩, hnamed, fun _ _ hok => by cases hok⟩
    | ok done =>
      obtain ⟨n, header, hhash, hcomplete⟩ := hdone done rfl
      dsimp only at hfinish
      cases hadopting : course.adopting with
      | some e =>
        rw [hadopting] at hfinish
        cases hfinish
        exact ⟨⟨hpending, hrest.seeks.of_eq rfl rfl⟩, hnamed, fun _ _ hok => by cases hok⟩
      | none =>
        have hadopted : Named pool (MediaDownload.adopt pool done.hashHex
            { disk with pending := pending, finished := finished }).finished :=
          hnamed.adopt hhash hcomplete
        rw [hadopting] at hfinish
        dsimp only at hfinish
        cases hdiscarding : course.discarding with
        | some e =>
          rw [hdiscarding] at hfinish
          cases hfinish
          exact ⟨⟨hpending.emptied, hrest.seeks.of_eq rfl rfl⟩, hadopted,
            fun _ _ hok => by cases hok⟩
        | none =>
          rw [hdiscarding] at hfinish
          cases hfinish
          refine ⟨⟨hpending.emptied, seeksSound_empty _ rfl⟩, hadopted, ?_⟩
          rintro _ _ ⟨⟩
          exact ⟨n, hhash⟩

end Opened

end Files

end MediaDownload
end WbfMatrixClient
