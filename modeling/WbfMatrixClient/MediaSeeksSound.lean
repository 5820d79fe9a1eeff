import WbfMatrixClient.MediaDownloadFiles
import WbfMatrixClient.MediaSeeks

/-!
# What a seek is answered with

A server that answers with what was uploaded, and a cipher that opens nothing else, are all that is
relied upon. The manifests may say what they like: nothing that was asked for is written or handed
out before a description has confirmed the size of the file and of its chunks, and what was written
before that is not told apart by chunks. So a piece stands where it says, whichever of the states
the file was in when the read came and when it was answered.
-/

namespace WbfMatrixClient
namespace MediaSeeks

open Chunking Function
open DownloadQueue (Retries)
open MediaDownload (FilesSound RestSound Untouched Named Describes)
open MediaPool (Pool Content Complete PoolReader Finished)

/-- What was uploaded under the media id. -/
structure Original where
  file : FileCipher
  content : Content
  chunkSize_lt : file.chunkSize < 2 ^ 32

namespace Original

variable (o : Original)

def size : Nat :=
  o.content.bytes.length

/-- What opens as a description is the one of the upload. One that was made before the size was
known has none; then the server has it. -/
def InfoGenuine (packages : Packages) (ack : Ack) : Prop :=
  ∀ (other : FileCipher) (info : InfoAck) (json : List UInt8) (description : ChunkedBlock),
    ack.info = .ok info →
    openEitherDescription packages other ack.data = .ok json →
    ChunkedBlock.fromDescriptionJson packages json = .ok description →
    description.cipher = o.file.cipher ∧ description.chunkSize = o.file.chunkSize ∧
      (description.fileSize = some o.size ∨ info.fileSize = some o.size)

/-- What opens as a chunk is this chunk of the upload. -/
def ChunkGenuine (packages : Packages) (ack : Ack) (index : Nat) : Prop :=
  ∀ (other : FileCipher) (plain : List UInt8),
    other.cipher = o.file.cipher →
    other.openWithIndex packages index chunkAad ack.data = some plain →
    plain = piece o.file.chunkSize index o.content.bytes

/-- The replies are those of a server that has the file. What others put into the pool is finished
and has the name of its hash. -/
def Genuine (pool : Pool) (packages : Packages) : Action → Prop
  | .handler _ (.reply .info (.ok ack) _) => o.InfoGenuine packages ack
  | .handler _ (.reply (.chunk index) (.ok ack) _) => o.ChunkGenuine packages ack index
  | .shelf (.keepFile name bytes) =>
      ∃ other header segments, Complete pool other header segments bytes ∧
        name = Bytes.toHex (pool.blake3 other.bytes)
  | _ => True

/-- The description has confirmed what the manifest says. -/
structure Verified (manifest : Manifest) (target : VerifiedTarget) : Prop where
  cipher : target.file.cipher = o.file.cipher
  chunkSize : manifest.block.chunkSize = o.file.chunkSize
  fileSize : manifest.fileSize = o.size

/-- A piece stands where it says. -/
def Holds (found : SeekPiece) : Prop :=
  found.plain <+: o.content.bytes.drop found.start

end Original

section Checks

variable {o : Original} {packages : Packages} {manifest : Manifest}

/-- A size that both name is the same. -/
theorem eq_of_bothOrAbsent {a b : Nat} (h : ChunkedBlock.bothOrAbsent (some a) (some b) = true) :
    a = b := by
  rw [ChunkedBlock.bothOrAbsent, decide_eq_true_eq] at h
  exact h

variable {ack : Ack} {target : VerifiedTarget}

theorem verifyInfo_spec {info : InfoAck} (hgenuine : o.InfoGenuine packages ack)
    (hinfo : ack.info = .ok info) (h : verifyInfo packages manifest info ack.data = .ok target) :
    o.Verified manifest target := by
  rw [verifyInfo, Manifest.fileCipher] at h
  cases hfile : FileCipher.fromEventBlock manifest.block with
  | error e =>
    rw [hfile] at h
    cases h
  | ok file =>
    obtain ⟨hblock, _, hcipher, _⟩ := FileCipher.params_of_fromEventBlock hfile
    obtain ⟨size, hsize⟩ : ∃ size, manifest.block.fileSize = some size := by
      rw [ChunkedBlock.checkAsEventBlock] at hblock
      split at hblock
      · cases hblock
      · split_ifs at hblock with _ hnone
        exact Option.ne_none_iff_exists'.mp (by simpa using hnone)
    rw [hfile] at h
    dsimp only at h
    split at h
    · cases h
    split at h
    · cases h
    rename_i hagainst
    split at h
    · cases h
    rename_i hdescription
    cases h
    -- the description that was opened, and how it compares
    rw [checkDescription] at hdescription
    split_ifs at hdescription
    split at hdescription
    · cases hdescription
    rename_i json hjson
    split at hdescription
    · cases hdescription
    rename_i description hparsed
    split_ifs at hdescription with hsame
    obtain ⟨hcipher', hchunk, hlength⟩ := hgenuine file info json description hinfo hjson hparsed
    rw [ChunkedBlock.isConsistentWithDescription, decide_eq_true_eq] at hsame
    obtain ⟨_, hsameCipher, _, hsameSize, hsameLength, _⟩ := hsame
    refine ⟨?_, hsameSize.trans hchunk, ?_⟩
    · rw [← hcipher', ← hsameCipher, hcipher]
    · rw [Manifest.fileSize, hsize, Option.getD_some]
      rcases hlength with hlength | hlength
      · rw [hsize, hlength] at hsameLength
        exact eq_of_bothOrAbsent hsameLength
      · rw [checkInfoAgainstBlock, hsize, hlength] at hagainst
        split at hagainst
        · split_ifs at hagainst with _ _ hdiffers
          exact (eq_of_bothOrAbsent (by simpa using hdiffers)).symm
        · cases hagainst

theorem openChunkData_spec {index : Nat} {plain : List UInt8}
    (hgenuine : o.ChunkGenuine packages ack index) (hcipher : target.file.cipher = o.file.cipher)
    (h : openChunkData packages manifest target index ack.data = .ok plain) :
    plain = piece o.file.chunkSize index o.content.bytes := by
  rw [openChunkData] at h
  split at h
  · cases h
  split at h
  · cases h
  rename_i hopen
  cases h
  rw [FileCipher.openChunk] at hopen
  split_ifs at hopen
  split at hopen
  · cases hopen
  rename_i hplain
  split_ifs at hopen
  cases hopen
  exact hgenuine target.file plain hcipher hplain

theorem chunkReply_spec {index : Nat} {data : List UInt8} (h : ack.chunkReply index = .ok data) :
    data = ack.data := by
  rw [Ack.chunkReply] at h
  cases hread : ack.read with
  | error e =>
    rw [hread] at h
    cases h
  | ok read =>
    rw [hread, Except.bind, readReply] at h
    split_ifs at h
    exact (Except.ok.inj h).symm

/-- Under a manifest that was confirmed, the file is cut as it was uploaded. -/
theorem describes {mxc : String} {count : Nat} (h : o.Verified manifest target)
    (hcount : chunkCount (OpenMedia.mediaFile mxc manifest).fileSize (OpenMedia.mediaFile mxc
      manifest).chunkSize.toNat = some count) (hpos : 0 < count) :
    Describes (OpenMedia.mediaFile mxc manifest) o.content count := ⟨h.fileSize, hcount, hpos⟩

theorem chunk_eq {mxc : String} (h : o.Verified manifest target) (index : Nat) :
    MediaDownload.chunk (OpenMedia.mediaFile mxc manifest) o.content index =
      piece o.file.chunkSize index o.content.bytes := by
  have hsize : (OpenMedia.mediaFile mxc manifest).chunkSize.toNat = o.file.chunkSize := by
    rw [OpenMedia.mediaFile, h.chunkSize, UInt32.toNat_ofNat']
    exact Nat.mod_eq_of_lt o.chunkSize_lt
  rw [MediaDownload.chunk, hsize]

end Checks

section Invariants

variable (o : Original) (pool : Pool) (mxc : String)

/-- An open file. Until a description has confirmed it, nothing is written to it. -/
structure OpenMedia.Sound (opened : OpenMedia) : Prop where
  files : ∃ count,
    chunkCount (mediaFile mxc opened.manifest).fileSize
      (mediaFile mxc opened.manifest).chunkSize.toNat = some count ∧ 0 < count ∧
    FilesSound pool (mediaFile mxc opened.manifest) o.content count opened.disk opened.download
  verified : ∀ target, opened.target = some target → o.Verified opened.manifest target
  untouched : opened.target = none →
    Untouched o.content opened.download.writer opened.disk.pending.bytes

structure Handler.Sound (h : Handler) : Prop where
  opened : ∀ opened, h.opened = some opened → opened.Sound o pool mxc
  seekOnly : ∀ seek target, h.seekOnly = some seek → seek.target = some target →
    o.Verified seek.manifest target

/-- The file a row names is one of a beginning of the content. -/
def RowSound (row : Option MediaRow) : Prop :=
  ∀ entry name, row = some entry → entry.poolFile = some name →
    ∃ n, name.toList = Bytes.toHex (pool.blake3 (o.content.bytes.take n))

structure Shelf.Sound (shelf : Shelf) : Prop where
  rest : RestSound pool mxc.toUTF8.toList o.content shelf.disk
  named : Named pool shelf.disk.finished
  row : RowSound o pool shelf.row

/-- Every piece that is handed out stands where it says. -/
def AnswersSound (answers : List Answer) : Prop :=
  ∀ read found, (read, .ok found) ∈ answers → o.Holds found

structure Turn.Sound (turn : Turn) : Prop where
  handler : turn.handler.Sound o pool mxc
  shelf : turn.shelf.Sound o pool mxc
  answers : AnswersSound o turn.answers

structure State.Sound (s : State) : Prop where
  handlers : ∀ id, (s.handlers id).Sound o pool mxc
  shelf : s.shelf.Sound o pool mxc
  answers : ∀ read found, .ok found ∈ s.answers read → o.Holds found

end Invariants

section Answers

variable {o : Original} {first rest : List Answer}

theorem answersSound_nil : AnswersSound o [] := fun _ _ hmem => by cases hmem

theorem answersSound_error (read : Nat) (e : SdkError) : AnswersSound o [(read, .error e)] := by
  intro _ found hmem
  cases List.mem_singleton.mp hmem

theorem answersSound_ok (read : Nat) {found : SeekPiece} (h : o.Holds found) :
    AnswersSound o [(read, .ok found)] := by
  intro _ _ hmem
  cases List.mem_singleton.mp hmem
  exact h

theorem AnswersSound.append (hfirst : AnswersSound o first) (hrest : AnswersSound o rest) :
    AnswersSound o (first ++ rest) :=
  fun read found hmem => (List.mem_append.mp hmem).elim (hfirst read found) (hrest read found)

theorem answersSound_answerSeeksOnly (waiters : List Waiting) (e : SdkError) :
    AnswersSound o (Handler.answerSeeksOnly waiters e) := by
  intro read found hmem
  obtain ⟨waiting, _, hanswer⟩ := List.mem_filterMap.mp hmem
  cases waiting <;> cases hanswer

theorem answersSound_flatMap (inFlight : List InFlight) (e : SdkError) :
    AnswersSound o (inFlight.flatMap fun entry => Handler.answerSeeksOnly entry.waiters e) := by
  intro read found hmem
  obtain ⟨entry, _, hanswer⟩ := List.mem_flatMap.mp hmem
  exact answersSound_answerSeeksOnly entry.waiters e read found hanswer

theorem answersSound_answerSeeks (waiters : List Waiting) {found : SeekPiece} (h : o.Holds found) :
    AnswersSound o (Handler.answerSeeks waiters found) := by
  intro read other hmem
  obtain ⟨waiting, _, hanswer⟩ := List.mem_filterMap.mp hmem
  cases waiting with
  | main => cases hanswer
  | seek index other =>
    cases hanswer
    exact h

end Answers

section Handlers

variable {o : Original} {pool : Pool} {mxc : String} {h other : Handler} {shelf : Shelf}

theorem Handler.Sound.congr (hsound : h.Sound o pool mxc) (hopened : other.opened = h.opened)
    (hseek : other.seekOnly = h.seekOnly) : other.Sound o pool mxc := by
  obtain ⟨hfiles, hverified⟩ := hsound
  rw [← hopened] at hfiles
  rw [← hseek] at hverified
  exact ⟨hfiles, hverified⟩

@[simp] theorem Handler.want_opened (h : Handler) (request : Request) (waiting : Waiting) :
    (h.want request waiting).opened = h.opened := by
  rw [Handler.want]
  split_ifs <;> rfl

@[simp] theorem Handler.want_seekOnly (h : Handler) (request : Request) (waiting : Waiting) :
    (h.want request waiting).seekOnly = h.seekOnly := by
  rw [Handler.want]
  split_ifs <;> rfl

theorem Handler.Sound.want (hsound : h.Sound o pool mxc) (request : Request) (waiting : Waiting) :
    (h.want request waiting).Sound o pool mxc :=
  hsound.congr (h.want_opened request waiting) (h.want_seekOnly request waiting)

theorem Handler.Sound.resend (hsound : h.Sound o pool mxc) (request : Request)
    (waiters : List Waiting) (retries : Retries) :
    (h.resend request waiters retries).Sound o pool mxc := hsound.congr rfl rfl

/-- The open file has become another one. -/
theorem Handler.Sound.withOpened (hsound : h.Sound o pool mxc) {opened : OpenMedia}
    (hopened : opened.Sound o pool mxc) :
    Handler.Sound o pool mxc { h with opened := some opened } := by
  refine ⟨?_, hsound.seekOnly⟩
  rintro _ ⟨⟩
  exact hopened

theorem handlerSound_start : Handler.start.Sound o pool mxc where
  opened := fun _ hopened => by cases hopened
  seekOnly := fun _ _ hseek => by cases hseek

section Reads

variable (hrejects : pool.aead.RejectsTorn)
include hrejects

/-- What is there of the open file stands where the chunk begins, under any manifest. -/
theorem OpenMedia.Sound.read {opened : OpenMedia} (hsound : opened.Sound o pool mxc) {index : Nat}
    {result : Except SdkError (Option (List UInt8))} {download : MediaDownload}
    (hread : opened.download.readLocalChunk pool index opened.disk = (result, download)) :
    OpenMedia.Sound o pool mxc { opened with download := download } ∧
      ∀ plain, result = .ok (some plain) →
        o.Holds { start := chunkStart index opened.chunkSize, plain := plain } := by
  obtain ⟨⟨count, hcount, hpos, hfiles⟩, hverified, huntouched⟩ := hsound
  obtain ⟨hfile, _⟩ := hfiles.download.file_eq _ rfl
  obtain ⟨hfiles', hwriter, hplain⟩ := hfiles.read hrejects hread
  refine ⟨⟨⟨count, hcount, hpos, hfiles'⟩, hverified, fun hnone => ?_⟩, fun plain hok => ?_⟩
  · rw [hwriter]
    exact huntouched hnone
  · rw [Original.Holds, chunkStart, OpenMedia.chunkSize, hfile]
    exact hplain plain hok

theorem Handler.Sound.requestSeekChunk (hsound : h.Sound o pool mxc) (index read : Nat) :
    (h.requestSeekChunk pool index read).1.Sound o pool mxc ∧
      AnswersSound o (h.requestSeekChunk pool index read).2 := by
  rw [Handler.requestSeekChunk]
  cases hopened : h.opened with
  | some opened =>
    have hfile := hsound.opened opened hopened
    dsimp only
    cases hread : opened.download.readLocalChunk pool index opened.disk with
    | mk result download =>
      obtain ⟨hafter, hplain⟩ := hfile.read hrejects hread
      have hnext := hsound.withOpened hafter
      cases result with
      | error e => exact ⟨hnext, answersSound_error read e⟩
      | ok found =>
        cases found with
        | some plain => exact ⟨hnext, answersSound_ok read (hplain plain rfl)⟩
        | none => exact ⟨hnext.want _ _, answersSound_nil⟩
  | none =>
    cases hseek : h.seekOnly with
    | some seek => exact ⟨hsound.want _ _, answersSound_nil⟩
    | none => exact ⟨hsound, answersSound_error read downloaderGone⟩

theorem Handler.Sound.requestSeeks (waiters : List Waiting) (hsound : h.Sound o pool mxc) :
    (h.requestSeeks pool waiters).1.Sound o pool mxc ∧
      AnswersSound o (h.requestSeeks pool waiters).2 := by
  induction waiters generalizing h with
  | nil => exact ⟨hsound, answersSound_nil⟩
  | cons waiting waiters ih =>
    cases waiting with
    | main => exact ih hsound
    | seek index read =>
      obtain ⟨hfirst, hanswers⟩ := hsound.requestSeekChunk hrejects index read
      obtain ⟨hrest, hothers⟩ := ih hfirst
      exact ⟨hrest, hanswers.append hothers⟩

end Reads

section Complete

variable {finished : List Char → Option (List UInt8)} {entry : MediaRow}
  (hblake : Injective pool.blake3)
include hblake

/-- A complete row opens a file of a beginning of the content. -/
theorem openComplete_spec (hnamed : Named pool finished) (hrow : RowSound o pool (some entry))
    {reader : PoolReader} (h : openComplete pool finished entry = some reader) :
    ∃ n content header count, content.bytes = o.content.bytes.take n ∧
      MediaPool.ReaderSound pool content header count reader := by
  rw [openComplete] at h
  split_ifs at h
  obtain ⟨hopen, _⟩ := Option.filter_eq_some_iff.mp h
  obtain ⟨bytes, hfile, hread⟩ := Option.bind_eq_some_iff.mp hopen
  obtain ⟨name, hname, hbytes⟩ := Option.bind_eq_some_iff.mp hfile
  obtain ⟨n, hhex⟩ := hrow entry name rfl hname
  rw [hhex] at hbytes
  obtain ⟨content, header, count, hcomplete, hhash⟩ := hnamed _ bytes hbytes
  obtain ⟨reader', hreader, hsound, _⟩ := MediaPool.openRead_spec hcomplete
  rw [hreader] at hread
  cases hread
  exact ⟨n, content, header, count, hblake hhash, hsound⟩

theorem readCompleteChunk_spec (hnamed : Named pool finished) (hrow : RowSound o pool (some entry))
    {index : Nat} {found : SeekPiece}
    (h : readCompleteChunk pool finished entry index = .ok found) : o.Holds found := by
  rw [readCompleteChunk] at h
  split at h
  · cases h
  rename_i chunkSize fileSize _
  dsimp only at h
  split_ifs at h
  cases hopen : openComplete pool finished entry with
  | none =>
    rw [hopen] at h
    cases h
  | some reader =>
    obtain ⟨n, content, header, count, hbytes, hsound⟩ :=
      openComplete_spec hblake hnamed hrow hopen
    rw [hopen] at h
    dsimp only at h
    obtain ⟨plain, hplain, rfl⟩ : ∃ plain,
        readExact pool reader (index * chunkSize)
          (min (index * chunkSize + chunkSize) fileSize - index * chunkSize) = .ok plain ∧
        found = { start := index * chunkSize, plain := plain } := by
      cases hread : readExact pool reader (index * chunkSize)
          (min (index * chunkSize + chunkSize) fileSize - index * chunkSize) with
      | error e =>
        rw [hread] at h
        cases h
      | ok plain =>
        rw [hread] at h
        cases h
        exact ⟨plain, rfl, rfl⟩
    rw [readExact] at hplain
    split at hplain
    · cases hplain
    rename_i bytes hread
    split_ifs at hplain
    cases hplain
    obtain ⟨_, hbegins⟩ := ((MediaStream.poolReader_faithful pool content header count).readAt
      ⟨hsound, rfl⟩ (index * chunkSize) _).2 plain hread
    rw [hbytes] at hbegins
    exact hbegins.trans (List.IsPrefix.drop (List.take_prefix n o.content.bytes) _)

theorem Shelf.Sound.readComplete (hsound : shelf.Sound o pool mxc)
    (hentry : shelf.findCompleteEntry pool = some entry) {index : Nat} {found : SeekPiece}
    (h : readCompleteChunk pool shelf.disk.finished entry index = .ok found) : o.Holds found := by
  obtain ⟨hrow, _⟩ := Option.filter_eq_some_iff.mp hentry
  have hentrySound := hsound.row
  rw [hrow] at hentrySound
  exact readCompleteChunk_spec hblake hsound.named hentrySound h

/-- A read at a position, whatever state the file is in. -/
theorem Handler.Sound.processSeek (hrejects : pool.aead.RejectsTorn) (hsound : h.Sound o pool mxc)
    (hshelf : shelf.Sound o pool mxc) (read : Nat) (manifest : Manifest) (position : Nat) :
    (h.processSeek pool mxc shelf read manifest position).1.Sound o pool mxc ∧
      AnswersSound o (h.processSeek pool mxc shelf read manifest position).2 := by
  rw [Handler.processSeek]
  cases hopened : h.opened with
  | some opened =>
    dsimp only
    split
    · exact hsound.requestSeekChunk hrejects _ read
    · exact ⟨hsound, answersSound_error read _⟩
  | none =>
    dsimp only
    cases hentry : shelf.findCompleteEntry pool with
    | some entry =>
      refine ⟨hsound, fun other found hmem => ?_⟩
      have hanswer := (Prod.mk.inj (List.mem_singleton.mp hmem)).2.symm
      cases hlayout : chunkLayoutOf entry with
      | error e =>
        rw [hlayout] at hanswer
        cases hanswer
      | ok layout =>
        rw [hlayout, Except.bind] at hanswer
        cases hindex : chunkIndexAt position layout.1 mxc with
        | error e =>
          rw [hindex] at hanswer
          cases hanswer
        | ok index =>
          rw [hindex, Except.bind] at hanswer
          exact hshelf.readComplete hblake hentry hanswer
    | none =>
      -- a description that has just come was not checked yet
      have hnext : Handler.Sound o pool mxc
          { h with
            seekOnly := some (h.seekOnly.getD { manifest := manifest, target := none }) } := by
        refine ⟨hsound.opened, ?_⟩
        rintro seek target hseek htarget
        cases hthere : h.seekOnly with
        | none =>
          rw [hthere] at hseek
          cases hseek
          cases htarget
        | some first =>
          rw [hthere] at hseek
          cases hseek
          exact hsound.seekOnly _ target hthere htarget
      rw [hopened] at hnext
      dsimp only
      split
      · exact hnext.requestSeekChunk hrejects _ read
      · exact ⟨hnext, answersSound_error read _⟩

end Complete

theorem RowSound.of_poolFile {row row' : Option MediaRow} (h : RowSound o pool row)
    (hsame : ∀ entry', row' = some entry' → entry'.poolFile = none ∨ ∃ entry, row = some entry ∧
      entry'.poolFile = entry.poolFile) : RowSound o pool row' := by
  intro entry' name hentry hname
  rcases hsame entry' hentry with hnone | ⟨entry, hrow, hfile⟩
  · rw [hname] at hnone
    cases hnone
  · exact h entry name hrow (hfile.symm.trans hname)

/-- What a row becomes when it keeps its file, or loses it. -/
theorem RowSound.map {row : Option MediaRow} (h : RowSound o pool row)
    {change : MediaRow → MediaRow}
    (hchange : ∀ entry, (change entry).poolFile = none ∨ (change entry).poolFile = entry.poolFile) :
    RowSound o pool (row.map change) := by
  refine h.of_poolFile fun entry' hentry => ?_
  obtain ⟨entry, hrow, rfl⟩ := Option.map_eq_some_iff.mp hentry
  exact (hchange entry).imp_right fun hfile => ⟨entry, hrow, hfile⟩

theorem RowSound.mediaBegin {row : Option MediaRow} (h : RowSound o pool row)
    (description : MediaDescription) : RowSound o pool (mediaBegin mxc row description) := by
  refine h.of_poolFile fun entry' hentry => ?_
  cases row with
  | some entry =>
    cases hentry
    exact .inr ⟨entry, rfl, rfl⟩
  | none =>
    rw [MediaSeeks.mediaBegin] at hentry
    split_ifs at hentry
    cases hentry
    exact .inl rfl

theorem Handler.Sound.openMedia (hsound : h.Sound o pool mxc) (hshelf : shelf.Sound o pool mxc)
    (id : Nat) (manifest : Manifest) (course : OpenCourse) :
    (h.openMedia pool mxc shelf id manifest course).1.Sound o pool mxc ∧
      (h.openMedia pool mxc shelf id manifest course).2.Sound o pool mxc := by
  rw [Handler.openMedia]
  split_ifs
  · exact ⟨hsound, hshelf⟩
  split
  · exact ⟨hsound, hshelf⟩
  rename_i row hrow
  obtain ⟨description, _, hbegin⟩ := Option.bind_eq_some_iff.mp hrow
  have hrowSound : RowSound o pool (some row) := by
    rw [← hbegin]
    exact hshelf.row.mediaBegin description
  dsimp only
  cases hopen : MediaDownload.openDownload pool (OpenMedia.mediaFile mxc manifest) course
      shelf.disk with
  | mk result disk =>
    obtain ⟨hrest, hsame, hopened⟩ :=
      @RestSound.opening pool o.content (OpenMedia.mediaFile mxc manifest) _ hshelf.rest course
        _ _ hopen
    have hnamed : Named pool disk.finished := by
      rw [hsame]
      exact hshelf.named
    cases result with
    | error e => exact ⟨hsound, hrest, hnamed, hrowSound⟩
    | ok download =>
      obtain ⟨count, hcount, hpos, hfiles, huntouched⟩ := hopened download rfl
      refine ⟨⟨?_, fun _ _ hseek => by cases hseek⟩, hrest.discard, hnamed, hrowSound⟩
      rintro _ ⟨⟩
      exact ⟨⟨count, hcount, hpos, hfiles⟩, fun _ => nofun, fun _ => huntouched⟩

/-- Files that were closed are as good as before. -/
theorem Shelf.Sound.giveBack (hshelf : shelf.Sound o pool mxc) {disk : MediaDisk}
    (hrest : RestSound pool mxc.toUTF8.toList o.content disk) :
    (shelf.giveBack disk).Sound o pool mxc := by
  rw [Shelf.giveBack]
  by_cases hlinked : shelf.linked = true
  · rw [if_pos hlinked]
    exact ⟨hrest.withFinished _, hshelf.named, hshelf.row⟩
  · rw [if_neg hlinked]
    exact ⟨hshelf.rest, hshelf.named, hshelf.row⟩

theorem Handler.Sound.takeOpen (hsound : h.Sound o pool mxc) (hshelf : shelf.Sound o pool mxc) :
    (Handler.takeOpen shelf h).1.Sound o pool mxc ∧
      (Handler.takeOpen shelf h).2.Sound o pool mxc := by
  rw [Handler.takeOpen]
  cases hopened : h.opened with
  | none => exact ⟨hsound, hshelf⟩
  | some opened =>
    obtain ⟨⟨count, _, _, hfiles⟩, _, _⟩ := hsound.opened opened hopened
    exact ⟨⟨fun _ => nofun, hsound.seekOnly⟩, hshelf.giveBack hfiles.rest⟩

theorem Handler.Sound.failMedia (hsound : h.Sound o pool mxc) (hshelf : shelf.Sound o pool mxc)
    (e : SdkError) (discard : Bool) : (Handler.failMedia shelf h e discard).Sound o pool mxc := by
  have hquiet : Handler.Sound o pool mxc { h with inFlight := [] } := hsound.congr rfl rfl
  obtain ⟨hclosed, hgiven⟩ := hquiet.takeOpen hshelf
  exact ⟨hclosed.congr rfl rfl, hgiven, answersSound_flatMap h.inFlight e⟩

theorem Turn.Sound.answering {turn : Turn} {first : List Answer} (hturn : turn.Sound o pool mxc)
    (hfirst : AnswersSound o first) :
    Turn.Sound o pool mxc { turn with answers := first ++ turn.answers } :=
  ⟨hturn.handler, hturn.shelf, hfirst.append hturn.answers⟩

section Replies

variable {packages : Packages}

theorem Handler.Sound.acceptInfo (hsound : h.Sound o pool mxc) {ack : Ack}
    (hgenuine : o.InfoGenuine packages ack)
    (haccept : h.acceptInfo packages ack = some (.ok other)) : other.Sound o pool mxc := by
  have hverify : ∀ {manifest : Manifest} {target : VerifiedTarget},
      (ack.infoReply.bind fun info => verifyInfo packages manifest info.1 info.2) = .ok target →
        o.Verified manifest target := by
    intro manifest target hbind
    rw [Ack.infoReply] at hbind
    cases hinfo : ack.info with
    | error e =>
      rw [hinfo] at hbind
      cases hbind
    | ok info =>
      rw [hinfo] at hbind
      exact verifyInfo_spec hgenuine hinfo hbind
  rw [Handler.acceptInfo] at haccept
  cases hopened : h.opened with
  | some opened =>
    rw [hopened] at haccept
    dsimp only at haccept
    cases hbind : ack.infoReply.bind fun info =>
        verifyInfo packages opened.manifest info.1 info.2 with
    | error e =>
      rw [hbind] at haccept
      cases haccept
    | ok target =>
      rw [hbind] at haccept
      cases haccept
      refine hsound.withOpened ⟨(hsound.opened opened hopened).files, ?_,
        fun hnone => by cases hnone⟩
      rintro _ ⟨⟩
      exact hverify hbind
  | none =>
    cases hseek : h.seekOnly with
    | none =>
      rw [hopened, hseek] at haccept
      cases haccept
    | some seek =>
      rw [hopened, hseek] at haccept
      dsimp only at haccept
      cases hbind : ack.infoReply.bind fun info =>
          verifyInfo packages seek.manifest info.1 info.2 with
      | error e =>
        rw [hbind] at haccept
        cases haccept
      | ok target =>
        rw [hbind] at haccept
        cases haccept
        refine ⟨fun _ => nofun, ?_⟩
        rintro _ _ ⟨⟩ ⟨⟩
        exact hverify hbind

theorem Handler.Sound.refuse (hsound : h.Sound o pool mxc) (hshelf : shelf.Sound o pool mxc)
    (waiters : List Waiting) (e : SdkError) :
    (Handler.refuse shelf h waiters e).Sound o pool mxc := by
  rw [Handler.refuse]
  split_ifs
  · exact (hsound.failMedia hshelf e true).answering (answersSound_answerSeeksOnly waiters e)
  · exact ⟨⟨hsound.opened, fun _ _ hseek => by cases hseek⟩, hshelf,
      answersSound_answerSeeksOnly waiters e⟩

theorem Handler.Sound.infoArrived (hrejects : pool.aead.RejectsTorn) (hsound : h.Sound o pool mxc)
    (hshelf : shelf.Sound o pool mxc) {ack : Ack} (hgenuine : o.InfoGenuine packages ack)
    (waiters : List Waiting) (retries : Retries) :
    (Handler.infoArrived pool packages shelf h ack waiters retries).Sound o pool mxc := by
  rw [Handler.infoArrived]
  split
  · exact ⟨hsound, hshelf, answersSound_answerSeeksOnly waiters downloaderGone⟩
  · rename_i next haccept
    obtain ⟨hnext, hanswers⟩ :=
      (hsound.acceptInfo hgenuine haccept).requestSeeks hrejects waiters
    exact ⟨hnext, hshelf, hanswers⟩
  · split_ifs
    · exact ⟨hsound.resend _ _ _, hshelf, answersSound_nil⟩
    · exact hsound.refuse hshelf waiters _

/-- A chunk that was opened is the upload's, and the description was checked before. -/
theorem Handler.Sound.openArrived (hsound : h.Sound o pool mxc) {index : Nat} {ack : Ack}
    {plain : List UInt8} (hgenuine : o.ChunkGenuine packages ack index)
    (harrived : h.openArrived packages index ack = some (.ok plain)) :
    plain = piece o.file.chunkSize index o.content.bytes ∧
      ((∃ opened target, h.opened = some opened ∧ opened.target = some target) ∨
        h.opened = none ∧ ∃ seek target, h.seekOnly = some seek ∧ seek.target = some target) := by
  have hopens : ∀ {manifest : Manifest} {target : VerifiedTarget},
      o.Verified manifest target →
      ((ack.chunkReply index).bind (openChunkData packages manifest target index)) = .ok plain →
        plain = piece o.file.chunkSize index o.content.bytes := by
    intro manifest target hverified hbind
    cases hreply : ack.chunkReply index with
    | error e =>
      rw [hreply] at hbind
      cases hbind
    | ok data =>
      rw [hreply, chunkReply_spec hreply] at hbind
      exact openChunkData_spec hgenuine hverified.cipher hbind
  rw [Handler.openArrived] at harrived
  cases hopened : h.opened with
  | some opened =>
    rw [hopened] at harrived
    have hbind := Option.some.inj harrived
    cases htarget : opened.target with
    | none =>
      cases hreply : ack.chunkReply index with
      | error e =>
        rw [hreply] at hbind
        cases hbind
      | ok data =>
        rw [hreply, Except.bind, OpenMedia.openChunk, htarget] at hbind
        cases hbind
    | some target =>
      have hsame : opened.openChunk packages index =
          openChunkData packages opened.manifest target index := by
        funext data
        rw [OpenMedia.openChunk, htarget]
      rw [hsame] at hbind
      have hverified := (hsound.opened opened hopened).verified target htarget
      exact ⟨hopens hverified hbind, .inl ⟨opened, target, rfl, htarget⟩⟩
  | none =>
    cases hseek : h.seekOnly with
    | none =>
      rw [hopened, hseek] at harrived
      cases harrived
    | some seek =>
      rw [hopened, hseek] at harrived
      dsimp only at harrived
      cases htarget : seek.target with
      | none =>
        rw [htarget] at harrived
        cases harrived
      | some target =>
        rw [htarget] at harrived
        have hverified := hsound.seekOnly seek target hseek htarget
        exact ⟨hopens hverified (Option.some.inj harrived),
          .inr ⟨rfl, seek, target, rfl, htarget⟩⟩

/-- The chunk is put where it belongs in the files. -/
theorem OpenMedia.Sound.storeChunk {opened : OpenMedia} {target : VerifiedTarget}
    (hsound : opened.Sound o pool mxc) (htarget : opened.target = some target) (index : Nat)
    (waiters : List Waiting) (course : Handler.StoreCourse) :
    (Handler.storeChunk pool opened index (piece o.file.chunkSize index o.content.bytes) waiters
      course).2.2.Sound o pool mxc := by
  obtain ⟨⟨count, hcount, hpos, hfiles⟩, hverified, _⟩ := hsound
  have hfile := describes (hverified target htarget) hcount hpos
  have hchecked : opened.target ≠ none := by
    rw [htarget]
    exact Option.some_ne_none target
  have hchunk : MediaDownload.chunk (OpenMedia.mediaFile mxc opened.manifest) o.content index =
      piece o.file.chunkSize index o.content.bytes :=
    chunk_eq (hverified target htarget) index
  rw [Handler.storeChunk, ← hchunk]
  split_ifs
  · cases hland : opened.download.landChunk pool index
        (MediaDownload.chunk (OpenMedia.mediaFile mxc opened.manifest) o.content index)
        course.faults opened.disk.pending with
    | mk error rest =>
      obtain ⟨download, pending⟩ := rest
      exact ⟨⟨count, hcount, hpos, hfiles.land hfile index course.faults hland⟩, hverified,
        fun hnone => absurd hnone hchecked⟩
  · cases hstore : opened.download.storeSeekChunk pool index
        (MediaDownload.chunk (OpenMedia.mediaFile mxc opened.manifest) o.content index)
        course.seekBase course.openFault course.appendFault opened.disk with
    | mk error rest =>
      obtain ⟨download, disk⟩ := rest
      exact ⟨⟨count, hcount, hpos,
          hfiles.store index course.seekBase course.openFault course.appendFault hstore⟩,
        hverified, fun hnone => absurd hnone hchecked⟩

theorem Handler.Sound.handOut (hsound : h.Sound o pool mxc) (hshelf : shelf.Sound o pool mxc)
    {index : Nat}
    (hchecked : (∃ opened target, h.opened = some opened ∧ opened.target = some target) ∨ h.opened =
      none ∧ ∃ seek target, h.seekOnly = some seek ∧ seek.target = some target)
    (waiters : List Waiting) (course : Handler.StoreCourse) :
    (Handler.handOut pool shelf h index (piece o.file.chunkSize index o.content.bytes) waiters
      course).Sound o pool mxc := by
  have hanswers : ∀ {chunkSize : Nat}, chunkSize = o.file.chunkSize →
      AnswersSound o (Handler.answerSeeks waiters
        { start := chunkStart index chunkSize
          plain := piece o.file.chunkSize index o.content.bytes }) := by
    rintro chunkSize rfl
    exact answersSound_answerSeeks waiters (List.take_prefix _ _)
  rw [Handler.handOut]
  rcases hchecked with ⟨opened, target, hopened, htarget⟩ | ⟨hnone, seek, target, hseek, htarget⟩
  · have hfile := hsound.opened opened hopened
    have hstored := hfile.storeChunk htarget index waiters course
    have hsize : opened.chunkSize = o.file.chunkSize := by
      obtain ⟨⟨count, _, _, hfiles⟩, hverified, _⟩ := hfile
      rw [OpenMedia.chunkSize, (hfiles.download.file_eq _ rfl).1, OpenMedia.mediaFile,
        (hverified target htarget).chunkSize, UInt32.toNat_ofNat']
      exact Nat.mod_eq_of_lt o.chunkSize_lt
    rw [hopened]
    dsimp only
    cases hstore : Handler.storeChunk pool opened index
        (piece o.file.chunkSize index o.content.bytes) waiters course with
    | mk main rest =>
      obtain ⟨error, next⟩ := rest
      rw [hstore] at hstored
      have hnext := hsound.withOpened hstored
      split
      · rename_i heq
        cases heq
        exact (hnext.failMedia hshelf _ false).answering (hanswers hsize)
      · rename_i heq
        cases heq
        exact ⟨hnext, hshelf, hanswers hsize⟩
  · rw [hnone]
    refine ⟨hsound, hshelf, hanswers ?_⟩
    rw [hseek]
    exact (hsound.seekOnly seek target hseek htarget).chunkSize

theorem Handler.Sound.chunkArrived (hsound : h.Sound o pool mxc) (hshelf : shelf.Sound o pool mxc)
    {index : Nat} {ack : Ack} (hgenuine : o.ChunkGenuine packages ack index)
    (waiters : List Waiting) (retries : Retries) (course : Handler.StoreCourse) :
    (Handler.chunkArrived pool packages shelf h index ack waiters retries course).Sound o pool
      mxc := by
  rw [Handler.chunkArrived]
  split
  · exact ⟨hsound, hshelf, answersSound_answerSeeksOnly waiters downloaderGone⟩
  · rename_i plain harrived
    obtain ⟨rfl, hchecked⟩ := hsound.openArrived hgenuine harrived
    exact hsound.handOut hshelf hchecked waiters course
  · split_ifs
    · exact ⟨hsound.resend _ _ _, hshelf, answersSound_nil⟩
    · exact hsound.refuse hshelf waiters _

theorem Handler.Sound.requestFailed (hsound : h.Sound o pool mxc) (hshelf : shelf.Sound o pool mxc)
    (entry : InFlight) (e : SdkError) :
    (Handler.requestFailed shelf h entry e).Sound o pool mxc := by
  have htold := @answersSound_answerSeeksOnly o entry.waiters e
  rw [Handler.requestFailed.eq_def]
  dsimp only
  split
  · refine ⟨?_, hshelf, htold⟩
    dsimp only
    split_ifs
    · exact hsound.resend _ _ _
    · exact hsound
  · split_ifs
    · exact ⟨hsound.resend _ _ _, hshelf, answersSound_nil⟩
    · exact ⟨hsound.resend _ _ _, hshelf, answersSound_nil⟩
    · exact (hsound.failMedia hshelf _ _).answering htold
    · exact ⟨hsound, hshelf, htold⟩

/-- What a reply has to be for the request it comes for. -/
def ReplyGenuine (o : Original) (packages : Packages) (request : Request)
    (result : Except SdkError Ack) : Prop :=
  match request, result with
  | _, .error _ => True
  | .info, .ok ack => o.InfoGenuine packages ack
  | .chunk index, .ok ack => o.ChunkGenuine packages ack index

theorem Handler.Sound.handleReply (hrejects : pool.aead.RejectsTorn) (hsound : h.Sound o pool mxc)
    (hshelf : shelf.Sound o pool mxc) {request : Request} {result : Except SdkError Ack}
    (hgenuine : ReplyGenuine o packages request result) (course : Handler.StoreCourse) :
    (Handler.handleReply pool packages shelf h request result course).Sound o pool mxc := by
  rw [Handler.handleReply]
  split
  · exact ⟨hsound, hshelf, answersSound_nil⟩
  · rename_i entry _
    have hrest : Handler.Sound o pool mxc
        { h with inFlight := h.inFlight.filter fun entry => entry.request ≠ request } :=
      hsound.congr rfl rfl
    cases result with
    | error e => exact hrest.requestFailed hshelf entry e
    | ok ack =>
      cases request with
      | info => exact hrest.infoArrived hrejects hshelf hgenuine entry.waiters entry.retries
      | chunk index => exact hrest.chunkArrived hshelf hgenuine entry.waiters entry.retries course

end Replies

section Main

theorem rowSound_mediaFinish {row : Option MediaRow} {done : Finished} {verified : Verification}
    (hdone : ∃ n, done.hashHex = Bytes.toHex (pool.blake3 (o.content.bytes.take n))) :
    RowSound o pool (row.map fun entry => mediaFinish entry done verified) := by
  intro entry name hentry hname
  obtain ⟨before, _, rfl⟩ := Option.map_eq_some_iff.mp hentry
  cases hname
  obtain ⟨n, hhash⟩ := hdone
  exact ⟨n, by rw [String.toList_ofList, hhash]⟩

/-- The file is finished where the content ends, or nothing was written to it. -/
theorem Handler.Sound.finishJob (hsound : h.Sound o pool mxc) (hshelf : shelf.Sound o pool mxc)
    {opened : OpenMedia} (hopened : opened.Sound o pool mxc) (course : Handler.MainCourse) :
    (Handler.finishJob pool shelf h opened course).Sound o pool mxc := by
  obtain ⟨⟨count, hcount, hpos, hfiles⟩, hverified, huntouched⟩ := hopened
  have hend : opened.download.writer.plainLen =
        (OpenMedia.mediaFile mxc opened.manifest).fileSize →
      opened.download.writer.plainLen = o.content.bytes.length ∨
        Untouched o.content opened.download.writer opened.disk.pending.bytes := by
    intro hall
    cases htarget : opened.target with
    | none => exact .inr (huntouched htarget)
    | some target => exact .inl (hall.trans (hverified target htarget).fileSize)
  rw [Handler.finishJob]
  dsimp only
  generalize hfinish : opened.download.finish pool _ _ = finished
  obtain ⟨result, disk⟩ := finished
  obtain ⟨hrest, hnamed, hdone⟩ := hfiles.finish hend hshelf.named _ hfinish
  have hadopted : Shelf.Sound o pool mxc
      { shelf with disk := { shelf.disk with finished := disk.finished } } :=
    ⟨hshelf.rest.withFinished _, hnamed, hshelf.row⟩
  have hgiven := hadopted.giveBack hrest
  refine ⟨⟨fun _ => nofun, hsound.seekOnly⟩, ⟨hgiven.rest, hgiven.named, ?_⟩, answersSound_nil⟩
  cases result with
  | error e => exact hshelf.row
  | ok done =>
    obtain ⟨done, verified⟩ := done
    dsimp only
    split_ifs
    · exact rowSound_mediaFinish (hdone done verified rfl)
    · exact hshelf.row

theorem Handler.Sound.continueMain (hrejects : pool.aead.RejectsTorn) (hsound : h.Sound o pool mxc)
    (hshelf : shelf.Sound o pool mxc) (course : Handler.MainCourse) :
    (Handler.continueMain pool shelf h course).Sound o pool mxc := by
  rw [Handler.continueMain]
  split
  · exact ⟨hsound, hshelf, answersSound_nil⟩
  rename_i opened hopened
  have hfile := hsound.opened opened hopened
  by_cases hall : opened.download.writer.plainLen = opened.download.file.fileSize
  · rw [if_pos hall]
    exact hsound.finishJob hshelf hfile course
  rw [if_neg hall]
  by_cases hnone : opened.target.isNone = true
  · rw [if_pos hnone]
    exact ⟨hsound.want _ _, hshelf, answersSound_nil⟩
  rw [if_neg hnone]
  obtain ⟨⟨count, hcount, hpos, hfiles⟩, hverified, _⟩ := hfile
  obtain ⟨target, htarget⟩ := Option.ne_none_iff_exists'.mp (by simpa using hnone)
  cases hadvance : opened.download.advanceFromSeekStore pool course.faults opened.disk with
  | mk result rest =>
    obtain ⟨download, disk⟩ := rest
    have hafter := hfiles.advance (describes (hverified target htarget) hcount hpos) hrejects
      course.faults hadvance
    have hchecked : opened.target ≠ none := by
      rw [htarget]
      exact Option.some_ne_none target
    have hadvanced : OpenMedia.Sound o pool mxc
        { opened with download := download, disk := disk } :=
      ⟨⟨count, hcount, hpos, hafter⟩, hverified, fun hno => absurd hno hchecked⟩
    have hnext := hsound.withOpened hadvanced
    cases result with
    | error e => exact hnext.failMedia hshelf e true
    | ok advanced =>
      cases advanced with
      | true => exact ⟨hnext, hshelf, answersSound_nil⟩
      | false => exact ⟨hnext.want _ _, hshelf, answersSound_nil⟩

theorem Handler.Sound.answerSeeksFromPool (hblake : Injective pool.blake3)
    (hsound : h.Sound o pool mxc) (hshelf : shelf.Sound o pool mxc) :
    (Handler.answerSeeksFromPool pool shelf h).Sound o pool mxc := by
  refine ⟨hsound.congr rfl rfl, hshelf, fun read found hmem => ?_⟩
  obtain ⟨waiting, _, hanswer⟩ := List.mem_filterMap.mp hmem
  cases waiting with
  | main => cases hanswer
  | seek index other =>
    obtain ⟨_, hread⟩ := Prod.mk.inj (Option.some.inj hanswer)
    cases hentry : shelf.findCompleteEntry pool with
    | none =>
      rw [hentry] at hread
      cases hread
    | some entry =>
      rw [hentry] at hread
      exact hshelf.readComplete hblake hentry hread

end Main

section Steps

variable {packages : Packages}
  (hrejects : pool.aead.RejectsTorn) (hblake : Injective pool.blake3)
include hrejects hblake

theorem Handler.Sound.turn (hsound : h.Sound o pool mxc) (hshelf : shelf.Sound o pool mxc)
    {id : Nat} {action : HandlerAction} (hgenuine : o.Genuine pool packages (.handler id action)) :
    (h.turn pool packages mxc shelf id action).Sound o pool mxc := by
  have hquiet : ∀ {next : Handler}, next.Sound o pool mxc →
      Turn.Sound o pool mxc { handler := next, shelf := shelf, answers := [] } :=
    fun hnext => ⟨hnext, hshelf, answersSound_nil⟩
  rw [Handler.turn.eq_def]
  dsimp only
  split
  · exact ⟨handlerSound_start, (hsound.takeOpen hshelf).2, answersSound_flatMap h.inFlight _⟩
  · exact hsound.answerSeeksFromPool hblake hshelf
  · exact ⟨hsound.congr rfl rfl, ⟨hshelf.rest.discard, hshelf.named, hshelf.row⟩, answersSound_nil⟩
  · exact hquiet hsound
  · obtain ⟨hnext, hanswers⟩ := hsound.processSeek hblake hrejects hshelf _ _ _
    exact ⟨hnext, hshelf, hanswers⟩
  · rename_i request result course _
    refine hsound.handleReply hrejects hshelf ?_ course
    cases result with
    | error e => exact trivial
    | ok ack =>
      cases request <;> exact hgenuine
  · obtain ⟨hnext, hother⟩ := hsound.openMedia hshelf id _ _
    exact ⟨hnext, hother, answersSound_nil⟩
  · exact hsound.continueMain hrejects hshelf _
  · exact hquiet (hsound.congr rfl rfl)
  · split_ifs
    · obtain ⟨hnext, hother⟩ := hsound.takeOpen hshelf
      exact ⟨hnext, hother, answersSound_nil⟩
    · exact hquiet hsound
  · split_ifs
    · exact hquiet ⟨hsound.opened, fun _ _ => nofun⟩
    · exact hquiet hsound
  · exact hquiet hsound
  · exact hquiet hsound

omit hrejects hblake in
theorem Shelf.Sound.change (hshelf : shelf.Sound o pool mxc) {action : ShelfAction}
    (hgenuine : o.Genuine pool packages (.shelf action)) :
    (shelf.change mxc action).Sound o pool mxc := by
  cases action with
  | unlink => exact ⟨hshelf.rest.discard, hshelf.named, hshelf.row⟩
  | removeFile name => exact ⟨hshelf.rest.withFinished _, hshelf.named.remove name, hshelf.row⟩
  | keepFile name bytes =>
    obtain ⟨other, header, segments, hcomplete, hname⟩ := hgenuine
    exact ⟨hshelf.rest.withFinished _, hshelf.named.keep hname hcomplete, hshelf.row⟩
  | arrive description =>
    refine ⟨hshelf.rest, hshelf.named, ?_⟩
    rw [Shelf.change]
    cases hbegin : mediaBegin mxc shelf.row description with
    | none => exact hshelf.row
    | some row =>
      rw [Option.some_or, ← hbegin]
      exact hshelf.row.mediaBegin description
  | progress segmentsWritten chunkSize =>
    exact ⟨hshelf.rest, hshelf.named, hshelf.row.map fun _ => .inr rfl⟩
  | reset => exact ⟨hshelf.rest, hshelf.named, hshelf.row.map fun _ => .inl rfl⟩
  | deleteRow => exact ⟨hshelf.rest, hshelf.named, fun _ _ hrow => by cases hrow⟩

theorem State.Sound.step {s : State} {action : Action} (hgenuine : o.Genuine pool packages action)
    (hsound : s.Sound o pool mxc) : (step pool packages mxc s action).Sound o pool mxc := by
  obtain ⟨hhandlers, hshelf, hanswers⟩ := hsound
  cases action with
  | shelf action => exact ⟨hhandlers, hshelf.change hgenuine, hanswers⟩
  | handler id action =>
    obtain ⟨hnext, hafter, hgiven⟩ := (hhandlers id).turn hrejects hblake hshelf hgenuine
    refine ⟨fun other => ?_, hafter, fun read found hmem => ?_⟩
    · by_cases hsame : other = id
      · subst hsame
        simp only [MediaSeeks.step, State.give, update_self]
        exact hnext
      · simp only [MediaSeeks.step, State.give, update_of_ne hsame]
        exact hhandlers other
    · rcases List.mem_append.mp hmem with hmem | hmem
      · exact hanswers read found hmem
      · obtain ⟨⟨reader, answer⟩, hanswer, rfl⟩ := List.mem_map.mp hmem
        exact hgiven reader found (List.mem_of_mem_filter hanswer)

/-- In every run every piece that is handed out stands where it says. -/
theorem sound_run {finished : List Char → Option (List UInt8)} (hnamed : Named pool finished)
    (actions : List Action) (hgenuine : ∀ action ∈ actions, o.Genuine pool packages action) :
    (Runs.run (step pool packages mxc) (.start finished) actions).Sound o pool mxc :=
  Runs.run_invariant_of_guard (o.Genuine pool packages) (State.Sound o pool mxc)
    (fun _ _ haction h => h.step hrejects hblake haction) actions _ hgenuine
    ⟨fun _ => handlerSound_start,
      ⟨MediaDownload.restSound_start _ finished, hnamed, fun _ _ hrow => by cases hrow⟩,
      fun _ _ hmem => by cases hmem⟩

end Steps

end Handlers

end MediaSeeks
end WbfMatrixClient
