import WbfMatrixClient.MatrixDownloadRows
import WbfMatrixClient.MediaSeeksSound

/-!
# A range is that range

Wherever a range is given out of, what comes is the plaintext from the start on, piece behind
piece, and nothing else. A call that says that there is nothing more says it at the end of the
range; a source that ends before, and a piece that does not have the position, are errors.
-/

namespace WbfMatrixClient
namespace MediaStream

open MediaPool (Pool PoolReader Content Complete)

/-- Files are read, and nobody is asked. -/
def notAsked : Except SdkError SeekPiece :=
  .error (.io "the file is here")

/-- What the sources are, and where their answers come from. An answer that is an error may come
from anywhere: the handler may be gone, and the transfer too. -/
inductive Served (pool : Pool) (packages : Packages) (matrix : MatrixDownload.Packages)
    (plaintext : List UInt8) : Origin → List (Except SdkError SeekPiece) → Prop where
  /-- The original on this machine. -/
  | localFile (position : Nat) (reads : List (Option Nat)) (calls : Nat) :
      Served pool packages matrix plaintext (.localFile ⟨plaintext, position, reads⟩)
        (List.replicate calls notAsked)
  /-- A file of the pool that holds all of the plaintext. -/
  | pool {content : Content} {header : MediaPool.Header} {count : Nat} {bytes : List UInt8}
      {reader : PoolReader}
      (hcontent : content.bytes = plaintext)
      (hcomplete : Complete pool content header count bytes)
      (hopen : pool.openRead bytes = .ok reader)
      (calls : Nat) :
      Served pool packages matrix plaintext (.pool reader) (List.replicate calls notAsked)
  /-- The handlers of the downloads, in any run of them in which the server has the file. -/
  | chunks (mxc : String) {o : MediaSeeks.Original} {finished : List Char → Option (List UInt8)}
      {actions : List MediaSeeks.Action} {answers : List (Except SdkError SeekPiece)}
      (ho : o.content.bytes = plaintext)
      (hnamed : MediaDownload.Named pool finished)
      (hgenuine : ∀ action ∈ actions, o.Genuine pool packages action)
      (hanswers : ∀ found, .ok found ∈ answers → ∃ read, .ok found ∈
        (Runs.run (MediaSeeks.step pool packages mxc) (.start finished) actions).answers read) :
      Served pool packages matrix plaintext .chunks answers
  /-- The transfer of an attachment, in any run, that has got a beginning of the plaintext. -/
  | matrix (mxc : String) {actions : List MatrixDownload.Action} {n : Nat}
      {transfer : MatrixDownload.Transfer} {answers : List (Except SdkError SeekPiece)}
      (htransfer : (Runs.run (MatrixDownload.step matrix mxc) .start actions).transfers n =
        some transfer)
      (hplain : transfer.plain <+: plaintext)
      (hanswers : ∀ found, .ok found ∈ answers → ∃ read position,
        (Runs.run (MatrixDownload.step matrix mxc) .start actions).reads read =
          some ⟨n, position⟩ ∧
        .piece found.start found.plain ∈
          (Runs.run (MatrixDownload.step matrix mxc) .start actions).answers (.read read)) :
      Served pool packages matrix plaintext .matrix answers

section Served

variable {pool : Pool} {packages : Packages} {matrix : MatrixDownload.Packages}
  {plaintext : List UInt8} {origin : Origin} {answers : List (Except SdkError SeekPiece)}

theorem answerHolds_notAsked (calls : Nat) :
    ∀ answer ∈ List.replicate calls notAsked, AnswerHolds plaintext answer := by
  intro answer hanswer found hfound
  rw [List.eq_of_mem_replicate hanswer] at hfound
  cases hfound

/-- A transfer answers with what it has from the position on. -/
theorem transfer_piece (hinjective : Function.Injective matrix.blake3) {mxc : String}
    {actions : List MatrixDownload.Action} {n : Nat} {transfer : MatrixDownload.Transfer}
    {read position start : Nat} {plain : List UInt8}
    (htransfer : (Runs.run (MatrixDownload.step matrix mxc) .start actions).transfers n = some
      transfer)
    (hread : (Runs.run (MatrixDownload.step matrix mxc) .start actions).reads read = some ⟨n,
      position⟩)
    (hanswer : .piece start plain ∈ (Runs.run (MatrixDownload.step matrix mxc) .start
      actions).answers (.read read)) : plain <+: transfer.plain.drop start := by
  obtain ⟨other, m, t, hchannel, hother, hm, _, hbegins⟩ :=
    (MatrixDownload.sound_run matrix mxc hinjective actions).replies.pieces _ start plain hanswer
  cases hchannel
  rw [hread] at hother
  cases hother
  rw [htransfer] at hm
  cases hm
  exact hbegins

/-- Every source has the plaintext where it says, and its answers have too. -/
theorem Served.holds (h : Served pool packages matrix plaintext origin answers)
    (hrejects : pool.aead.RejectsTorn) (hblake : Function.Injective pool.blake3)
    (hinjective : Function.Injective matrix.blake3) :
    Origin.Holds pool plaintext origin ∧ ∀ answer ∈ answers, AnswerHolds plaintext answer := by
  cases h with
  | localFile position reads calls => exact ⟨.localFile position reads, answerHolds_notAsked calls⟩
  | pool hcontent hcomplete hopen calls =>
    obtain ⟨reader', hread, hsound, _⟩ := MediaPool.openRead_spec hcomplete
    rw [hopen] at hread
    cases hread
    exact ⟨.pool hcontent hsound, answerHolds_notAsked calls⟩
  | chunks mxc ho hnamed hgenuine hanswers =>
    refine ⟨.chunks, ?_⟩
    rintro _ hmem found rfl
    obtain ⟨read, hanswer⟩ := hanswers found hmem
    have hsound := @MediaSeeks.sound_run _ pool mxc packages hrejects hblake _ hnamed _ hgenuine
    rw [← ho]
    exact hsound.answers read found hanswer
  | matrix mxc htransfer hplain hanswers =>
    refine ⟨.matrix, ?_⟩
    rintro _ hmem found rfl
    obtain ⟨read, position, hread, hanswer⟩ := hanswers found hmem
    exact (transfer_piece hinjective htransfer hread hanswer).trans
      (List.IsPrefix.drop hplain found.start)

end Served

/-- Whatever a range is given out of: after any calls the pieces are not empty and are the range
from the start to the position, which is not past the end. When a call has said that there is
nothing more, they are the range; a source that ends before is an error within as many calls as
there are bytes, and one more. -/
theorem stream_gives_range (pool : Pool) (packages : Packages) (matrix : MatrixDownload.Packages)
    (hrejects : pool.aead.RejectsTorn) (hblake : Function.Injective pool.blake3)
    (hinjective : Function.Injective matrix.blake3) (source : MediaSource) (plaintext : List UInt8)
    (start stop : Nat) (answers : List (Except SdkError SeekPiece)) (hstart : start < stop)
    (hstop : stop ≤ source.size)
    (hserved : Served pool packages matrix plaintext source.origin answers) :
    let after := (source.intoStream start stop).calls pool answers
    (∀ piece ∈ after.pieces, piece ≠ []) ∧
      after.stream.position ≤ stop ∧
      start + after.pieces.flatten.length = after.stream.position ∧
      after.pieces.flatten = (plaintext.drop start).take (after.stream.position - start) ∧
      (.ok none ∈ after.results →
        after.pieces.flatten = (plaintext.drop start).take (stop - start) ∧
          stop ≤ plaintext.length) ∧
      (plaintext.length < stop → stop - start < answers.length →
        ∃ e, .error e ∈ after.results) := by
  intro after
  obtain ⟨horigin, hanswers⟩ := hserved.holds hrejects hblake hinjective
  have hend : (source.intoStream start stop).stop = stop := Nat.min_eq_left hstop
  have hsound : Sound pool plaintext start stop after := by
    have hcalls := calls_sound (s := source.intoStream start stop) horigin
      (by rw [hend]; exact hstart.le) answers hanswers
    rwa [hend] at hcalls
  have hdone : .ok none ∈ after.results →
      after.pieces.flatten = (plaintext.drop start).take (stop - start) ∧
        stop ≤ plaintext.length := by
    intro hdone
    have hall := hsound.gathered
    rw [hsound.ended hdone] at hall
    exact ⟨hall.flatten_eq, hall.position_le hstart⟩
  refine ⟨hsound.gathered.nonempty, hsound.position_le, hsound.gathered.length_eq,
    hsound.gathered.flatten_eq, hdone, fun hshort hmany => ?_⟩
  rw [← @length_results pool (source.intoStream start stop) answers] at hmany
  rcases hsound.settles hmany with hnone | herror
  · exact absurd (hdone hnone).2 (Nat.not_le.mpr hshort)
  · exact herror

/-- A file of three bytes that is not encrypted, in chunks of two. -/
def plainBlock : ChunkedBlock where
  v := conventionV
  cipher := .none
  key := none
  nonceBase := none
  chunkSize := 2
  fileSize := some 3
  name := none
  mimetype := none
  sha256 := none

def plainManifest : Manifest where
  server := "https://example.org/"
  mxc := "mxc://example.org/1"
  block := plainBlock

def plainOriginal : MediaSeeks.Original where
  file := { chunkSize := 2, mode := .plain }
  content := ⟨[1, 2, 3], by decide⟩
  chunkSize_lt := by decide

/-- The ciphers look for their tag, and the description of the file is one byte. -/
def markedPackages : Packages :=
  { (Packages.numbered fun _ => Vector.replicate 32 0).withText plainBlock [7]
      (Packages.numbered_toJson_ne (by decide)) (by decide) with
    chaCha20Poly1305 := Sealing.Aead.marked _ _ _
    aes256Gcm := Sealing.Aead.marked _ _ _ }

/-- What the server says to everything that concerns one chunk, and the description. -/
def plainAck (index : Nat) (data : List UInt8) : MediaSeeks.Ack where
  info := .ok { fileSize := some 3, chunkSize := some 2, chunkCount := some 2, truncated := none }
  read := .ok { chunk := index, len := data.length }
  data := data

def plainCourse : MediaSeeks.Handler.StoreCourse where
  faults := []
  seekBase := Vector.replicate _ 0
  openFault := none
  appendFault := none

/-- A read in each of the chunks, that nobody has downloaded. -/
def plainReads : List MediaSeeks.Action :=
  [.handler 0 (.seek 0 plainManifest 1),
    .handler 0 (.reply .info (.ok (plainAck 0 [7])) plainCourse),
    .handler 0 (.reply (.chunk 0) (.ok (plainAck 0 [1, 2])) plainCourse),
    .handler 0 (.seek 1 plainManifest 2),
    .handler 0 (.reply (.chunk 1) (.ok (plainAck 1 [3])) plainCourse)]

/-- A text that is shorter than the tag does not open. -/
theorem marked_open_short {cipher : Cipher} (hencrypts : cipher.isEncrypting = true) (key : FileKey)
    (nonce aad : List UInt8) {data : List UInt8} (hshort : data.length < tagLen) :
    markedPackages.open cipher key nonce aad data = none := by
  cases cipher with
  | none => cases hencrypts
  | chaCha20Poly1305 | aes256Gcm => exact if_neg fun hboth => absurd hboth.2 (Nat.not_le.mpr hshort)

theorem plainAck_info : plainOriginal.InfoGenuine markedPackages (plainAck 0 [7]) := by
  intro other info json description _ hopen hparse
  obtain ⟨chunkSize, mode⟩ := other
  cases mode with
  | plain =>
    cases hopen
    cases hparse
    exact ⟨rfl, rfl, .inl rfl⟩
  | encrypted cipher key nonceBase hencrypts =>
    have hshut : ∀ nonce aad, markedPackages.open cipher key nonce aad [7] = none :=
      fun nonce aad => marked_open_short hencrypts key nonce aad (by decide)
    simp only [openEitherDescription, FileCipher.openDescription, FileCipher.openWithIndex,
      plainAck, hshut] at hopen
    cases hopen

theorem plainAck_chunk {index : Nat} {data : List UInt8}
    (hdata : data = Chunking.piece 2 index [1, 2, 3]) :
    plainOriginal.ChunkGenuine markedPackages (plainAck index data) index := by
  intro other plain hcipher hopen
  obtain ⟨chunkSize, mode⟩ := other
  cases mode with
  | plain =>
    cases hopen
    exact hdata
  | encrypted cipher key nonceBase hencrypts =>
    cases hcipher
    cases hencrypts

theorem plainReads_genuine :
    ∀ action ∈ plainReads, plainOriginal.Genuine MediaPool.examplePool markedPackages action := by
  intro action haction
  simp only [plainReads, List.mem_cons, List.not_mem_nil, or_false] at haction
  rcases haction with rfl | rfl | rfl | rfl | rfl
  · exact trivial
  · exact plainAck_info
  · exact plainAck_chunk rfl
  · exact trivial
  · exact plainAck_chunk rfl

theorem stream_gives_range_of_two_chunks :
    let answers := [.ok ⟨0, [1, 2]⟩, .ok ⟨2, [3]⟩, notAsked]
    let after := ((⟨3, .chunks⟩ : MediaSource).intoStream 1 3).calls MediaPool.examplePool answers
    .ok none ∈ after.results ∧ after.pieces.flatten = [2, 3] := by
  intro answers after
  let s := Runs.run (MediaSeeks.step MediaPool.examplePool markedPackages "mxc://example.org/1")
    (.start fun _ => none) plainReads
  have hfirst : s.answers 0 = [.ok ⟨0, [1, 2]⟩] := rfl
  have hsecond : s.answers 1 = [.ok ⟨2, [3]⟩] := rfl
  have hresults : after.results = [.ok (some [2]), .ok (some [3]), .ok none] := rfl
  have hdone : .ok none ∈ after.results := by
    rw [hresults]
    exact .tail _ (.tail _ (.head _))
  have hserved : Served MediaPool.examplePool markedPackages MatrixDownload.plainPackages [1, 2, 3]
      .chunks answers := by
    have hnamed : MediaDownload.Named MediaPool.examplePool fun _ => none :=
      fun _ _ hnone => by cases hnone
    refine .chunks "mxc://example.org/1" (o := plainOriginal) rfl hnamed plainReads_genuine
      fun found hfound => ?_
    rcases List.mem_cons.mp hfound with hfound | hfound
    · exact ⟨0, hfirst ▸ hfound ▸ List.mem_singleton_self _⟩
    rcases List.mem_cons.mp hfound with hfound | hfound
    · exact ⟨1, hsecond ▸ hfound ▸ List.mem_singleton_self _⟩
    · cases List.mem_singleton.mp hfound
  obtain ⟨_, _, _, _, hrange, _⟩ := stream_gives_range MediaPool.examplePool markedPackages
    MatrixDownload.plainPackages (Sealing.Aead.marked_rejectsTorn _ _ (by decide))
    (fun _ _ hsame => hsame) MatrixDownload.textOfBytes_injective ⟨3, .chunks⟩ [1, 2, 3] 1 3 answers
    (by decide) (by decide) hserved
  exact ⟨hdone, (hrange hdone).1⟩

end MediaStream
end WbfMatrixClient
