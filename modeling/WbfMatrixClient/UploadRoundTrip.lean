import WbfMatrixClient.Lib.Runs
import WbfMatrixClient.MediaServer

/-!
# From an upload to its download

One upload of one content on an honest server. Calls that send chunks are
begun and abandoned at any time, each of their rounds may fail on the link, and
the upload may be sealed whenever a call has returned, each time with the final
block that the caller makes from what the call returned. A manifest is recorded
whenever sealing returns one.

The server's chunks are at all times the first chunks of the content, sealed.
A call that returns tells the truth about the content, with one exception: the
loop that sends a stream stops as soon as the server says it has finished, and
a server that had finished before the loop began says so at the first chunk.
-/

namespace WbfMatrixClient
namespace UploadRoundTrip

open Chunking

structure System where
  server : Server
  call : Option Task
  sent : Option ChunkedBlock
  manifests : List Manifest
deriving DecidableEq

/-- A call begins, with the fault of its status request; a round of the call
that was begun last, with the faults of its requests; a sealing of what the
last returned call has sent. -/
inductive Action where
  | start (call : Call) (fault : Fault)
  | turn (faults : List Fault)
  | «seal» (fault : Fault)

/-- What a round can read: the file, or what has not been read of the body. -/
def remaining (content : List UInt8) : Loop → List UInt8
  | .sendChunks _ => content
  | .sendStream loop => content.drop (loop.absorbed.length + loop.pending.length)
  | .sendSizedBody loop => content.drop loop.absorbed.length
  | .sendStreamedBody loop => content.drop (loop.absorbed.length + loop.pending.length)

/-- The status, asked for over the link. -/
def statusOverLink (server : Server) (uploadId : Nat) (fault : Fault) :
    Except SdkError StatusAck :=
  (fault.apply (fun server uploadId => (server.status uploadId, server)) uploadId server).1

namespace System

/-- The system after its upload was created. -/
def create (packages : Packages) (server : Server) (serverUrl userId : String)
    (file : FileCipher) (block : ChunkedBlock) : Option (UploadState × System) :=
  let outcome := createUpload packages (fun request server => server.create request) serverUrl
    userId file block server
  match outcome.result with
  | .error _ => none
  | .ok state =>
      some (state, { server := outcome.rest, call := none, sent := none, manifests := [] })

def step (packages : Packages) (state : UploadState) (content : List UInt8) (s : System) :
    Action → System
  | .start call fault =>
      match call.start state (statusOverLink s.server state.uploadId fault) content with
      | .error _ => { s with call := none }
      | .ok task => { s with call := some task }
  | .turn faults =>
      match s.call with
      | none => s
      | some task =>
          let outcome := task.turn packages (overLink Server.chunk)
            (remaining content task.loop) (s.server, faults)
          match outcome.result with
          | .error _ => { s with server := outcome.rest.1, call := none }
          | .ok (.more task) => { s with server := outcome.rest.1, call := some task }
          | .ok (.done summary) =>
              { s with server := outcome.rest.1, call := none,
                       sent := some (task.finalBlock summary) }
  | .seal fault =>
      match s.sent with
      | none => s
      | some finalBlock =>
          let outcome := sealUpload packages (overLink Server.seal) state finalBlock
            (s.server, [fault])
          match outcome.result with
          | .error _ => { s with server := outcome.rest.1 }
          | .ok manifest =>
              { s with server := outcome.rest.1, manifests := s.manifests ++ [manifest] }

end System

/-- No stream is begun on an upload that the server has finished, unless the
content is a single chunk. -/
def StreamsInTime (state : UploadState) (content : List UInt8) (s : System) : Action → Prop
  | .start .sendStream _ =>
      (∀ upload, s.server.upload = some upload → upload.finished = false) ∨
        content.length ≤ state.block.chunkSize
  | _ => True

section Sound

variable (packages : Packages) (state : UploadState) (file : FileCipher) (content : List UInt8)

def total : Nat := divCeil content.length file.chunkSize

/-- The first chunks of the content, sealed. -/
def sealedChunks (count : Nat) : List (List UInt8) :=
  (List.range count).map fun index =>
    file.sealWithIndex packages index chunkAad (piece file.chunkSize index content)

structure UploadSound (upload : StoredUpload) : Prop where
  chunkSize : upload.chunkSize = file.chunkSize
  fileSize : upload.fileSize = none ∨ upload.fileSize = some content.length
  chunkCount : upload.chunkCount = none ∨ upload.chunkCount = some (total file content)
  chunks : upload.chunks = sealedChunks packages file content upload.received
  received_le : upload.received ≤ total file content
  inRange : upload.received ≤ maxChunkIndex + 1
  finished : upload.finished = true → upload.received = total file content

/-- A final block that tells the truth about the content. -/
structure FinalBlock (block : ChunkedBlock) : Prop where
  eq : block = { state.block with fileSize := some content.length, sha256 := block.sha256 }
  sha256 : block.sha256 = none ∨ block.sha256 = some (packages.sha256Hex content)

structure MediaSound (media : StoredMedia) : Prop where
  chunkSize : media.chunkSize = file.chunkSize
  fileSize : media.fileSize = none ∨ media.fileSize = some content.length
  chunks : media.chunks = sealedChunks packages file content (total file content)
  inRange : total file content ≤ maxChunkIndex + 1
  description : ∃ block, FinalBlock packages state content block ∧
    media.description = file.sealDescription packages .seal (block.toDescriptionJson packages)

structure ServerSound (server : Server) : Prop where
  mxc : server.mxc = state.mxc
  upload : ∀ upload, server.upload = some upload → UploadSound packages file content upload
  media : ∀ media, server.media = some media → MediaSound packages state file content media

/-- A request for a chunk of the content. -/
structure RequestSound (request : ChunkRequest) : Prop where
  data : request.data = file.sealWithIndex packages request.index chunkAad
    (piece file.chunkSize request.index content)
  index_lt : request.index < total file content
  inRange : request.index ≤ maxChunkIndex
  isLast : request.isLast = decide (request.index + 1 = total file content)

def Unfinished (server : Server) : Prop :=
  ∀ upload, server.upload = some upload → upload.finished = false

variable {packages state file content}

@[simp] theorem length_sealedChunks (count : Nat) :
    (sealedChunks packages file content count).length = count := by simp [sealedChunks]

variable {count index : Nat}

theorem getElem?_sealedChunks (h : index < count) :
    (sealedChunks packages file content count)[index]? =
      some (file.sealWithIndex packages index chunkAad
        (piece file.chunkSize index content)) := by simp [sealedChunks, h]

theorem sealedChunks_succ (count : Nat) :
    sealedChunks packages file content (count + 1) =
      sealedChunks packages file content count ++
        [file.sealWithIndex packages count chunkAad (piece file.chunkSize count content)] := by
  simp [sealedChunks, List.range_succ]

variable {upload : StoredUpload} {request : ChunkRequest}

/-- A chunk that is sent again is what is already there. -/
theorem UploadSound.again (h : UploadSound packages file content upload)
    (hrequest : RequestSound packages file content request)
    (hindex : request.index < upload.received) :
    { upload with chunks := upload.chunks.set request.index request.data } = upload := by
  have hget : upload.chunks[request.index]? = some request.data := by
    rw [h.chunks, getElem?_sealedChunks hindex, hrequest.data]
  obtain ⟨hlt, heq⟩ := List.getElem?_eq_some_iff.mp hget
  rw [← heq, List.set_getElem_self]

/-- The chunk that is wanted next. -/
theorem UploadSound.next {last : Bool} (h : UploadSound packages file content upload)
    (hrequest : RequestSound packages file content request)
    (hindex : request.index = upload.received)
    (hlast : last = true → request.index + 1 = total file content) :
    UploadSound packages file content
      { upload with chunks := upload.chunks ++ [request.data], finished := last } := by
  have hreceived : ({ upload with chunks := upload.chunks ++ [request.data], finished := last } :
      StoredUpload).received = upload.received + 1 := by
    simp [StoredUpload.received]
  have hlt := hrequest.index_lt
  have hrange := hrequest.inRange
  refine ⟨h.chunkSize, h.fileSize, h.chunkCount, ?_, ?_, ?_, ?_⟩
  · rw [hreceived, sealedChunks_succ, ← h.chunks, hrequest.data, hindex]
  · rw [hreceived]
    omega
  · rw [hreceived]
    omega
  · intro hfinished
    rw [hreceived, ← hindex]
    exact hlast hfinished

variable {server : Server}

/-- All that a sound request can do to an open upload: nothing, or it adds the
wanted chunk, which finishes the upload exactly when it is the last one. -/
theorem store_cases (hupload : server.upload = some upload)
    (h : UploadSound packages file content upload)
    (hrequest : RequestSound packages file content request) :
    ((∃ e, server.store upload request = (.error e, server)) ∨
      (server.store upload request = (.ok upload.ack, server))) ∨
    (request.index = upload.received ∧ upload.finished = false ∧
      server.store upload request = server.accept upload request.data request.isLast) := by
  have hlt := hrequest.index_lt
  rw [Server.store]
  split_ifs with hempty hlarge hahead hbehind hfinished
  · exact .inl (.inl ⟨_, rfl⟩)
  · exact .inl (.inl ⟨_, rfl⟩)
  · exact .inl (.inl ⟨_, rfl⟩)
  · have hsame : { server with upload := some upload } = server := by rw [← hupload]
    refine .inl (.inr ?_)
    rw [h.again hrequest hbehind]
    simp only [hsame]
  · exact .inl (.inl ⟨_, rfl⟩)
  · have hindex : request.index = upload.received := by omega
    refine .inr ⟨hindex, by simpa using hfinished, ?_⟩
    rcases h.chunkCount with hcount | hcount
    · rw [hcount]
    · rw [hcount]
      simp only
      have hlast := hrequest.isLast
      rw [if_neg (by omega), if_neg (by simp [hlast]), hlast]

theorem chunk_sound (h : ServerSound packages state file content server)
    (hrequest : RequestSound packages file content request) :
    ServerSound packages state file content (server.chunk request).2 := by
  rw [Server.chunk]
  rcases hupload : server.upload with _ | upload
  · exact h
  simp only
  split_ifs with hid
  · exact h
  have hsound := h.upload upload hupload
  rcases store_cases hupload hsound hrequest with (⟨e, hstore⟩ | hstore) | ⟨hindex, _, hstore⟩
  · rw [hstore]
    exact h
  · rw [hstore]
    exact h
  · rw [hstore, Server.accept]
    refine ⟨h.mxc, ?_, h.media⟩
    intro upload' hupload'
    cases hupload'
    exact hsound.next hrequest hindex fun hlast => by
      rw [hrequest.isLast] at hlast
      simpa using hlast

/-- An unfinished upload stays so until its last chunk. -/
theorem chunk_unfinished (h : ServerSound packages state file content server)
    (hrequest : RequestSound packages file content request) (hunfinished : Unfinished server)
    (hlast : request.isLast = false) :
    Unfinished (server.chunk request).2 ∧
      ∀ ack, (server.chunk request).1 = .ok ack → ack.finished = false := by
  rw [Server.chunk]
  rcases hupload : server.upload with _ | upload
  · exact ⟨hunfinished, fun ack hack => by cases hack⟩
  simp only
  split_ifs with hid
  · exact ⟨hunfinished, fun ack hack => by cases hack⟩
  have hfinished : upload.finished = false := hunfinished upload hupload
  rcases store_cases hupload (h.upload upload hupload) hrequest with
    (⟨e, hstore⟩ | hstore) | ⟨_, _, hstore⟩
  · rw [hstore]
    exact ⟨hunfinished, fun ack hack => by cases hack⟩
  · rw [hstore]
    refine ⟨hunfinished, fun ack hack => ?_⟩
    cases hack
    exact hfinished
  · rw [hstore, Server.accept, hlast]
    refine ⟨?_, fun ack hack => ?_⟩
    · intro upload' hupload'
      cases hupload'
      rfl
    · cases hack
      rfl

variable {block : ChunkedBlock}

theorem FinalBlock.of_fileCipher (h : FinalBlock packages state content block)
    (hfile : state.fileCipher = .ok file) :
    block.checkAsEventBlock = .ok () ∧ FileCipher.fromEventBlock block = .ok file ∧
      block.fileSize = some content.length ∧ block.chunkSize = file.chunkSize := by
  obtain ⟨hv, hcipher, hkey, hbase, hsize, hpos⟩ := UploadState.params_of_fileCipher hfile
  have hfields := h.eq
  have hparams : block.v = conventionV ∧ block.cipher = file.cipher ∧ block.key = file.key ∧
      block.nonceBase = file.nonceBase ∧ block.chunkSize = file.chunkSize ∧
      block.fileSize = some content.length := by
    rw [hfields]
    exact ⟨hv, hcipher, hkey, hbase, hsize, rfl⟩
  obtain ⟨hv', hcipher', hkey', hbase', hsize', hlength⟩ := hparams
  obtain ⟨hcheck, hblock⟩ := FileCipher.fromEventBlock_of_params hv' hcipher' hkey' hbase' hsize'
    hpos (by rw [hlength]; rfl)
  exact ⟨hcheck, hblock, hlength, hsize'⟩

theorem bothOrAbsent_self {α : Type} [DecidableEq α] (x : Option α) :
    ChunkedBlock.bothOrAbsent x x = true := by cases x <;> simp [ChunkedBlock.bothOrAbsent]

/-- Two final blocks agree, also when only one of them has the digest. -/
theorem FinalBlock.consistent {a b : ChunkedBlock} (ha : FinalBlock packages state content a)
    (hb : FinalBlock packages state content b) :
    a.isConsistentWithDescription b.toDescription = true := by
  have hsha : ChunkedBlock.bothOrAbsent a.sha256 b.sha256 = true := by
    rcases ha.sha256 with h | h <;> rcases hb.sha256 with h' | h' <;> rw [h, h'] <;>
      simp [ChunkedBlock.bothOrAbsent]
  have hsame : a = { b with sha256 := a.sha256 } := by rw [ha.eq, hb.eq]
  refine decide_eq_true ⟨?_, ?_, ?_, ?_, ?_, ?_, ?_, hsha⟩
  · rw [hsame]
    rfl
  · rw [hsame]
    rfl
  · rw [hsame]
    rfl
  · rw [hsame]
    rfl
  · rw [hsame]
    exact bothOrAbsent_self _
  · rw [hsame]
    exact bothOrAbsent_self _
  · rw [hsame]
    exact bothOrAbsent_self _

theorem seal_sound {request : SealRequest} (h : ServerSound packages state file content server)
    (hblock : FinalBlock packages state content block)
    (hrequest : request.description = file.sealDescription packages .seal (block.toDescriptionJson
      packages)) :
    ServerSound packages state file content (server.seal request).2 ∧
      (server.media.isSome = true → (server.seal request).2.media.isSome = true) ∧
      ∀ ack, (server.seal request).1 = .ok ack → (server.seal request).2.media.isSome = true := by
  have hnil : request.description ≠ [] := by
    rw [hrequest]
    exact FileCipher.sealWithIndex_ne_nil packages file _ _ (packages.toJson_ne_nil _)
  have hempty : request.description.isEmpty = false := List.isEmpty_eq_false_iff.mpr hnil
  rw [Server.seal]
  rcases hupload : server.upload with _ | upload
  · exact ⟨h, id, fun ack hack => by cases hack⟩
  simp only [hempty, Bool.false_eq_true, if_false]
  split_ifs with hid hopen hkeep
  · exact ⟨h, id, fun ack hack => by cases hack⟩
  · exact ⟨h, id, fun ack hack => by cases hack⟩
  all_goals
    have hsound := h.upload upload hupload
    have hreceived : upload.received = total file content := hsound.finished (by simpa using hopen)
    have hmedia : MediaSound packages state file content
        { chunkSize := upload.chunkSize, fileSize := upload.fileSize, chunks := upload.chunks,
          description := request.description } := by
      refine ⟨hsound.chunkSize, hsound.fileSize, ?_, ?_, block, hblock, hrequest⟩
      · rw [← hreceived]
        exact hsound.chunks
      · rw [← hreceived]
        exact hsound.inRange
    refine ⟨⟨h.mxc, ?_, ?_⟩, fun _ => rfl, fun _ _ => rfl⟩
  · intro upload' hupload'
    cases hupload'
    exact hsound
  · intro media hmem
    cases hmem
    exact hmedia
  · intro upload' hupload'
    cases hupload'
  · intro media hmem
    cases hmem
    exact hmedia

variable (packages state file content) in
/-- Between two rounds of a loop that sends a stream. -/
structure StreamSound (loop : Streaming) : Prop where
  chunkSize : loop.chunkSize = file.chunkSize
  absorbed : loop.absorbed = content.take (loop.index * file.chunkSize)
  fileSize : loop.fileSize = loop.absorbed.length
  pending : loop.pending = piece file.chunkSize loop.index content
  pending_ne : loop.pending ≠ []

variable (packages state file content) in
structure SendChunksSound (loop : SendChunks) : Prop where
  fileSize : loop.fileSize = content.length
  chunkSize : loop.chunkSize = file.chunkSize
  count : chunkCount content.length file.chunkSize = some loop.total
  known : state.block.fileSize = some content.length

variable (packages state file content) in
structure SizedBodySound (loop : SizedBody) : Prop where
  size : loop.size = content.length
  chunkSize : loop.chunkSize = file.chunkSize
  count : chunkCount content.length file.chunkSize = some loop.total
  absorbed : loop.absorbed = content.take (loop.index * file.chunkSize)

variable (packages state file content) in
/-- A loop that sends a stream was begun early. -/
def LoopSound (early : Prop) : Loop → Prop
  | .sendChunks loop => SendChunksSound state file content loop
  | .sendStream loop => StreamSound file content loop ∧ early
  | .sendSizedBody loop => SizedBodySound file content loop
  | .sendStreamedBody loop => StreamSound file content loop ∧ early

variable (file content) in
/-- After a loop that sends a stream has sent a chunk, and before it has looked
at the answer. -/
structure StreamSent (sent : Nat) (last : Bool) (loop : Streaming) : Prop where
  chunkSize : loop.chunkSize = file.chunkSize
  index : loop.index = sent
  absorbed : loop.absorbed = content.take ((sent + 1) * file.chunkSize)
  fileSize : loop.fileSize = loop.absorbed.length
  pending : loop.pending = piece file.chunkSize (sent + 1) content
  isLast : last = loop.pending.isEmpty

variable (packages state file content) in
def SentSound (early : Prop) (index : Nat) (isLast : Bool) : Loop → Prop
  | .sendChunks loop => SendChunksSound state file content loop
  | .sendStream loop => StreamSent file content index isLast loop ∧ early
  | .sendSizedBody loop => SizedBodySound file content loop
  | .sendStreamedBody loop => StreamSent file content index isLast loop ∧ early

variable (packages content) in
structure SummarySound (summary : SentSummary) : Prop where
  fileSize : summary.fileSize = content.length
  sha256 : summary.sha256 = none ∨ summary.sha256 = some (packages.sha256Hex content)

variable (packages state file content) in
/-- What a loop does next is about the content. -/
def NextSound (early : Prop) : Next Loop → Prop
  | .send index plain isLast after =>
      plain = piece file.chunkSize index content ∧ index < total file content ∧
        isLast = decide (index + 1 = total file content) ∧
        SentSound state file content early index isLast after
  | .skip after => LoopSound state file content early after
  | .done summary => SummarySound packages content summary

theorem lt_total_iff (hpos : 0 < file.chunkSize) (index : Nat) :
    index < total file content ↔ index * file.chunkSize < content.length := by
  rw [total, ← not_le, divCeil_le_iff hpos, not_le]

theorem piece_eq_nil_iff (hpos : 0 < file.chunkSize) (index : Nat) :
    piece file.chunkSize index content = [] ↔ total file content ≤ index := by
  rw [← List.length_eq_zero_iff, length_piece, ← not_lt, lt_total_iff hpos]
  omega

/-- A piece is empty behind the last one only. -/
theorem isEmpty_piece_succ (hpos : 0 < file.chunkSize) (hindex : index < total file content) :
    (piece file.chunkSize (index + 1) content).isEmpty =
      decide (index + 1 = total file content) := by
  rw [Bool.eq_iff_iff, List.isEmpty_iff, piece_eq_nil_iff hpos, decide_eq_true_eq]
  omega

theorem total_of_count (h : chunkCount content.length file.chunkSize = some count) :
    total file content = count := (chunkCount_eq_some_iff.mp h).2.2.symm

theorem readExact_chunk (h : chunkCount content.length file.chunkSize = some count)
    (hindex : index < count) :
    ByteFile.readExact content (index * file.chunkSize)
        (min (content.length - index * file.chunkSize) file.chunkSize) =
      some (piece file.chunkSize index content) := by
  have hbegin := (lt_chunkCount_iff h).mp hindex
  rw [ByteFile.readExact, if_pos (by omega), piece, Option.some.injEq, List.take_eq_take_iff,
    List.length_drop]
  omega

theorem stream_next_sound (hpos : 0 < file.chunkSize) {loop : Streaming}
    (h : StreamSound file content loop) :
    ∃ isLast after, loop.next (content.drop (loop.absorbed.length + loop.pending.length)) =
        .send loop.index (piece file.chunkSize loop.index content) isLast after ∧
      loop.index < total file content ∧
      isLast = decide (loop.index + 1 = total file content) ∧
      StreamSent file content loop.index isLast after := by
  have hindex : loop.index < total file content := by
    have hne := h.pending_ne
    rw [h.pending, ne_eq, piece_eq_nil_iff hpos] at hne
    omega
  have hbegin := (lt_total_iff hpos _).mp hindex
  have hsucc : (loop.index + 1) * file.chunkSize =
      loop.index * file.chunkSize + file.chunkSize := by
    rw [Nat.add_mul, Nat.one_mul]
  have habsorbed : loop.absorbed.length = loop.index * file.chunkSize := by
    rw [h.absorbed, List.length_take]
    omega
  have hpending : loop.pending.length =
      min file.chunkSize (content.length - loop.index * file.chunkSize) := by
    rw [h.pending, length_piece]
  have hahead : loop.lookAhead
      (content.drop (loop.absorbed.length + loop.pending.length)) =
      piece file.chunkSize (loop.index + 1) content := by
    rw [Streaming.lookAhead, h.chunkSize]
    split_ifs with hshort
    · rw [eq_comm, ← List.length_eq_zero_iff, length_piece, hsucc]
      omega
    · have hat : loop.absorbed.length + loop.pending.length =
          (loop.index + 1) * file.chunkSize := by omega
      rw [hat, piece]
  have hlast := isEmpty_piece_succ hpos hindex
  refine ⟨_, {
      loop with
      fileSize := loop.fileSize + loop.pending.length
      absorbed := loop.absorbed ++ loop.pending
      pending := piece file.chunkSize (loop.index + 1) content }, ?_, hindex, hlast, ?_⟩
  · rw [Streaming.next, hahead, ← h.pending]
  · refine ⟨h.chunkSize, rfl, ?_, ?_, rfl, rfl⟩
    · simp only
      rw [h.absorbed, h.pending, take_succ_mul]
    · simp only
      rw [h.fileSize, List.length_append]

variable {early : Prop}

theorem sendChunks_next_sound {loop : SendChunks} {next : Next SendChunks}
    (h : SendChunksSound state file content loop) (hnext : loop.next packages content = .ok next) :
    NextSound packages state file content early (next.map .sendChunks) := by
  have htotal := total_of_count h.count
  rw [SendChunks.next, h.fileSize, h.chunkSize] at hnext
  split_ifs at hnext with hindex hhash
  · rw [expectedPlainLen_of_lt h.count hindex] at hnext
    simp only at hnext
    rw [if_neg (by omega), readExact_chunk h.count hindex] at hnext
    cases hnext
    exact ⟨rfl, by omega, by rw [htotal], h⟩
  · have hread : ByteFile.readExact content 0 content.length = some content := by
      rw [ByteFile.readExact, if_pos (by omega)]
      simp
    rw [SendChunks.hashReader, hread] at hnext
    cases hnext
    exact ⟨rfl, .inr rfl⟩
  · cases hnext
    exact ⟨rfl, .inl rfl⟩

theorem sizedBody_next_sound {loop : SizedBody} {next : Next SizedBody}
    (h : SizedBodySound file content loop)
    (hnext : loop.next packages (content.drop loop.absorbed.length) = .ok next) :
    NextSound packages state file content early (next.map .sendSizedBody) := by
  have htotal := total_of_count h.count
  rw [SizedBody.next, h.size, h.chunkSize] at hnext
  by_cases hindex : loop.index < loop.total
  · rw [if_pos hindex] at hnext
    have hbegin := (lt_chunkCount_iff h.count).mp hindex
    have habsorbed : loop.absorbed.length = loop.index * file.chunkSize := by
      rw [h.absorbed, List.length_take]
      omega
    have hplain : (content.drop loop.absorbed.length).take
        (min (content.length - loop.index * file.chunkSize) file.chunkSize) =
        piece file.chunkSize loop.index content := by
      rw [habsorbed, piece, List.take_eq_take_iff, List.length_drop]
      omega
    have hlength := length_piece file.chunkSize loop.index content
    rw [expectedPlainLen_of_lt h.count hindex] at hnext
    simp only at hnext
    rw [if_neg (by omega), hplain, if_neg (by omega)] at hnext
    have hafter : SizedBodySound file content
        { loop with size := content.length, chunkSize := file.chunkSize, index := loop.index + 1,
                    absorbed := loop.absorbed ++ piece file.chunkSize loop.index content } := by
      refine ⟨rfl, rfl, h.count, ?_⟩
      simp only
      rw [h.absorbed, take_succ_mul]
    by_cases hskip : loop.index < loop.nextWanted
    · rw [if_pos hskip] at hnext
      cases hnext
      exact hafter
    · rw [if_neg hskip] at hnext
      cases hnext
      exact ⟨rfl, by omega, by rw [htotal], hafter⟩
  · rw [if_neg hindex] at hnext
    split_ifs at hnext with hend
    cases hnext
    rw [List.isEmpty_iff, List.drop_eq_nil_iff, h.absorbed, List.length_take] at hend
    refine ⟨rfl, .inr ?_⟩
    simp only
    rw [h.absorbed, List.take_of_length_le (by omega)]

/-- What any loop does next with what it can read is about the content. -/
theorem next_sound (hpos : 0 < file.chunkSize) {loop : Loop} {next : Next Loop}
    (h : LoopSound state file content early loop)
    (hnext : loop.next packages (remaining content loop) = .ok next) :
    NextSound packages state file content early next := by
  cases loop with
  | sendChunks loop =>
    rw [Loop.next, remaining] at hnext
    cases hinner : loop.next packages content with
    | error e =>
      rw [hinner] at hnext
      cases hnext
    | ok inner =>
      rw [hinner] at hnext
      cases hnext
      exact sendChunks_next_sound h hinner
  | sendStream loop | sendStreamedBody loop =>
    obtain ⟨isLast, after, hinner, hindex, hlast, hafter⟩ := stream_next_sound hpos h.1
    rw [Loop.next, remaining, hinner] at hnext
    cases hnext
    exact ⟨rfl, hindex, hlast, hafter, h.2⟩
  | sendSizedBody loop =>
    rw [Loop.next, remaining] at hnext
    cases hinner : loop.next packages (content.drop loop.absorbed.length) with
    | error e =>
      rw [hinner] at hnext
      cases hnext
    | ok inner =>
      rw [hinner] at hnext
      cases hnext
      exact sizedBody_next_sound h hinner

variable (packages state file content) in
def ProgressSound (early : Prop) : Progress Loop → Prop
  | .more loop => LoopSound state file content early loop
  | .done summary => SummarySound packages content summary

/-- After the last chunk the whole stream has been absorbed. -/
theorem StreamSent.summary {loop : Streaming} {sent : Nat} (hpos : 0 < file.chunkSize)
    (h : StreamSent file content sent true loop) (truncated : Bool) :
    SummarySound packages content (loop.summary packages truncated) := by
  have hempty : (piece file.chunkSize (sent + 1) content).length = 0 := by
    rw [List.length_eq_zero_iff, ← h.pending, ← List.isEmpty_iff]
    exact h.isLast.symm
  rw [length_piece] at hempty
  have hwhole : loop.absorbed = content := by rw [h.absorbed, List.take_of_length_le (by omega)]
  refine ⟨?_, .inr ?_⟩
  · simp only [Streaming.summary]
    rw [h.fileSize, hwhole]
  · simp only [Streaming.summary]
    rw [hwhole]

theorem StreamSent.more {loop : Streaming} {sent : Nat}
    (h : StreamSent file content sent false loop) :
    StreamSound file content { loop with index := loop.index + 1 } := by
  refine ⟨h.chunkSize, ?_, h.fileSize, ?_, ?_⟩
  · simp only
    rw [h.index]
    exact h.absorbed
  · simp only
    rw [h.index]
    exact h.pending
  · simp only
    rw [ne_eq, ← List.isEmpty_iff, ← h.isLast]
    decide

variable {answer : Except SdkError ChunkAck}

/-- An answer moves the loop that sends a file to some chunk of the same
file. -/
theorem sendChunks_answered {loop loop' : SendChunks} (h : loop.answered index answer = .ok loop') :
    ∃ next truncated, loop' = { loop with index := next, truncated := truncated } := by
  cases answer with
  | ok ack =>
    cases h
    exact ⟨ack.received, ack.truncated, rfl⟩
  | error e =>
    simp only [SendChunks.answered] at h
    split_ifs at h
    cases hexpected : expectedSeqOf e with
    | none =>
      rw [hexpected] at h
      cases h
    | some expected =>
      rw [hexpected] at h
      simp only at h
      split_ifs at h
      cases h
      exact ⟨expected, loop.truncated, rfl⟩

theorem sizedBody_answered {loop loop' : SizedBody} (h : loop.answered index answer = .ok loop') :
    ∃ next truncated, loop' = { loop with nextWanted := next, truncated := truncated } := by
  cases answer with
  | ok ack =>
    cases h
    exact ⟨ack.received, loop.truncated || ack.truncated, rfl⟩
  | error e =>
    simp only [SizedBody.answered] at h
    cases hexpected : expectedSeqOf e with
    | none =>
      rw [hexpected] at h
      cases h
    | some expected =>
      rw [hexpected] at h
      simp only at h
      split_ifs at h
      cases h
      exact ⟨min expected 0xFFFFFFFF, loop.truncated, rfl⟩

/-- What a loop makes of the answer. The server must not claim to have finished
before the last chunk, which a loop that sends a stream would believe. -/
theorem answered_sound (hpos : 0 < file.chunkSize) {early' : Prop} {after : Loop} {isLast : Bool}
    {progress : Progress Loop} (h : SentSound state file content early index isLast after)
    (hearly : early → isLast = false → early')
    (hfinished : ∀ ack, answer = .ok ack → early → isLast = false → ack.finished = false)
    (hprogress : after.answered packages index isLast answer = .ok progress) :
    ProgressSound packages state file content early' progress := by
  cases after with
  | sendChunks loop =>
    obtain ⟨loop', hloop, rfl⟩ := map_eq_ok hprogress
    obtain ⟨next, truncated, rfl⟩ := sendChunks_answered hloop
    exact ⟨h.fileSize, h.chunkSize, h.count, h.known⟩
  | sendStream loop =>
    obtain ⟨progress', hinner, rfl⟩ := map_eq_ok hprogress
    obtain ⟨hsent, hbegun⟩ := h
    cases answer with
    | error e => cases hinner
    | ok ack =>
      cases isLast with
      | true =>
        cases hinner
        exact hsent.summary hpos ack.truncated
      | false =>
        simp only [SendStream.answered, hfinished ack rfl hbegun rfl, Bool.false_eq_true,
          or_self, if_false] at hinner
        cases hinner
        exact ⟨hsent.more, hearly hbegun rfl⟩
  | sendSizedBody loop =>
    obtain ⟨loop', hloop, rfl⟩ := map_eq_ok hprogress
    obtain ⟨next, truncated, rfl⟩ := sizedBody_answered hloop
    exact ⟨h.size, h.chunkSize, h.count, h.absorbed⟩
  | sendStreamedBody loop =>
    obtain ⟨progress', hinner, rfl⟩ := map_eq_ok hprogress
    obtain ⟨hsent, hbegun⟩ := h
    cases answer with
    | error e => cases hinner
    | ok ack =>
      cases isLast with
      | true =>
        cases hinner
        exact hsent.summary hpos ack.truncated
      | false =>
        simp only [SendStreamedBody.answered, hfinished ack rfl hbegun rfl,
          Bool.false_eq_true, or_self, if_false] at hinner
        split_ifs at hinner
        cases hinner
        exact ⟨hsent.more, hearly hbegun rfl⟩

variable (packages state file content) in
structure TaskSound (early : Prop) (task : Task) : Prop where
  ofState : task.state = state
  ofFile : task.file = file
  ofLoop : LoopSound state file content early task.loop

variable (file content) in
/-- A stream is begun early when the server has not finished, or when its first
chunk is its last. -/
def Early (server : Server) : Prop :=
  Unfinished server ∨ content.length ≤ file.chunkSize

theorem chunk_media (server : Server) (request : ChunkRequest) :
    (server.chunk request).2.media = server.media := by
  rw [Server.chunk]
  rcases server.upload with _ | upload
  · rfl
  · simp only [Server.store]
    split_ifs
    all_goals try rfl
    rcases upload.chunkCount with _ | count
    · rfl
    · simp only
      split_ifs <;> rfl

variable (packages state file content) in
/-- After a round on the honest server, the server is as it should be, a call
that goes on is about the content, and one that returns tells the truth. -/
structure OutcomeSound (before : Server)
    (outcome : Outcome (Progress Task) (Server × List Fault)) : Prop where
  server : ServerSound packages state file content outcome.rest.1
  media : outcome.rest.1.media = before.media
  more : ∀ task, outcome.result = .ok (.more task) →
    TaskSound state file content (Early file content outcome.rest.1) task
  done : ∀ summary, outcome.result = .ok (.done summary) → SummarySound packages content summary

theorem outcomeSound_error {faults : List Fault} {e : SdkError}
    (h : ServerSound packages state file content server) :
    OutcomeSound packages state file content server
      { sealed := [], result := .error e, rest := (server, faults) } where
  server := h
  media := rfl
  more := by
    intro task htask
    cases htask
  done := by
    intro summary hsummary
    cases hsummary

/-- A content of one chunk has no chunk after the first. -/
theorem isLast_of_single (hpos : 0 < file.chunkSize) (hsingle : content.length ≤ file.chunkSize)
    (hindex : index < total file content) : index + 1 = total file content := by
  have hle : total file content ≤ 1 := by
    rw [total, divCeil_le_iff hpos]
    omega
  omega

variable {task : Task}

theorem send_sound (hpos : 0 < file.chunkSize) {faults : List Fault} {data : List UInt8}
    {isLast : Bool} {after : Loop} {sealed : List (Sealing.Sealed FileKey (List UInt8))}
    (hserver : ServerSound packages state file content server)
    (htask : TaskSound state file content (Early file content server) task)
    (hindex : index < total file content) (hlast : isLast = decide (index + 1 = total file content))
    (hsent : SentSound state file content (Early file content server) index isLast after)
    (hseal : task.file.sealChunk packages index (piece file.chunkSize index content) = .ok data) :
    let reply := sendChunk (overLink Server.chunk)
      { uploadId := task.state.uploadId, index := index, data := data, isLast := isLast }
      (server, faults)
    OutcomeSound packages state file content server
      { sealed := sealed
        result := (after.answered packages index isLast reply.1).map
          (Progress.map fun loop => { task with loop := loop })
        rest := reply.2 } := by
  intro reply
  obtain ⟨hrange, _, hdata⟩ := FileCipher.sealChunk_eq_ok_iff.mp hseal
  rw [htask.ofFile] at hdata
  have hrequest : RequestSound packages file content
      { uploadId := task.state.uploadId, index := index, data := data, isLast := isLast } :=
    ⟨hdata, hindex, hrange, hlast⟩
  have hunfinished : Early file content server → isLast = false → Unfinished server := by
    rintro (hserver' | hsingle) hmore
    · exact hserver'
    · rw [hlast, decide_eq_false_iff_not] at hmore
      exact absurd (isLast_of_single hpos hsingle hindex) hmore
  -- The link may hand the request on twice: what one delivery keeps, two keep.
  obtain ⟨⟨hsound, hmedia, hstill⟩, htells⟩ := sendChunk_overLink
    { uploadId := task.state.uploadId, index := index, data := data, isLast := isLast }
    (fun server' (h : ServerSound packages state file content server' ∧
        server'.media = server.media ∧
        (Early file content server → isLast = false → Unfinished server')) =>
      ⟨chunk_sound h.1 hrequest, (chunk_media server' _).trans h.2.1,
        fun hearly hmore => (chunk_unfinished h.1 hrequest (h.2.2 hearly hmore) hmore).1⟩)
    (fun server' ack h hack hearly hmore =>
      (chunk_unfinished h.1 hrequest (h.2.2 hearly hmore) hmore).2 ack hack)
    server faults ⟨hserver, rfl, hunfinished⟩
  have hprogress : ∀ progress, after.answered packages index isLast reply.1 = .ok progress →
      ProgressSound packages state file content (Early file content reply.2.1) progress :=
    fun progress h => answered_sound hpos hsent
      (fun hearly hmore => .inl (hstill hearly hmore)) htells h
  refine ⟨hsound, hmedia, ?_, ?_⟩
  · intro task' h
    obtain ⟨progress, hanswered, hmap⟩ := map_eq_ok h
    cases progress with
    | done summary => cases hmap
    | more loop =>
      cases hmap
      exact ⟨htask.ofState, htask.ofFile, hprogress _ hanswered⟩
  · intro summary h
    obtain ⟨progress, hanswered, hmap⟩ := map_eq_ok h
    cases progress with
    | more loop => cases hmap
    | done summary' =>
      cases hmap
      exact hprogress _ hanswered

theorem turn_sound (hpos : 0 < file.chunkSize)
    (hserver : ServerSound packages state file content server)
    (htask : TaskSound state file content (Early file content server) task) (faults : List Fault) :
    OutcomeSound packages state file content server
      (task.turn packages (overLink Server.chunk) (remaining content task.loop)
        (server, faults)) := by
  rw [Task.turn]
  rcases hnext : task.loop.next packages (remaining content task.loop) with e | next
  · exact outcomeSound_error hserver
  have hsound := next_sound hpos htask.ofLoop hnext
  cases next with
  | done summary =>
    refine ⟨hserver, rfl, ?_, ?_⟩
    · intro task' h
      cases h
    · intro summary' h
      cases h
      exact hsound
  | skip after =>
    refine ⟨hserver, rfl, ?_, ?_⟩
    · intro task' h
      cases h
      exact ⟨htask.ofState, htask.ofFile, hsound⟩
    · intro summary h
      cases h
  | send index plain isLast after =>
    obtain ⟨rfl, hindex, hlast, hsent⟩ := hsound
    simp only
    rcases hseal : task.file.sealChunk packages index
      (piece file.chunkSize index content) with e | data
    · exact outcomeSound_error hserver
    · exact send_sound hpos hserver htask hindex hlast hsent hseal

/-- An answer to the status request is the server's own. -/
theorem status_of_statusOverLink {uploadId : Nat} {fault : Fault} {ack : StatusAck}
    (h : statusOverLink server uploadId fault = .ok ack) : server.status uploadId = .ok ack := by
  cases fault with
  | delivered => exact h
  | refused failure | replyLost failure => cases h

/-- A server that has no chunk of a content has not finished it. -/
theorem unfinished_of_status (hpos : 0 < file.chunkSize) {uploadId : Nat} {ack : StatusAck}
    (hserver : ServerSound packages state file content server) (hcontent : content ≠ [])
    (hstatus : server.status uploadId = .ok ack) (hreceived : ack.received = 0) :
    Unfinished server := by
  intro upload hupload
  rw [Server.status, hupload] at hstatus
  simp only at hstatus
  split_ifs at hstatus
  cases hstatus
  have hsome : 0 < total file content := by
    rw [lt_total_iff hpos]
    have := List.length_pos_iff.mpr hcontent
    omega
  by_contra hfinished
  have hall := (hserver.upload upload hupload).finished (by simpa using hfinished)
  simp only at hreceived
  omega

theorem streamSound_start (hpending : content.take file.chunkSize ≠ []) :
    StreamSound file content
      (Streaming.start file.chunkSize (content.take file.chunkSize)) := by
  refine ⟨rfl, ?_, rfl, ?_, hpending⟩
  · simp [Streaming.start]
  · simp [Streaming.start, piece]

/-- A call begins with a loop about the content. -/
theorem start_sound (hpos : 0 < file.chunkSize) {call : Call} {fault : Fault}
    (hfile : state.fileCipher = .ok file)
    (hsize : state.block.fileSize = none ∨ state.block.fileSize = some content.length)
    (hserver : ServerSound packages state file content server)
    (hearly : call = .sendStream → Early file content server)
    (h : call.start state (statusOverLink server state.uploadId fault) content = .ok task) :
    TaskSound state file content (Early file content server) task := by
  have hchunkSize := (UploadState.params_of_fileCipher hfile).2.2.2.2.1
  have hof : task.file = file := by
    have hsame := (Call.start_fileCipher h).symm.trans hfile
    simpa using hsame
  obtain ⟨⟨file', loop⟩, hloop, rfl⟩ := map_eq_ok h
  refine ⟨rfl, hof, ?_⟩
  rcases Call.startLoop_cases hloop with ⟨fromChunk, hash, chunks, hstart, rfl⟩ |
    ⟨stream, rfl, hstart, rfl⟩ | ⟨serverUrl, userId, hstart⟩
  · obtain ⟨_, fileSize, count, hknown, hcount, rfl⟩ := SendChunks.start_eq_ok hstart
    have hlength : fileSize = content.length := by
      rcases hsize with hnone | hsome
      · rw [hnone] at hknown
        cases hknown
      · rw [hsome] at hknown
        simpa using hknown.symm
    rw [hlength, hchunkSize] at hcount
    exact ⟨hlength, hchunkSize, hcount, hlength ▸ hknown⟩
  · obtain ⟨_, hpending, rfl⟩ := SendStream.start_eq_ok hstart
    rw [hchunkSize] at hpending ⊢
    exact ⟨streamSound_start hpending, hearly rfl⟩
  · obtain ⟨_, ⟨size, body, hknown, hbody, rfl⟩ | ⟨stream, hstream, rfl⟩⟩ :=
      receiveUpload.start_eq_ok hstart
    · obtain ⟨count, ack, hcount, rfl⟩ := SizedBody.start_eq_ok hbody
      have hlength : size = content.length := by
        rcases hsize with hnone | hsome
        · rw [hnone] at hknown
          cases hknown
        · rw [hsome] at hknown
          simpa using hknown.symm
      rw [hlength, hchunkSize] at hcount
      refine ⟨hlength, hchunkSize, hcount, ?_⟩
      simp
    · obtain ⟨⟨ack, hstatus, hreceived⟩, hpending, rfl⟩ := SendStreamedBody.start_eq_ok hstream
      have hcontent : content ≠ [] := fun hnil => hpending (by rw [hnil]; simp)
      rw [hchunkSize] at hpending ⊢
      exact ⟨streamSound_start hpending,
        .inl (unfinished_of_status hpos hserver hcontent
          (status_of_statusOverLink hstatus) hreceived)⟩

theorem finalBlock_sound {summary : SentSummary} (htask : TaskSound state file content early task)
    (h : SummarySound packages content summary) :
    FinalBlock packages state content (task.finalBlock summary) := by
  rw [Task.finalBlock]
  cases hloop : task.loop with
  | sendChunks loop =>
    have hsound := htask.ofLoop
    rw [hloop] at hsound
    refine ⟨?_, h.sha256⟩
    simp only [htask.ofState]
    rw [← hsound.known]
  | sendStream loop | sendSizedBody loop | sendStreamedBody loop =>
    refine ⟨?_, h.sha256⟩
    simp only [htask.ofState, h.fileSize]

theorem seal_unfinished (request : SealRequest) (h : Unfinished server) :
    Unfinished (server.seal request).2 := by
  rw [Server.seal]
  cases hupload : server.upload with
  | none => exact h
  | some upload =>
    simp only [h upload hupload, if_true]
    split_ifs <;> exact h

section

variable (hfile : state.fileCipher = .ok file)

include hfile

/-- Sealing over the link: the server stays as it should be, what was
published stays published, and a manifest comes with published media. -/
theorem sealUpload_sound (hserver : ServerSound packages state file content server)
    (hblock : FinalBlock packages state content block) (faults : List Fault) :
    let outcome := sealUpload packages (overLink Server.seal) state block (server, faults)
    ServerSound packages state file content outcome.rest.1 ∧
      (Unfinished server → Unfinished outcome.rest.1) ∧
      (server.media.isSome = true → outcome.rest.1.media.isSome = true) ∧
      ∀ manifest, outcome.result = .ok manifest →
        manifest.mxc = state.mxc ∧ manifest.block = block ∧
          outcome.rest.1.media.isSome = true := by
  have hcheck := (hblock.of_fileCipher hfile).1
  simp only [sealUpload, hcheck, hfile]
  have hrequest : ({
      uploadId := state.uploadId,
      description := file.sealDescription packages .seal
        (block.toDescriptionJson packages) } : SealRequest).description =
      file.sealDescription packages .seal (block.toDescriptionJson packages) := rfl
  obtain ⟨hsound, hkept, hanswered⟩ := seal_sound hserver hblock hrequest
  have hopen := @seal_unfinished server
    { uploadId := state.uploadId,
      description := file.sealDescription packages .seal (block.toDescriptionJson packages) }
  rcases overLink_cases Server.seal
      { uploadId := state.uploadId,
        description := file.sealDescription packages .seal (block.toDescriptionJson packages) }
      server faults with ⟨hstate, e, hanswer⟩ | ⟨hstate, hanswer | ⟨e, hanswer⟩⟩
  · rw [hstate, hanswer]
    exact ⟨hserver, id, id, fun manifest h => by cases h⟩
  · rw [hstate, hanswer]
    refine ⟨hsound, hopen, hkept, fun manifest h => ?_⟩
    rcases hack : (server.seal _).1 with e | ack
    · rw [hack] at h
      cases h
    · rw [hack] at h
      simp only at h
      split_ifs at h
      cases h
      exact ⟨rfl, rfl, hanswered ack hack⟩
  · rw [hstate, hanswer]
    exact ⟨hsound, hopen, hkept, fun manifest h => by cases h⟩

/-- Any final block passes the checks against published media. -/
theorem verifyTarget_sound (hpos : 0 < file.chunkSize) {manifest : Manifest} {media : StoredMedia}
    (hserver : ServerSound packages state file content server) (hmedia : server.media = some media)
    (hmxc : manifest.mxc = state.mxc) (hblock : FinalBlock packages state content manifest.block) :
    verifyTarget packages server.keeper manifest =
      .ok { file := file, fileSize := content.length, chunkCount := total file content } := by
  obtain ⟨_, hcipher, hlength, hchunkSize⟩ := hblock.of_fileCipher hfile
  have hsound := hserver.media media hmedia
  have hcount : chunkCount content.length file.chunkSize = some (total file content) :=
    chunkCount_eq_some_iff.mpr ⟨hpos, hsound.inRange, rfl⟩
  obtain ⟨described, hdescribed, hdescription⟩ := hsound.description
  have hinfo : server.keeper.info manifest.mxc =
      .ok ({ fileSize := media.fileSize, chunkSize := some media.chunkSize,
             chunkCount := some media.chunks.length, truncated := some false },
        media.description) := by
    simp only [Server.keeper, Server.info, hmedia]
    rw [if_neg (by rw [hmxc, hserver.mxc]; exact not_not_intro rfl)]
  have hsize : ChunkedBlock.bothOrAbsent media.fileSize (some content.length) = true := by
    rcases hsound.fileSize with h | h <;> rw [h] <;> simp [ChunkedBlock.bothOrAbsent]
  have hagree : checkInfoAgainstBlock
      { fileSize := media.fileSize, chunkSize := some media.chunkSize,
        chunkCount := some media.chunks.length, truncated := some false }
      manifest.block (total file content) = .ok () := by
    simp only [checkInfoAgainstBlock, hsound.chunkSize, hchunkSize, hsound.chunks,
      length_sealedChunks, hlength, hsize]
    simp
  have hopens : checkDescription packages file manifest.block media.description = .ok () := by
    rw [hdescription]
    exact checkDescription_sealed (hdescribed.of_fileCipher hfile).1
      (hblock.consistent hdescribed)
  simp only [verifyTarget, hinfo, verifyInfo, Manifest.fileCipher, Manifest.fileSize, hcipher,
    hlength, hchunkSize, Option.getD_some, hcount, hagree, hopens]

theorem keeps_of_sound (hpos : 0 < file.chunkSize) {manifest : Manifest}
    (hserver : ServerSound packages state file content server) (hmedia : server.media.isSome = true)
    (hmxc : manifest.mxc = state.mxc) (hblock : FinalBlock packages state content manifest.block) :
    Keeps packages server.keeper manifest file content (total file content) := by
  obtain ⟨media, hsome⟩ := Option.isSome_iff_exists.mp hmedia
  have hsound := hserver.media media hsome
  refine ⟨(hblock.of_fileCipher hfile).2.2.2,
    chunkCount_eq_some_iff.mpr ⟨hpos, hsound.inRange, rfl⟩,
    verifyTarget_sound hfile hpos hserver hsome hmxc hblock, ?_, hblock.sha256⟩
  intro index hindex
  simp only [Server.keeper, Server.read, hsome, hsound.chunks, getElem?_sealedChunks hindex]
  rw [if_neg (by rw [hmxc, hserver.mxc]; exact not_not_intro rfl)]

end

variable (packages state file content) in
structure SystemSound (s : System) : Prop where
  server : ServerSound packages state file content s.server
  call : ∀ task, s.call = some task →
    TaskSound state file content (Early file content s.server) task
  last : ∀ block, s.sent = some block → FinalBlock packages state content block
  manifests : ∀ manifest ∈ s.manifests, manifest.mxc = state.mxc ∧
    FinalBlock packages state content manifest.block ∧ s.server.media.isSome = true

/-- What is asked of a loop is less when more begins early. -/
theorem LoopSound.mono {early' : Prop} {loop : Loop} (h : LoopSound state file content early loop)
    (hearly : early → early') : LoopSound state file content early' loop := by
  cases loop with
  | sendChunks loop | sendSizedBody loop => exact h
  | sendStream loop | sendStreamedBody loop => exact ⟨h.1, hearly h.2⟩

theorem SystemSound.start (hpos : 0 < file.chunkSize) (hfile : state.fileCipher = .ok file)
    (hsize : state.block.fileSize = none ∨ state.block.fileSize = some content.length) {s : System}
    {call : Call} {fault : Fault} (hs : SystemSound packages state file content s)
    (htime : StreamsInTime state content s (.start call fault)) :
    SystemSound packages state file content
      (System.step packages state content s (.start call fault)) := by
  have hearly : call = .sendStream → Early file content s.server := by
    rintro rfl
    rw [Early, ← (UploadState.params_of_fileCipher hfile).2.2.2.2.1]
    exact htime
  simp only [System.step]
  cases hstart : call.start state (statusOverLink s.server state.uploadId fault) content with
  | error e =>
    simp only
    exact ⟨hs.server, by simp, hs.last, hs.manifests⟩
  | ok task =>
    simp only
    refine ⟨hs.server, ?_, hs.last, hs.manifests⟩
    intro task' htask'
    cases htask'
    exact start_sound hpos hfile hsize hs.server hearly hstart

theorem SystemSound.turn (hpos : 0 < file.chunkSize) {s : System} {faults : List Fault}
    (hs : SystemSound packages state file content s) :
    SystemSound packages state file content
      (System.step packages state content s (.turn faults)) := by
  simp only [System.step]
  cases hcall : s.call with
  | none => exact hs
  | some task =>
    have htask := hs.call task hcall
    have hturn := turn_sound hpos hs.server htask faults
    simp only
    cases hresult : (task.turn packages (overLink Server.chunk)
        (remaining content task.loop) (s.server, faults)).result with
    | error e =>
      refine ⟨hturn.server, by simp, hs.last, ?_⟩
      simp only [hturn.media]
      exact hs.manifests
    | ok progress =>
      cases progress with
      | more task' =>
        refine ⟨hturn.server, ?_, hs.last, ?_⟩
        · intro task'' h
          cases h
          exact hturn.more _ hresult
        · simp only [hturn.media]
          exact hs.manifests
      | done summary =>
        refine ⟨hturn.server, by simp, ?_, ?_⟩
        · intro block h
          cases h
          exact finalBlock_sound htask (hturn.done _ hresult)
        · simp only [hturn.media]
          exact hs.manifests

theorem SystemSound.seal (hfile : state.fileCipher = .ok file) {s : System} {fault : Fault}
    (hs : SystemSound packages state file content s) :
    SystemSound packages state file content
      (System.step packages state content s (.seal fault)) := by
  simp only [System.step]
  cases hsent : s.sent with
  | none => exact hs
  | some block =>
    have hblock := hs.last block hsent
    obtain ⟨hserver, hopen, hkept, hmanifest⟩ :=
      sealUpload_sound hfile hs.server hblock [fault]
    have hcall : ∀ task, s.call = some task → TaskSound state file content
        (Early file content (sealUpload packages (overLink Server.seal) state block
          (s.server, [fault])).rest.1) task := fun task htask =>
      ⟨(hs.call task htask).ofState, (hs.call task htask).ofFile,
        (hs.call task htask).ofLoop.mono (Or.imp_left hopen)⟩
    have hbefore : ∀ manifest ∈ s.manifests, manifest.mxc = state.mxc ∧
        FinalBlock packages state content manifest.block ∧
        (sealUpload packages (overLink Server.seal) state block
          (s.server, [fault])).rest.1.media.isSome = true := fun manifest h =>
      ⟨(hs.manifests manifest h).1, (hs.manifests manifest h).2.1,
        hkept (hs.manifests manifest h).2.2⟩
    have hlast : ∀ block', some block = some block' →
        FinalBlock packages state content block' := by
      rintro _ ⟨⟩
      exact hblock
    simp only
    cases hresult : (sealUpload packages (overLink Server.seal) state block
        (s.server, [fault])).result with
    | error e => exact ⟨hserver, hcall, hlast, hbefore⟩
    | ok manifest =>
      refine ⟨hserver, hcall, hlast, ?_⟩
      intro manifest' h
      rw [List.mem_append, List.mem_singleton] at h
      rcases h with h | rfl
      · exact hbefore manifest' h
      · obtain ⟨hmxc, rfl, hmedia⟩ := hmanifest _ hresult
        exact ⟨hmxc, hblock, hmedia⟩

theorem SystemSound.step (hpos : 0 < file.chunkSize) (hfile : state.fileCipher = .ok file)
    (hsize : state.block.fileSize = none ∨ state.block.fileSize = some content.length) (s : System)
    (action : Action) (htime : StreamsInTime state content s action)
    (hs : SystemSound packages state file content s) :
    SystemSound packages state file content (System.step packages state content s action) := by
  cases action with
  | start call fault => exact hs.start hpos hfile hsize htime
  | turn faults => exact hs.turn hpos
  | «seal» fault => exact hs.seal hfile

end Sound

variable {block : ChunkedBlock}

/-- A created upload gives back the cipher it was created with. -/
theorem fileCipher_createBlock {state : UploadState} {file : FileCipher}
    (hblock : state.block = createBlock file block) (hpos : file.chunkSize ≠ 0) :
    state.fileCipher = .ok file := by
  have hopens : ∀ fileSize : Option Nat, fileSize.isSome = true →
      FileCipher.fromEventBlock { createBlock file block with fileSize := fileSize } =
        .ok file := fun fileSize h =>
    (FileCipher.fromEventBlock_of_params rfl rfl rfl rfl rfl hpos h).2
  simp only [UploadState.fileCipher, hblock]
  cases hsize : (createBlock file block).fileSize with
  | none =>
    have hfirst := hopens (some 0) rfl
    simp only [Option.isNone_none, if_true, hfirst]
  | some size =>
    have hfirst : FileCipher.fromEventBlock (createBlock file block) = .ok file :=
      hopens (createBlock file block).fileSize (by rw [hsize]; rfl)
    simp only [Option.isNone_some, Bool.false_eq_true, if_false, hfirst]

theorem createInfo_cases {info : EncryptedFileInfo} (h : createInfo block = .ok info) :
    info.chunkSize = block.chunkSize ∧
      ((block.fileSize = none ∧ info.fileSize = 0 ∧ info.chunkCount = 0) ∨
        (block.fileSize = some info.fileSize ∧ info.fileSize ≠ 0 ∧
          chunkCount info.fileSize block.chunkSize = some info.chunkCount)) := by
  rw [createInfo] at h
  split at h
  · cases h
  · rename_i fileSize hzero hsize
    cases hcount : chunkCount fileSize block.chunkSize with
    | none =>
      rw [hcount] at h
      cases h
    | some count =>
      rw [hcount] at h
      cases h
      exact ⟨rfl, .inr ⟨hsize, hzero, hcount⟩⟩
  · rename_i hsize
    cases h
    exact ⟨rfl, .inl ⟨hsize, rfl, rfl⟩⟩

/-- What the server stores first: an upload of the asked size without any
chunk. -/
theorem server_create_eq_ok {server : Server} {request : CreateRequest} {ack : CreateAck}
    (h : (server.create request).1 = .ok ack) :
    ack.mxc = server.mxc ∧
      (ack.chunkSize = request.info.chunkSize → request.info.chunkSize ≠ 0 ∧
        ∃ description, (server.create request).2 = { server with
          upload := some {
            chunkSize := request.info.chunkSize
            fileSize := if request.info.fileSize = 0 ∧ request.info.chunkCount = 0 then none
              else some request.info.fileSize
            chunkCount := if request.info.fileSize = 0 ∧ request.info.chunkCount = 0 then none
              else some request.info.chunkCount
            chunks := []
            finished := false
            description := description }
          media := none }) := by
  simp only [Server.create] at h ⊢
  split_ifs at h ⊢
  all_goals
    cases h
    refine ⟨rfl, fun hsame => ?_⟩
    simp_all

/-- Creating an upload of a content of known or unknown size. -/
theorem create_sound {packages : Packages} {server : Server} {serverUrl userId : String}
    {file : FileCipher} {content : List UInt8} {state : UploadState} {s : System}
    (hsize : block.fileSize = none ∨ block.fileSize = some content.length)
    (h : System.create packages server serverUrl userId file block = some (state, s)) :
    state.fileCipher = .ok file ∧ 0 < file.chunkSize ∧
      (state.block.fileSize = none ∨ state.block.fileSize = some content.length) ∧
      SystemSound packages state file content s := by
  simp only [System.create, createUpload] at h
  cases hinfo : createInfo (createBlock file block) with
  | error e =>
    rw [hinfo] at h
    cases h
  | ok info =>
    rw [hinfo] at h
    simp only at h
    obtain ⟨hchunkSize, hcases⟩ := createInfo_cases hinfo
    cases hanswer : (server.create
        { info := info,
          description := file.sealDescription packages .create
            ((createBlock file block).toDescriptionJson packages) }).1 with
    | error e =>
      rw [hanswer] at h
      cases h
    | ok ack =>
      rw [hanswer] at h
      obtain ⟨hmxc, hstored⟩ := server_create_eq_ok hanswer
      simp only [created] at h
      split_ifs at h with _ hasked
      cases h
      rw [not_not] at hasked
      obtain ⟨hpos, description, hrest⟩ := hstored (hasked.trans hchunkSize.symm)
      have hfileSize : info.chunkSize = file.chunkSize := hchunkSize
      have hblock : (createBlock file block).fileSize = none ∨
          (createBlock file block).fileSize = some content.length := hsize
      rw [hfileSize] at hpos hrest
      refine ⟨fileCipher_createBlock rfl hpos, by omega, hblock, ?_, by simp, by simp,
        by simp⟩
      rw [hrest]
      refine ⟨hmxc.symm, ?_, by simp⟩
      rintro _ ⟨⟩
      rcases hcases with ⟨_, hzero, hcount⟩ | ⟨hknown, hne, hcount⟩
      · rw [if_pos ⟨hzero, hcount⟩, if_pos ⟨hzero, hcount⟩]
        exact ⟨rfl, .inl rfl, .inl rfl, rfl, Nat.zero_le _, Nat.zero_le _, by simp⟩
      · have hlength : info.fileSize = content.length := by
          rcases hblock with hnone | hsome
          · rw [hnone] at hknown
            cases hknown
          · rw [hsome] at hknown
            simpa using hknown.symm
        have htotal : total file content = info.chunkCount := by
          rw [hlength] at hcount
          exact total_of_count hcount
        rw [if_neg (fun h => hne h.1), if_neg (fun h => hne h.1), hlength, ← htotal]
        exact ⟨rfl, .inr rfl, .inr rfl, rfl, Nat.zero_le _, Nat.zero_le _, by simp⟩

/-- Every manifest of every run downloads to the content, and every range of it
reads as that range of the content, as long as no stream is begun too late. -/
theorem uploads_download {packages : Packages} {server : Server} {serverUrl userId : String}
    {file : FileCipher} {block : ChunkedBlock} {content : List UInt8} {state : UploadState}
    {s : System} (hlength : content.length < 2 ^ 64)
    (hsize : block.fileSize = none ∨ block.fileSize = some content.length)
    (hcreate : System.create packages server serverUrl userId file block = some (state, s))
    (actions : List Action)
    (htime : Runs.Along (System.step packages state content) (StreamsInTime state content) s
      actions) {manifest : Manifest}
    (hmanifest : manifest ∈ (Runs.run (System.step packages state content) s actions).manifests) :
    let keeper := (Runs.run (System.step packages state content) s actions).server.keeper
    (∃ report, download packages keeper manifest = (.ok report, content)) ∧
      ∀ (start : Nat) (len : Option Nat), start < content.length →
        ∃ result, seekRead packages keeper manifest start len = .ok result ∧
          result.bytes = (content.drop start).take
            (len.getD ((start / file.chunkSize + 1) * file.chunkSize - start)) := by
  obtain ⟨hfile, hpos, hknown, hbegin⟩ := create_sound hsize hcreate
  have hend := Runs.run_invariant_along (SystemSound packages state file content)
    (SystemSound.step hpos hfile hknown) actions s htime hbegin
  obtain ⟨hmxc, hblock, hmedia⟩ := hend.manifests manifest hmanifest
  have hkeeps := keeps_of_sound hfile hpos hend.server hmedia hmxc hblock
  exact ⟨⟨_, hkeeps.download⟩, fun start len hstart => hkeeps.seekRead hlength len hstart⟩

def exampleFile : FileCipher := { chunkSize := 2, mode := .plain }

def exampleBlock (fileSize : Option Nat) (sha256 : Option String) : ChunkedBlock :=
  { exampleFile.toEventBlock 0 with fileSize := fileSize, sha256 := sha256.map String.toList }

def exampleDescription (fields : String) : List UInt8 :=
  asciiBytes ("\x7b\"v\":1,\"cipher\":\"none\",\"chunk_size\":2" ++ fields ++ "\x7d")

def exampleServer : Server :=
  { id := 7, mxc := "mxc://example.org/a", keepsSealed := true, upload := none, media := none }

def exampleState (fileSize : Option Nat) : UploadState :=
  { server := "https://example.org", userId := "@alice:example.org", uploadId := 7,
    mxc := "mxc://example.org/a", chunkMaxBytes := 4098, block := exampleBlock fileSize none }

/-- The system with the upload created. -/
def exampleSystem (fileSize : Option Nat) (fields : String) : System :=
  { server := { exampleServer with
      upload := some { chunkSize := 2, fileSize := fileSize, chunkCount := fileSize.map fun _ => 2,
                       chunks := [], finished := false,
                       description := exampleDescription fields } }
    call := none
    sent := none
    manifests := [] }

def connectionLost : Failure :=
  { error := .network "connection closed", notOutOfOrder := by decide }

/-- The SHA-256 of the three bytes, and its text. -/
def wholeDigest : Vector UInt8 32 :=
  ⟨#[0x03, 0x90, 0x58, 0xc6, 0xf2, 0xc0, 0xcb, 0x49, 0x2c, 0x53, 0x3b, 0x0a, 0x4d, 0x14, 0xef,
    0x77, 0xcc, 0x0f, 0x78, 0xab, 0xcc, 0xce, 0xd5, 0x28, 0x7d, 0x84, 0xa1, 0xa2, 0x01, 0x1c,
    0xfb, 0x81], rfl⟩

def wholeSha256 : String := "039058c6f2c0cb492c533b0a4d14ef77cc0f78abccced5287d84a1a2011cfb81"

def wholePackages : Packages :=
  ((Packages.numbered fun _ => wholeDigest).withText (exampleBlock (some 3) none).toDescription
    (exampleDescription ",\"file_size\":3")
    (Packages.numbered_toJson_ne (by decide)) (by decide)).withText
    (exampleBlock (some 3) (some wholeSha256)).toDescription
    (exampleDescription (",\"file_size\":3,\"sha256\":\"" ++ wholeSha256 ++ "\""))
    (Packages.withText_toJson_ne (by decide +kernel)
      (Packages.numbered_toJson_ne (by decide +kernel)))
    (by decide +kernel)

/-- The answer to the last chunk is lost, and the upload is resumed from its
state. -/
def resumedActions : List Action :=
  [.start (.sendChunks 0 true) .delivered, .turn [.delivered], .turn [.replyLost connectionLost],
    .start (.uploadFile "a.upload" "https://example.org/" "@alice:example.org" 3 true) .delivered,
    .turn [], .seal .delivered]

def wholeManifest : Manifest :=
  { server := "https://example.org", mxc := "mxc://example.org/a",
    block := exampleBlock (some 3) (some wholeSha256) }

theorem uploads_download_resumed :
    let s := exampleSystem (some 3) ",\"file_size\":3"
    let run := Runs.run (System.step wholePackages (exampleState (some 3)) [1, 2, 3]) s
      resumedActions
    System.create wholePackages exampleServer "https://example.org/" "@alice:example.org"
        exampleFile (exampleBlock (some 3) none) = some (exampleState (some 3), s) ∧
      Runs.Along (System.step wholePackages (exampleState (some 3)) [1, 2, 3])
        (StreamsInTime (exampleState (some 3)) [1, 2, 3]) s resumedActions ∧
      wholeManifest ∈ run.manifests ∧
      (∃ report, download wholePackages run.server.keeper wholeManifest =
        (.ok report, [1, 2, 3])) ∧
      ∀ (start : Nat) (len : Option Nat), start < 3 →
        ∃ result, seekRead wholePackages run.server.keeper wholeManifest start len =
            .ok result ∧
          result.bytes = ([1, 2, 3].drop start).take (len.getD ((start / 2 + 1) * 2 - start)) := by
  have hcreate : System.create wholePackages exampleServer "https://example.org/"
      "@alice:example.org" exampleFile (exampleBlock (some 3) none) =
        some (exampleState (some 3), exampleSystem (some 3) ",\"file_size\":3") := by
    decide +kernel
  have htime : Runs.Along (System.step wholePackages (exampleState (some 3)) [1, 2, 3])
      (StreamsInTime (exampleState (some 3)) [1, 2, 3])
      (exampleSystem (some 3) ",\"file_size\":3") resumedActions :=
    ⟨trivial, trivial, trivial, trivial, trivial, trivial, trivial⟩
  have hmanifest : wholeManifest ∈
      (Runs.run (System.step wholePackages (exampleState (some 3)) [1, 2, 3])
        (exampleSystem (some 3) ",\"file_size\":3") resumedActions).manifests := by
    decide +kernel
  exact ⟨hcreate, htime, hmanifest,
    uploads_download (by decide) (.inr rfl) hcreate resumedActions htime hmanifest⟩

/-- The SHA-256 of the first chunk of the three bytes, and its text. -/
def partDigest : Vector UInt8 32 :=
  ⟨#[0xa1, 0x28, 0x71, 0xfe, 0xe2, 0x10, 0xfb, 0x86, 0x19, 0x29, 0x1e, 0xae, 0xa1, 0x94, 0x58,
    0x1c, 0xbd, 0x25, 0x31, 0xe4, 0xb2, 0x37, 0x59, 0xd2, 0x25, 0xf6, 0x80, 0x69, 0x23, 0xf6,
    0x32, 0x22], rfl⟩

def partSha256 : String := "a12871fee210fb8619291eaea194581cbd2531e4b23759d225f6806923f63222"

def partPackages : Packages :=
  ((Packages.numbered fun _ => partDigest).withText (exampleBlock none none).toDescription
    (exampleDescription "") (Packages.numbered_toJson_ne (by decide)) (by decide)).withText
    (exampleBlock (some 2) (some partSha256)).toDescription
    (exampleDescription (",\"file_size\":2,\"sha256\":\"" ++ partSha256 ++ "\""))
    (Packages.withText_toJson_ne (by decide +kernel)
      (Packages.numbered_toJson_ne (by decide +kernel)))
    (by decide +kernel)

/-- The answer to the last chunk of a stream is lost, and the stream is sent
again from its beginning. -/
def streamedActions : List Action :=
  [.start .sendStream .delivered, .turn [.delivered], .turn [.replyLost connectionLost],
    .start .sendStream .delivered, .turn [.delivered], .seal .delivered]

def partManifest : Manifest :=
  { server := "https://example.org", mxc := "mxc://example.org/a",
    block := exampleBlock (some 2) (some partSha256) }

/-- The second stream ends at its first chunk, because the server has finished;
the manifest is of that chunk, and does not download. -/
theorem uploads_download_streamed_again :
    ¬∀ (packages : Packages) (server : Server) (serverUrl userId : String) (file : FileCipher)
      (block : ChunkedBlock) (content : List UInt8) (state : UploadState) (s : System)
      (actions : List Action) (manifest : Manifest),
      content.length < 2 ^ 64 →
      (block.fileSize = none ∨ block.fileSize = some content.length) →
      System.create packages server serverUrl userId file block = some (state, s) →
      manifest ∈ (Runs.run (System.step packages state content) s actions).manifests →
      ∃ report, download packages
        (Runs.run (System.step packages state content) s actions).server.keeper manifest =
          (.ok report, content) := by
  intro h
  obtain ⟨report, hdownload⟩ := h partPackages exampleServer "https://example.org/"
    "@alice:example.org" exampleFile (exampleBlock none none) [1, 2, 3] (exampleState none)
    (exampleSystem none "") streamedActions partManifest (by decide) (.inl rfl)
    (by decide +kernel) (by decide +kernel)
  have hnothing : (download partPackages (Runs.run
      (System.step partPackages (exampleState none) [1, 2, 3]) (exampleSystem none "")
      streamedActions).server.keeper partManifest).2 = [] := by
    decide +kernel
  rw [hdownload] at hnothing
  cases hnothing

end UploadRoundTrip
end WbfMatrixClient
