import WbfMatrixClient.Download

/-!
# An honest media server

The server of the protocol, for one upload. It takes the chunks in order,
answers a chunk it has with its progress and a chunk beyond its progress with
the index it wants, stores the bytes it accepted last, and publishes the chunks
under the final description when the upload is sealed. Whether it keeps a
sealed upload open to further requests is left to it.

Between the client and the server stands a link that may lose a request or an
answer, or hand the request on damaged; the client then sees an error. Such an
error never claims that a chunk is out of order.
-/

namespace WbfMatrixClient

structure StoredUpload where
  chunkSize : Nat
  fileSize : Option Nat
  chunkCount : Option Nat
  chunks : List (List UInt8)
  finished : Bool
  description : List UInt8
deriving DecidableEq

structure StoredMedia where
  chunkSize : Nat
  fileSize : Option Nat
  chunks : List (List UInt8)
  description : List UInt8
deriving DecidableEq

/-- The identifiers the server gives out, and what it stores. -/
structure Server where
  id : Nat
  mxc : String
  keepsSealed : Bool
  upload : Option StoredUpload
  media : Option StoredMedia
deriving DecidableEq

def refusal (code : WbfErrorCode) (message : String) : SdkError :=
  .server (some code.id) none message

def outOfOrder (expected : Nat) : SdkError :=
  .server (some WbfErrorCode.outOfOrder.id) (some expected) "gap"

def StoredUpload.received (upload : StoredUpload) : Nat := upload.chunks.length

def StoredUpload.ack (upload : StoredUpload) : ChunkAck :=
  { received := upload.received, finished := upload.finished, truncated := false }

namespace Server

def create (server : Server) (request : CreateRequest) : Except SdkError CreateAck × Server :=
  let info := request.info
  let chunkSize := if info.chunkSize = 0 then 65536 else info.chunkSize
  let isStreaming : Bool := info.fileSize = 0 ∧ info.chunkCount = 0
  if (info.fileSize = 0) ≠ (info.chunkCount = 0) then
    (.error (refusal .conflict "streaming sentinel needs both zero"), server)
  else if isStreaming = false ∧ info.chunkCount ≠ divCeil info.fileSize chunkSize then
    (.error (refusal .conflict "chunk_count mismatch"), server)
  else if 65536 < request.description.length then
    (.error (refusal .tooLarge "description"), server)
  else
    (.ok { headerId := 0, id := server.id, mxc := server.mxc, chunkSize := chunkSize,
           chunkMaxBytes := chunkSize + 4096 },
      { server with
        upload := some {
          chunkSize := chunkSize
          fileSize := if isStreaming then none else some info.fileSize
          chunkCount := if isStreaming then none else some info.chunkCount
          chunks := []
          finished := false
          description := request.description }
        media := none })

/-- Storing the chunk that is wanted next. -/
def accept (server : Server) (upload : StoredUpload) (data : List UInt8) (last : Bool) :
    Except SdkError ChunkAck × Server :=
  let upload := { upload with chunks := upload.chunks ++ [data], finished := last }
  (.ok upload.ack, { server with upload := some upload })

/-- A chunk of an open upload. -/
def store (server : Server) (upload : StoredUpload) (request : ChunkRequest) :
    Except SdkError ChunkAck × Server :=
  if request.data.isEmpty then
    (.error (refusal .conflict "empty chunk"), server)
  else if upload.chunkSize + 4096 < request.data.length then
    (.error (refusal .tooLarge "chunk"), server)
  else if upload.received < request.index then
    (.error (outOfOrder upload.received), server)
  else if request.index < upload.received then
    let upload := { upload with chunks := upload.chunks.set request.index request.data }
    (.ok upload.ack, { server with upload := some upload })
  else if upload.finished then
    (.error (refusal .conflict "already finished"), server)
  else
    match upload.chunkCount with
    | some count =>
        if count ≤ request.index then
          (.error (refusal .conflict "seq beyond chunk_count"), server)
        else if request.isLast ∧ request.index + 1 ≠ count then
          (.error (refusal .conflict "IS_LAST on wrong chunk"), server)
        else
          server.accept upload request.data (request.index + 1 = count)
    | none => server.accept upload request.data request.isLast

def chunk (server : Server) (request : ChunkRequest) : Except SdkError ChunkAck × Server :=
  match server.upload with
  | none => (.error (refusal .notFound "no upload"), server)
  | some upload =>
      if request.uploadId ≠ server.id then
        (.error (refusal .notFound "no upload"), server)
      else
        server.store upload request

def status (server : Server) (uploadId : Nat) : Except SdkError StatusAck :=
  match server.upload with
  | none => .error (refusal .notFound "no upload")
  | some upload =>
      if uploadId ≠ server.id then
        .error (refusal .notFound "no upload")
      else
        .ok { received := upload.received, finished := upload.finished, truncated := false }

def «seal» (server : Server) (request : SealRequest) : Except SdkError SealAck × Server :=
  match server.upload with
  | none => (.error (refusal .notFound "no upload"), server)
  | some upload =>
      if request.uploadId ≠ server.id then
        (.error (refusal .notFound "no upload"), server)
      else if upload.finished = false then
        (.error (refusal .conflict "not finished"), server)
      else
        let description :=
          if request.description.isEmpty then upload.description else request.description
        (.ok { mxc := server.mxc },
          { server with
            upload := if server.keepsSealed then some upload else none
            media := some {
              chunkSize := upload.chunkSize
              fileSize := upload.fileSize
              chunks := upload.chunks
              description := description } })

def info (server : Server) (mxc : String) : Except SdkError (InfoAck × List UInt8) :=
  match server.media with
  | none => .error (refusal .notFound "no media")
  | some media =>
      if mxc ≠ server.mxc then
        .error (refusal .notFound "no media")
      else
        .ok ({ fileSize := media.fileSize, chunkSize := some media.chunkSize,
               chunkCount := some media.chunks.length, truncated := some false },
          media.description)

def read (server : Server) (mxc : String) (index : Nat) :
    Except SdkError (ReadAck × List UInt8) :=
  match server.media with
  | none => .error (refusal .notFound "no media")
  | some media =>
      if mxc ≠ server.mxc then
        .error (refusal .notFound "no media")
      else
        match media.chunks[index]? with
        | none => .error (refusal .conflict "chunk beyond count")
        | some data => .ok ({ chunk := index, len := data.length }, data)

def keeper (server : Server) : Keeper :=
  { info := server.info, read := server.read }

end Server

/-- An error the client may see although the server is honest. -/
structure Failure where
  error : SdkError
  notOutOfOrder : error.wbfCode ≠ some .outOfOrder

/-- What becomes of one request: it is answered, or it is lost or damaged on
its way, or its answer is lost. -/
inductive Fault where
  | delivered
  | refused (failure : Failure)
  | replyLost (failure : Failure)

/-- A request over the link. -/
def Fault.apply {Request Answer : Type}
    (handle : Server → Request → Except SdkError Answer × Server) (fault : Fault)
    (request : Request) (server : Server) : Except SdkError Answer × Server :=
  match fault with
  | .delivered => handle server request
  | .refused failure => (.error failure.error, server)
  | .replyLost failure => (.error failure.error, (handle server request).2)

/-- Requests over the link, each with its own fault; after the last one the
connection is gone. -/
def overLink {Request Answer : Type}
    (handle : Server → Request → Except SdkError Answer × Server) :
    Exchange Request Answer (Server × List Fault)
  | _, (server, []) => (.error (.network "connection closed"), (server, []))
  | request, (server, fault :: faults) =>
      let reply := fault.apply handle request server
      (reply.1, (reply.2, faults))

/-- The server's state after a request over the link is the one before it, or
the one its handler leaves; an answer comes from the handler. -/
theorem overLink_cases {Request Answer : Type}
    (handle : Server → Request → Except SdkError Answer × Server) (request : Request)
    (server : Server) (faults : List Fault) :
    (((overLink handle request (server, faults)).2.1 = server ∧
        ∃ e, (overLink handle request (server, faults)).1 = .error e) ∨
      ((overLink handle request (server, faults)).2.1 = (handle server request).2 ∧
        ((overLink handle request (server, faults)).1 = (handle server request).1 ∨
          ∃ e, (overLink handle request (server, faults)).1 = .error e))) := by
  cases faults with
  | nil => exact .inl ⟨rfl, _, rfl⟩
  | cons fault faults =>
    cases fault with
    | delivered => exact .inr ⟨rfl, .inl rfl⟩
    | refused failure => exact .inl ⟨rfl, _, rfl⟩
    | replyLost failure => exact .inr ⟨rfl, .inr ⟨_, rfl⟩⟩

/-- What holds of the server and is kept by the handler of a request, and what
its answers say, carries over to sending a chunk over the link, also when it is
sent twice. -/
theorem sendChunk_overLink {inv : Server → Prop} {tells : ChunkAck → Prop} (request : ChunkRequest)
    (hkeep : ∀ server, inv server → inv (server.chunk request).2)
    (htells : ∀ server ack, inv server → (server.chunk request).1 = .ok ack → tells ack)
    (server : Server) (faults : List Fault) (h : inv server) :
    inv (sendChunk (overLink Server.chunk) request (server, faults)).2.1 ∧
      ∀ ack, (sendChunk (overLink Server.chunk) request (server, faults)).1 = .ok ack →
        tells ack := by
  have honce : ∀ (server : Server) (faults : List Fault), inv server →
      inv (overLink Server.chunk request (server, faults)).2.1 ∧
        ∀ ack, (overLink Server.chunk request (server, faults)).1 = .ok ack → tells ack := by
    intro server faults hserver
    rcases overLink_cases Server.chunk request server faults with
      ⟨hstate, e, hanswer⟩ | ⟨hstate, hanswer | ⟨e, hanswer⟩⟩
    · rw [hstate, hanswer]
      exact ⟨hserver, fun ack hack => by cases hack⟩
    · rw [hstate, hanswer]
      exact ⟨hkeep server hserver, fun ack hack => htells server ack hserver hack⟩
    · rw [hstate, hanswer]
      exact ⟨hkeep server hserver, fun ack hack => by cases hack⟩
  obtain ⟨hfirst, htellsFirst⟩ := honce server faults h
  rw [sendChunk]
  rcases hanswer : (overLink Server.chunk request (server, faults)).1 with e | ack
  · simp only
    split_ifs
    · exact honce _ _ hfirst
    · exact ⟨hfirst, fun ack hack => by cases hack⟩
  · exact ⟨hfirst, fun ack' hack => htellsFirst ack' (hanswer.trans hack)⟩

end WbfMatrixClient
