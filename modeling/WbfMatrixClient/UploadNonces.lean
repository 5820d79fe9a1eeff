import WbfMatrixClient.Lib.Runs
import WbfMatrixClient.Upload

/-!
# Nonces of an upload

A client creates uploads, begins to send, goes on sending, and seals, in any
order and for any number of uploads and calls at once. Whoever answers and
whoever provides the file or the body is an adversary: every action carries
the answer it gets and the bytes that can be read while it runs. All calls of
the cipher are kept in one log.

Every such call is made for a place of an upload: a chunk, or one of the two
descriptions. The key comes from the upload and the nonce from the place, so
what the log may hold twice under one nonce is decided by what was found at one
place at two times. Nothing in the program remembers what was found there
before.
-/

namespace WbfMatrixClient
namespace UploadNonces

open Sealing

/-- A created upload: the generated cipher, and how the creation ended. -/
structure Upload where
  file : FileCipher
  state : Except SdkError UploadState

/-- A call that sends chunks of the upload with the given number. -/
structure Sending where
  upload : Nat
  progress : Except SdkError (Progress Task)

structure Client where
  uploads : List Upload
  sendings : List Sending
  sealed : List (Sealed FileKey (List UInt8))

inductive Action where
  | create (server userId : String) (file : FileCipher) (block : ChunkedBlock)
      (answer : Except SdkError CreateAck)
  | start (upload : Nat) (call : Call) (status : Except SdkError StatusAck)
      (source : List UInt8)
  | turn (sending : Nat) (source : List UInt8) (answers : List (Except SdkError ChunkAck))
  | «seal» (upload : Nat) (finalBlock : ChunkedBlock) (answer : Except SdkError SealAck)

/-- One answer, whatever is asked. -/
def given {Request Answer : Type} (answer : Except SdkError Answer) :
    Exchange Request Answer Unit :=
  fun _ s => (answer, s)

/-- The answers of a list in turn, and then a lost connection. -/
def inTurn {Request Answer : Type} :
    Exchange Request Answer (List (Except SdkError Answer))
  | _, [] => (.error (.network "connection closed"), [])
  | _, answer :: answers => (answer, answers)

namespace Client

def start : Client :=
  { uploads := [], sendings := [], sealed := [] }

def uploadState (c : Client) (number : Nat) : Option UploadState :=
  match c.uploads[number]? with
  | some { file := _, state := .ok state } => some state
  | _ => none

def running (c : Client) (number : Nat) : Option (Nat × Task) :=
  match c.sendings[number]? with
  | some { upload := upload, progress := .ok (.more task) } => some (upload, task)
  | _ => none

def step (packages : Packages) (c : Client) : Action → Client
  | .create server userId file block answer =>
      let outcome := createUpload packages (given answer) server userId file block ()
      { c with
        uploads := c.uploads ++ [{ file := file, state := outcome.result }]
        sealed := c.sealed ++ outcome.sealed }
  | .start upload call status source =>
      match c.uploadState upload with
      | none => c
      | some state =>
          { c with
            sendings := c.sendings ++
              [{ upload := upload, progress := (call.start state status source).map .more }] }
  | .turn sending source answers =>
      match c.running sending with
      | none => c
      | some (upload, task) =>
          let outcome := task.turn packages inTurn source answers
          { c with
            sendings := c.sendings.set sending { upload := upload, progress := outcome.result }
            sealed := c.sealed ++ outcome.sealed }
  | .seal upload finalBlock answer =>
      match c.uploadState upload with
      | none => c
      | some state =>
          { c with
            sealed := c.sealed ++
              (sealUpload packages (given answer) state finalBlock ()).sealed }

end Client

/-- What a nonce of an upload stands for. -/
inductive Place where
  | chunk (index : Nat)
  | description (slot : DescriptionSlot)
deriving DecidableEq

namespace Place

def nonceIndex : Place → Nat
  | chunk index => index
  | description slot => slot.nonceIndex

def aad : Place → List UInt8
  | chunk _ => chunkAad
  | description _ => descriptionAad

end Place

/-- The bytes that an action finds at a place of an upload. -/
structure Piece where
  upload : Nat
  file : FileCipher
  place : Place
  content : List UInt8

/-- The call of the cipher that a piece leads to. -/
def Piece.sealCall (piece : Piece) : Option (Sealed FileKey (List UInt8)) :=
  piece.file.sealCall piece.place.nonceIndex piece.place.aad piece.content

namespace Client

/-- What an action is about to seal: for a round of sending, the bytes that the
file or the body holds at the chunk the call has come to. -/
def finds (packages : Packages) (c : Client) : Action → Option Piece
  | .create _ _ file block _ =>
      match createInfo (createBlock file block) with
      | .error _ => none
      | .ok _ =>
          some { upload := c.uploads.length, file := file, place := .description .create,
                 content := (createBlock file block).toDescriptionJson packages }
  | .start _ _ _ _ => none
  | .turn sending source _ =>
      match c.running sending with
      | none => none
      | some (upload, task) =>
          match task.loop.next packages source with
          | .ok (.send index plain _ _) =>
              if index ≤ maxChunkIndex ∧ plain.length ≤ task.file.chunkSize then
                some { upload := upload, file := task.file, place := .chunk index,
                       content := plain }
              else
                none
          | _ => none
  | .seal upload finalBlock _ =>
      match c.uploadState upload with
      | none => none
      | some state =>
          match finalBlock.checkAsEventBlock, state.fileCipher with
          | .ok (), .ok file =>
              some { upload := upload, file := file, place := .description .seal,
                     content := finalBlock.toDescriptionJson packages }
          | _, _ => none

/-- All that the actions of a run find. -/
def pieces (packages : Packages) (c : Client) : List Action → List Piece
  | [] => []
  | action :: actions =>
      (c.finds packages action).toList ++ pieces packages (c.step packages action) actions

end Client

/-- At every place of an encrypted upload the run finds the same bytes each
time: the file or body has not changed at a chunk that is sent again, and every
seal is given the same description. -/
def Unchanged (packages : Packages) (actions : List Action) : Prop :=
  ∀ a ∈ Client.start.pieces packages actions, ∀ b ∈ Client.start.pieces packages actions,
    a.upload = b.upload → a.place = b.place → a.file.cipher.isEncrypting = true →
      a.content = b.content

/-- The key an action brings in. -/
def Action.newKey : Action → Option FileKey
  | .create _ _ file _ _ => file.key
  | _ => none

/-- The random generator never gives a key twice. -/
def FreshKeys (actions : List Action) : Prop :=
  (actions.filterMap Action.newKey).Nodup

theorem toList_filterMap (piece : Piece) :
    (some piece).toList.filterMap Piece.sealCall = piece.sealCall.toList := by
  cases h : piece.sealCall <;> simp [h]

theorem createUpload_sealed (packages : Packages) (c : Client) (server userId : String)
    (file : FileCipher) (block : ChunkedBlock) (answer : Except SdkError CreateAck) :
    (createUpload packages (given answer) server userId file block ()).sealed =
      (c.finds packages (.create server userId file block answer)).toList.filterMap
        Piece.sealCall := by
  simp only [createUpload, Client.finds]
  rcases createInfo (createBlock file block) with e | info
  · rfl
  · simp only
    rw [toList_filterMap]
    rfl

theorem turn_sealed (packages : Packages) (c : Client) (sending upload : Nat) (task : Task)
    (source : List UInt8) (answers : List (Except SdkError ChunkAck))
    (h : c.running sending = some (upload, task)) :
    (task.turn packages inTurn source answers).sealed =
      (c.finds packages (.turn sending source answers)).toList.filterMap Piece.sealCall := by
  simp only [Task.turn, Client.finds, h]
  rcases task.loop.next packages source with e | next
  · rfl
  · cases next with
    | done summary | skip after => rfl
    | send index plain isLast after =>
      simp only
      rcases hseal : task.file.sealChunk packages index plain with e | data
      · have hnot : ¬(index ≤ maxChunkIndex ∧ plain.length ≤ task.file.chunkSize) := by
          rintro ⟨hindex, hlength⟩
          rw [FileCipher.sealChunk_eq_ok_iff.mpr ⟨hindex, hlength, rfl⟩] at hseal
          cases hseal
        rw [if_neg hnot]
        rfl
      · obtain ⟨hindex, hlength, _⟩ := FileCipher.sealChunk_eq_ok_iff.mp hseal
        rw [if_pos ⟨hindex, hlength⟩, toList_filterMap]
        rfl

theorem sealUpload_sealed (packages : Packages) (c : Client) (upload : Nat) (state : UploadState)
    (finalBlock : ChunkedBlock) (answer : Except SdkError SealAck)
    (h : c.uploadState upload = some state) :
    (sealUpload packages (given answer) state finalBlock ()).sealed =
      (c.finds packages (.seal upload finalBlock answer)).toList.filterMap Piece.sealCall := by
  simp only [sealUpload, Client.finds, h]
  rcases finalBlock.checkAsEventBlock with e | u
  · rfl
  · rcases state.fileCipher with e | file
    · rfl
    · simp only
      rw [toList_filterMap]
      rfl

theorem step_sealed (packages : Packages) (c : Client) (action : Action) :
    (c.step packages action).sealed =
      c.sealed ++ (c.finds packages action).toList.filterMap Piece.sealCall := by
  cases action with
  | create server userId file block answer =>
    simp only [Client.step]
    rw [createUpload_sealed packages c]
  | start upload call status source =>
    simp only [Client.step, Client.finds]
    rcases c.uploadState upload with _ | state <;> simp
  | turn sending source answers =>
    simp only [Client.step]
    rcases h : c.running sending with _ | ⟨upload, task⟩
    · simp [Client.finds, h]
    · simp only
      rw [turn_sealed packages c sending upload task source answers h]
  | «seal» upload finalBlock answer =>
    simp only [Client.step]
    rcases h : c.uploadState upload with _ | state
    · simp [Client.finds, h]
    · simp only
      rw [sealUpload_sealed packages c upload state finalBlock answer h]

/-- The log of a run is what was found in it, sealed. -/
theorem run_sealed (packages : Packages) :
    ∀ (actions : List Action) (c : Client),
      (Runs.run (Client.step packages) c actions).sealed =
        c.sealed ++ (c.pieces packages actions).filterMap Piece.sealCall := by
  intro actions
  induction actions with
  | nil =>
    intro c
    simp [Client.pieces]
  | cons action actions ih =>
    intro c
    rw [Runs.run_cons, ih, step_sealed, Client.pieces, List.filterMap_append,
      List.append_assoc]

/-- Every state and every sending belongs to its upload, which is the one that
has its cipher. -/
structure Sound (c : Client) : Prop where
  state : ∀ upload ∈ c.uploads, ∀ state file, upload.state = .ok state →
    state.fileCipher = .ok file → file = upload.file
  sending : ∀ sending ∈ c.sendings, ∀ task, sending.progress = .ok (.more task) →
    ∃ upload, c.uploads[sending.upload]? = some upload ∧ task.file = upload.file

variable {c : Client} {number : Nat} {state : UploadState}

theorem uploadState_eq_some (h : c.uploadState number = some state) :
    ∃ upload, c.uploads[number]? = some upload ∧ upload.state = .ok state := by
  simp only [Client.uploadState] at h
  rcases hupload : c.uploads[number]? with _ | ⟨file, e | ok⟩ <;> rw [hupload] at h
  · cases h
  · cases h
  · cases h
    exact ⟨_, rfl, rfl⟩

variable {task : Task}

theorem running_eq_some {upload : Nat} (h : c.running number = some (upload, task)) :
    c.sendings[number]? = some { upload := upload, progress := .ok (.more task) } := by
  simp only [Client.running] at h
  rcases hsending : c.sendings[number]? with _ | ⟨upload', e | loop | summary⟩ <;>
    rw [hsending] at h <;> cases h
  rfl

theorem Sound.running (hc : Sound c) {upload : Nat} (h : c.running number = some (upload, task)) :
    ∃ u, c.uploads[upload]? = some u ∧ task.file = u.file :=
  hc.sending _ (List.mem_of_getElem? (running_eq_some h)) task rfl

variable {file : FileCipher}

theorem Sound.uploadState (hc : Sound c) (h : c.uploadState number = some state)
    (hfile : state.fileCipher = .ok file) : ∃ u, c.uploads[number]? = some u ∧ file = u.file := by
  obtain ⟨u, hu, hstate⟩ := uploadState_eq_some h
  exact ⟨u, hu, hc.state u (List.mem_of_getElem? hu) state file hstate hfile⟩

/-- The state that a creation gives has the generated cipher. -/
theorem created_fileCipher {server userId : String} {file' : FileCipher} {block : ChunkedBlock}
    {ack : CreateAck} (h : created server userId (createBlock file block) ack = .ok state)
    (hfile : state.fileCipher = .ok file') : file' = file := by
  simp only [created] at h
  split_ifs at h
  cases h
  obtain ⟨_, hcipher, hkey, hbase, hsize, _⟩ := UploadState.params_of_fileCipher hfile
  exact FileCipher.eq_of_params hcipher.symm hkey.symm hbase.symm hsize.symm

variable {packages : Packages}

theorem createUpload_fileCipher {server userId : String} {file' : FileCipher} {block : ChunkedBlock}
    {answer : Except SdkError CreateAck}
    (h : (createUpload packages (given answer) server userId file block ()).result = .ok state)
    (hfile : state.fileCipher = .ok file') : file' = file := by
  simp only [createUpload, given] at h
  cases hinfo : createInfo (createBlock file block) with
  | error e =>
    rw [hinfo] at h
    cases h
  | ok info =>
    rw [hinfo] at h
    cases answer with
    | error e => cases h
    | ok ack => exact created_fileCipher h hfile

theorem turn_file {S : Type} {exchange : Exchange ChunkRequest ChunkAck S} {task' : Task}
    {source : List UInt8} {s : S}
    (h : (task.turn packages exchange source s).result = .ok (.more task')) :
    task'.file = task.file := by
  simp only [Task.turn] at h
  cases hnext : task.loop.next packages source with
  | error e =>
    rw [hnext] at h
    cases h
  | ok next =>
    rw [hnext] at h
    cases next with
    | done summary => cases h
    | skip after =>
      cases h
      rfl
    | send index plain isLast after =>
      simp only at h
      cases hseal : task.file.sealChunk packages index plain with
      | error e =>
        rw [hseal] at h
        cases h
      | ok data =>
        rw [hseal] at h
        obtain ⟨progress, _, hmap⟩ := map_eq_ok h
        cases progress with
        | done summary => cases hmap
        | more loop =>
          cases hmap
          rfl

theorem getElem?_append_of_eq_some {α : Type} {xs ys : List α} {i : Nat} {x : α}
    (h : xs[i]? = some x) : (xs ++ ys)[i]? = some x := by
  obtain ⟨hlt, _⟩ := List.getElem?_eq_some_iff.mp h
  rw [List.getElem?_append_left hlt, h]

theorem sound_start : Sound Client.start where
  state := by
    intro upload h
    simp [Client.start] at h
  sending := by
    intro sending h
    simp [Client.start] at h

/-- Every action keeps states and sendings with their uploads. -/
theorem Sound.step {packages : Packages} {c : Client} (hc : Sound c) (action : Action) :
    Sound (c.step packages action) := by
  cases action with
  | create server userId file block answer =>
    constructor
    · intro upload hupload state file' hstate hfile
      rcases List.mem_append.mp hupload with hold | hnew
      · exact hc.state upload hold state file' hstate hfile
      · rw [List.mem_singleton] at hnew
        subst hnew
        exact createUpload_fileCipher hstate hfile
    · intro sending hsending task htask
      obtain ⟨upload, hupload, hfile⟩ := hc.sending sending hsending task htask
      exact ⟨upload, getElem?_append_of_eq_some hupload, hfile⟩
  | start upload call status source =>
    simp only [Client.step]
    rcases hstate : c.uploadState upload with _ | state
    · exact hc
    · refine ⟨hc.state, ?_⟩
      intro sending hsending task htask
      rcases List.mem_append.mp hsending with hold | hnew
      · exact hc.sending sending hold task htask
      · rw [List.mem_singleton] at hnew
        subst hnew
        obtain ⟨task', hstart, hmore⟩ := map_eq_ok htask
        cases hmore
        exact hc.uploadState hstate (Call.start_fileCipher hstart)
  | turn sending source answers =>
    simp only [Client.step]
    rcases hrunning : c.running sending with _ | ⟨upload, task⟩
    · exact hc
    · refine ⟨hc.state, ?_⟩
      intro sending' hsending' task' htask'
      rcases List.mem_or_eq_of_mem_set hsending' with hold | hnew
      · exact hc.sending sending' hold task' htask'
      · subst hnew
        obtain ⟨u, hu, hfile⟩ := hc.running hrunning
        exact ⟨u, hu, (turn_file htask').trans hfile⟩
  | «seal» upload finalBlock answer =>
    simp only [Client.step]
    rcases c.uploadState upload with _ | state
    · exact hc
    · exact ⟨hc.state, hc.sending⟩

def Place.InRange : Place → Prop
  | .chunk index => index ≤ maxChunkIndex
  | .description _ => True

/-- A nonce index in range stands for one place. -/
theorem Place.nonceIndex_injective {a b : Place} (ha : a.InRange) (hb : b.InRange)
    (h : a.nonceIndex = b.nonceIndex) : a = b := by
  rcases a with i | slot <;> rcases b with j | slot' <;>
    simp only [Place.InRange, Place.nonceIndex, maxChunkIndex] at ha hb h
  · rw [h]
  · cases slot' <;>
      simp only [DescriptionSlot.nonceIndex, createDescriptionIndex, sealDescriptionIndex] at h <;>
      omega
  · cases slot <;>
      simp only [DescriptionSlot.nonceIndex, createDescriptionIndex, sealDescriptionIndex] at h <;>
      omega
  · cases slot <;> cases slot' <;>
      simp only [DescriptionSlot.nonceIndex, createDescriptionIndex,
        sealDescriptionIndex] at h ⊢ <;>
      omega

theorem Place.nonceIndex_lt {place : Place} (h : place.InRange) : place.nonceIndex < 256 ^ 4 := by
  rcases place with index | slot
  · simp only [Place.InRange, maxChunkIndex] at h
    simp only [Place.nonceIndex]
    omega
  · cases slot <;> decide

/-- An action adds the upload of the key it brings in and no other. -/
theorem step_uploads (packages : Packages) (c : Client) (action : Action) :
    ∃ new, (c.step packages action).uploads = c.uploads ++ new ∧
      new.filterMap (fun upload => upload.file.key) = action.newKey.toList := by
  cases action with
  | create server userId file block answer =>
    refine ⟨_, rfl, ?_⟩
    cases hkey : file.key <;> simp [Action.newKey, hkey]
  | start upload call status source =>
    refine ⟨[], ?_, rfl⟩
    simp only [Client.step, List.append_nil]
    rcases c.uploadState upload with _ | state <;> rfl
  | turn sending source answers =>
    refine ⟨[], ?_, rfl⟩
    simp only [Client.step, List.append_nil]
    rcases c.running sending with _ | ⟨upload, task⟩ <;> rfl
  | «seal» upload finalBlock answer =>
    refine ⟨[], ?_, rfl⟩
    simp only [Client.step, List.append_nil]
    rcases c.uploadState upload with _ | state <;> rfl

theorem run_uploads (packages : Packages) :
    ∀ (actions : List Action) (c : Client),
      ∃ new, (Runs.run (Client.step packages) c actions).uploads = c.uploads ++ new ∧
        new.filterMap (fun upload => upload.file.key) = actions.filterMap Action.newKey := by
  intro actions
  induction actions with
  | nil =>
    intro c
    exact ⟨[], by simp, rfl⟩
  | cons action actions ih =>
    intro c
    obtain ⟨first, hfirst, hkey⟩ := step_uploads packages c action
    obtain ⟨rest, hrest, hkeys⟩ := ih (c.step packages action)
    refine ⟨first ++ rest, ?_, ?_⟩
    · rw [Runs.run_cons, hrest, hfirst, List.append_assoc]
    · rw [List.filterMap_append, hkey, hkeys]
      cases hnew : action.newKey <;> simp [hnew]

/-- A piece belongs to an upload with its cipher, and its place is in range. -/
theorem Sound.finds {packages : Packages} {c : Client} (hc : Sound c) {action : Action}
    {piece : Piece} (h : c.finds packages action = some piece) :
    (∃ upload, (c.step packages action).uploads[piece.upload]? = some upload ∧
      piece.file = upload.file) ∧ piece.place.InRange := by
  obtain ⟨new, hnew, _⟩ := step_uploads packages c action
  cases action with
  | create server userId file block answer =>
    simp only [Client.finds] at h
    cases hinfo : createInfo (createBlock file block) with
    | error e =>
      rw [hinfo] at h
      cases h
    | ok info =>
      rw [hinfo] at h
      cases h
      exact ⟨⟨_, List.getElem?_concat_length, rfl⟩, trivial⟩
  | start upload call status source => cases h
  | turn sending source answers =>
    simp only [Client.finds] at h
    rcases hrunning : c.running sending with _ | ⟨number, task⟩
    · rw [hrunning] at h
      cases h
    obtain ⟨upload, hupload, hfile⟩ := hc.running hrunning
    rw [hrunning] at h
    simp only at h
    rcases hnext : task.loop.next packages source with e | ⟨index, plain, isLast, after⟩ |
      after | summary <;> rw [hnext] at h <;> simp only [reduceCtorEq] at h
    split_ifs at h with hrange
    cases h
    rw [hnew]
    exact ⟨⟨upload, getElem?_append_of_eq_some hupload, hfile⟩, hrange.1⟩
  | «seal» number finalBlock answer =>
    simp only [Client.finds] at h
    rcases hstate : c.uploadState number with _ | state
    · rw [hstate] at h
      cases h
    rw [hstate] at h
    simp only at h
    rcases hcheck : finalBlock.checkAsEventBlock with e | u <;>
      rcases hfile : state.fileCipher with e' | file <;> rw [hcheck, hfile] at h <;>
      simp only [reduceCtorEq] at h
    cases h
    obtain ⟨upload, hupload, heq⟩ := hc.uploadState hstate hfile
    rw [hnew]
    exact ⟨⟨upload, getElem?_append_of_eq_some hupload, heq⟩, trivial⟩

theorem Sound.pieces {packages : Packages} :
    ∀ (actions : List Action) {c : Client}, Sound c →
      ∀ piece ∈ c.pieces packages actions,
        (∃ upload, (Runs.run (Client.step packages) c actions).uploads[piece.upload]? =
          some upload ∧ piece.file = upload.file) ∧ piece.place.InRange := by
  intro actions
  induction actions with
  | nil =>
    intro c _ piece h
    simp [Client.pieces] at h
  | cons action actions ih =>
    intro c hc piece h
    rcases List.mem_append.mp h with hfirst | hrest
    · rw [Option.mem_toList] at hfirst
      obtain ⟨⟨upload, hupload, hfile⟩, hrange⟩ := hc.finds hfirst
      obtain ⟨new, hnew, _⟩ := run_uploads packages actions (c.step packages action)
      rw [Runs.run_cons, hnew]
      exact ⟨⟨upload, getElem?_append_of_eq_some hupload, hfile⟩, hrange⟩
    · exact ih (hc.step action) piece hrest

/-- Uploads whose keys differ are told apart by their keys. -/
theorem upload_eq_of_key :
    ∀ {uploads : List Upload} {i j : Nat} {u v : Upload} {key : FileKey},
      (uploads.filterMap fun upload => upload.file.key).Nodup →
      uploads[i]? = some u → uploads[j]? = some v →
      u.file.key = some key → v.file.key = some key → i = j := by
  intro uploads
  induction uploads with
  | nil =>
    intro i j u v key _ hi
    simp at hi
  | cons upload uploads ih =>
    intro i j u v key hnodup hi hj hu hv
    rw [List.filterMap_cons] at hnodup
    have hmem : ∀ {n : Nat} {w : Upload}, uploads[n]? = some w → w.file.key = some key →
        key ∈ uploads.filterMap fun upload => upload.file.key := by
      intro n w hw hkey
      exact List.mem_filterMap.mpr ⟨w, List.mem_of_getElem? hw, hkey⟩
    cases i with
    | zero =>
      simp only [List.getElem?_cons_zero, Option.some.injEq] at hi
      subst hi
      rw [hu] at hnodup
      cases j with
      | zero => rfl
      | succ j => exact absurd (hmem hj hv) (List.nodup_cons.mp hnodup).1
    | succ i =>
      cases j with
      | zero =>
        simp only [List.getElem?_cons_zero, Option.some.injEq] at hj
        subst hj
        rw [hv] at hnodup
        exact absurd (hmem hi hu) (List.nodup_cons.mp hnodup).1
      | succ j =>
        have htail : (uploads.filterMap fun upload => upload.file.key).Nodup := by
          cases hkey : upload.file.key with
          | none => simpa [hkey] using hnodup
          | some k =>
            rw [hkey] at hnodup
            exact (List.nodup_cons.mp hnodup).2
        rw [ih htail hi hj hu hv]

/-- The call of the cipher for a piece of an encrypted upload. -/
theorem sealCall_eq_some_iff {piece : Piece} {entry : Sealed FileKey (List UInt8)} :
    piece.sealCall = some entry ↔
      ∃ nonceBase, piece.file.key = some entry.key ∧ piece.file.nonceBase = some nonceBase ∧
        entry.nonce = buildNonce nonceBase piece.place.nonceIndex ∧
        entry.aad = piece.place.aad ∧ entry.plain = piece.content := by
  obtain ⟨key, nonce, aad, plain⟩ := entry
  simp only [Piece.sealCall, FileCipher.sealCall, FileCipher.key, FileCipher.nonceBase]
  cases piece.file.mode with
  | plain => simp
  | encrypted cipher key' nonceBase encrypting =>
    simp only [Option.some.injEq, Sealed.mk.injEq]
    constructor
    · rintro ⟨rfl, rfl, rfl, rfl⟩
      exact ⟨nonceBase, rfl, rfl, rfl, rfl, rfl⟩
    · rintro ⟨_, rfl, rfl, rfl, rfl, rfl⟩
      exact ⟨rfl, rfl, rfl, rfl⟩

theorem sealCall_isSome {piece : Piece} (h : piece.file.cipher.isEncrypting = true) :
    ∃ entry, piece.sealCall = some entry := by
  simp only [FileCipher.cipher] at h
  simp only [Piece.sealCall, FileCipher.sealCall]
  cases hmode : piece.file.mode with
  | plain =>
    rw [hmode] at h
    cases h
  | encrypted cipher key nonceBase encrypting => exact ⟨_, rfl⟩

theorem isEncrypting_of_key {key : FileKey} (h : file.key = some key) :
    file.cipher.isEncrypting = true := by
  simp only [FileCipher.key] at h
  simp only [FileCipher.cipher]
  cases hmode : file.mode with
  | plain =>
    rw [hmode] at h
    cases h
  | encrypted cipher key' nonceBase encrypting => exact encrypting

variable {actions : List Action}

/-- The log holds nothing but sealed pieces, and every sealed piece. -/
theorem mem_sealed_iff {entry : Sealed FileKey (List UInt8)} :
    entry ∈ (Runs.run (Client.step packages) Client.start actions).sealed ↔
      ∃ piece ∈ Client.start.pieces packages actions, piece.sealCall = some entry := by
  rw [run_sealed]
  simp [Client.start]

/-- Two pieces of one upload have one cipher. -/
theorem file_eq_of_upload_eq {a b : Piece} (ha : a ∈ Client.start.pieces packages actions)
    (hb : b ∈ Client.start.pieces packages actions) (h : a.upload = b.upload) :
    a.file = b.file := by
  obtain ⟨⟨u, hu, hfileA⟩, _⟩ := sound_start.pieces actions a ha
  obtain ⟨⟨v, hv, hfileB⟩, _⟩ := sound_start.pieces actions b hb
  rw [h, hv] at hu
  rw [hfileA, hfileB, Option.some.inj hu]

/-- Two pieces whose uploads have one key belong to one upload. -/
theorem upload_eq_of_file_key {a b : Piece} {key : FileKey} (hfresh : FreshKeys actions)
    (ha : a ∈ Client.start.pieces packages actions) (hb : b ∈ Client.start.pieces packages actions)
    (hkeyA : a.file.key = some key) (hkeyB : b.file.key = some key) : a.upload = b.upload := by
  obtain ⟨new, hnew, hkeys⟩ := run_uploads packages actions Client.start
  have hnodup : ((Runs.run (Client.step packages) Client.start actions).uploads.filterMap
      fun upload => upload.file.key).Nodup := by
    rw [hnew]
    simp only [Client.start, List.nil_append]
    rw [hkeys]
    exact hfresh
  obtain ⟨⟨u, hu, hfileA⟩, _⟩ := sound_start.pieces actions a ha
  obtain ⟨⟨v, hv, hfileB⟩, _⟩ := sound_start.pieces actions b hb
  exact upload_eq_of_key hnodup hu hv (hfileA ▸ hkeyA) (hfileB ▸ hkeyB)

def exampleFile : FileCipher :=
  { chunkSize := 2
    mode := .encrypted .chaCha20Poly1305 (Vector.replicate 32 0x11)
      ⟨#[0, 1, 2, 3, 4, 5, 6, 7], rfl⟩ rfl }

/-- A file of three bytes. -/
def exampleBlock : ChunkedBlock := exampleFile.toEventBlock 3

def exampleDescription : List UInt8 :=
  asciiBytes ("\x7b\"v\":1,\"cipher\":\"chacha20-poly1305\"," ++
    "\"nonce_base\":\"AAECAwQFBgc=\",\"chunk_size\":2,\"file_size\":3\x7d")

def examplePackages : Packages :=
  (Packages.numbered fun _ => Vector.replicate 32 0).withText exampleBlock.toDescription
    exampleDescription (Packages.numbered_toJson_ne (by decide)) (by decide)

/-- A PUT of the body, with the server's status and the answers to its first
round. -/
def examplePut (sending : Nat) (body : List UInt8)
    (answers : List (Except SdkError ChunkAck)) : List Action :=
  [.start 0 (.receiveUpload "https://example.org/" "@alice:example.org")
      (.ok { received := 0, finished := false, truncated := false }) body,
    .turn sending body answers]

/-- The upload is created, the first PUT loses its connection, and a second PUT
begins. -/
def exampleActions (first second : List UInt8) : List Action :=
  .create "https://example.org" "@alice:example.org" exampleFile exampleBlock
      (.ok { headerId := 0, id := 7, mxc := "mxc://example.org/a", chunkSize := 2,
             chunkMaxBytes := 4098 }) ::
    (examplePut 0 first [] ++
      examplePut 1 second [.ok { received := 1, finished := false, truncated := false }])

end UploadNonces
end WbfMatrixClient
