import WbfMatrixClient.FetchWindows
import WbfMatrixClient.Lib.Chunking

/-!
# Messages for the device

The server keeps the messages for this device in a queue until it is told to destroy
them. They are imported in batches: the crypto machine takes them into its store, it is
saved which ones that were, and then the server is told. Any of this can fail, and
whatever was done before stays done.

What the machine says, whether a file could be written and what comes over the line are
given for every call. A call that is cut off by a crash ends like one that fails there.
That the devices of someone who asks for a verification are looked up before the import
changes nothing of what is modelled.
-/

namespace WbfMatrixClient

/-- The greatest count that was processed, and what the server may destroy. -/
structure ToDeviceState where
  cdSeq : Option UInt64
  toDestroy : List UInt64
deriving DecidableEq

namespace ToDeviceState

/-- Nothing was processed yet, as when there is no file. -/
def start : ToDeviceState :=
  { cdSeq := none, toDestroy := [] }

/-- The greater of the two counts. -/
def later : Option UInt64 → UInt64 → UInt64
  | none, count => count
  | some current, count => if current ≤ count then count else current

theorem le_later (current : Option UInt64) (count : UInt64) : count ≤ later current count := by
  cases current with
  | none => exact UInt64.le_refl count
  | some current =>
    rw [later]
    split
    next => exact UInt64.le_refl count
    next hless => exact UInt64.le_of_lt (UInt64.not_le.mp hless)

theorem current_le_later (current count : UInt64) : current ≤ later (some current) count := by
  rw [later]
  split
  next hle => exact hle
  next => exact UInt64.le_refl current

theorem later_cases (current : Option UInt64) (count : UInt64) :
    later current count = count ∨ current = some (later current count) := by
  cases current with
  | none => exact .inl rfl
  | some current =>
    rw [later]
    split
    next => exact .inl rfl
    next => exact .inr rfl

def markProcessed (state : ToDeviceState) (count : UInt64) : ToDeviceState :=
  { cdSeq := some (later state.cdSeq count)
    toDestroy :=
      if count ∈ state.toDestroy then state.toDestroy else state.toDestroy ++ [count] }

def markDestroyed (state : ToDeviceState) (destroyed : List UInt64) : ToDeviceState :=
  { state with toDestroy := state.toDestroy.filter fun count => count ∉ destroyed }

end ToDeviceState

structure ItemsDestroyedMeta where
  tc : UInt32
  bc : UInt32

structure ToDevicePackages where
  windows : WindowPackages
  itemsDestroyed : List UInt8 → Except String ItemsDestroyedMeta
  /-- The meta section that says how many counts the data have. -/
  destroyMeta : Nat → List UInt8
  fetchMeta : List UInt8

def deviceFeature : String := "device"

def encodeCounts (counts : List UInt64) : List UInt8 :=
  counts.flatMap fun count => Bytes.toBigEndian 8 count.toNat

def decodeCounts (data : List UInt8) : Except SdkError (List UInt64) :=
  if data.length % 8 ≠ 0 then
    .error (.protocol ("a count list must be a multiple of 8 bytes, got " ++
      toString data.length))
  else
    .ok ((List.range (data.length / 8)).map fun index =>
      UInt64.ofNat (Bytes.ofBigEndian (Chunking.piece 8 index data)))

theorem length_encodeCounts (counts : List UInt64) :
    (encodeCounts counts).length = 8 * counts.length := by
  induction counts with
  | nil => rfl
  | cons count counts ih =>
    rw [encodeCounts, List.flatMap_cons, ← encodeCounts, List.length_append, ih,
      Bytes.length_toBigEndian, List.length_cons]
    omega

/-- The field of a count among those of the others. -/
theorem piece_encodeCounts (counts : List UInt64) :
    ∀ index (h : index < counts.length),
      Chunking.piece 8 index (encodeCounts counts) = Bytes.toBigEndian 8 counts[index].toNat := by
  induction counts with
  | nil => exact fun _ h => absurd h (Nat.not_lt_zero _)
  | cons count counts ih =>
    intro index h
    have hfield := Bytes.length_toBigEndian 8 count.toNat
    rw [encodeCounts, List.flatMap_cons, ← encodeCounts]
    cases index with
    | zero =>
      rw [Chunking.piece, Nat.zero_mul, List.drop_zero, List.take_left' hfield]
      rfl
    | succ index =>
      rw [Chunking.piece, Nat.add_mul, Nat.one_mul, Nat.add_comm, ← List.drop_drop,
        List.drop_left' hfield, ← Chunking.piece, ih index (Nat.lt_of_succ_lt_succ h)]
      rfl

theorem decodeCounts_encode (counts : List UInt64) :
    decodeCounts (encodeCounts counts) = .ok counts := by
  have hlength := length_encodeCounts counts
  rw [decodeCounts, if_neg (by omega),
    show (encodeCounts counts).length / 8 = counts.length by omega]
  congr 1
  refine List.ext_getElem (by simp) fun index hindex hcount => ?_
  rw [List.getElem_map, List.getElem_range, piece_encodeCounts counts index hcount,
    Bytes.ofBigEndian_toBigEndian counts[index].toNat_lt]
  exact UInt64.ofNat_toNat

/-- What was decoded is every byte of the data. -/
theorem encode_of_decodeCounts {data : List UInt8} {counts : List UInt64}
    (h : decodeCounts data = .ok counts) : encodeCounts counts = data := by
  rw [decodeCounts] at h
  split_ifs at h with hwhole
  cases h
  have hcount : data.length / 8 * 8 = data.length := by omega
  rw [encodeCounts, List.flatMap_map, List.flatMap_def]
  have hpieces : ((List.range (data.length / 8)).map fun index => Bytes.toBigEndian 8
      (UInt64.ofNat (Bytes.ofBigEndian (Chunking.piece 8 index data))).toNat) =
        (List.range (data.length / 8)).map fun index => Chunking.piece 8 index data := by
    refine List.map_congr_left fun index hindex => ?_
    have hlength : (Chunking.piece 8 index data).length = 8 := by
      refine Chunking.length_piece_of_le ?_
      have := List.mem_range.mp hindex
      omega
    have hlt := Bytes.ofBigEndian_lt (Chunking.piece 8 index data)
    rw [hlength] at hlt
    rw [UInt64.toNat_ofNat_of_lt' hlt]
    conv_rhs => rw [← Bytes.toBigEndian_ofBigEndian (Chunking.piece 8 index data), hlength]
  rw [hpieces, Chunking.flatten_pieces, hcount, List.take_length]

section Destroy

variable (packages : ToDevicePackages)

/-- The command to destroy. -/
def itemsDestroy (counts : List UInt64) (id : UInt64) (seq : UInt32) : Pack :=
  { kind := .device, subtype := device.itemsDestroy, flags := 0, id := id, seq := seq,
    «meta» := packages.destroyMeta counts.length, data := encodeCounts counts }

/-- What is read of a list of items or of counts is every byte of it, each once, and every list
is read back. -/
theorem lists_decode_exactly (data : List UInt8) :
    (∀ items : List (List UInt8), (∀ item ∈ items, item.length < 2 ^ 32) →
      (splitLengthPrefixed data = .ok items ↔ joinLengthPrefixed items = data)) ∧
    (∀ items, splitLengthPrefixed data = .ok items →
      (∀ item ∈ items, item.length < 2 ^ 32) ∧ joinLengthPrefixed items = data) ∧
    ∀ (counts : List UInt64) (id : UInt64) (seq : UInt32),
      decodeCounts data = .ok counts ↔ (itemsDestroy packages counts id seq).data = data := by
  refine ⟨splitLengthPrefixed_eq_ok_iff data, join_of_splitLengthPrefixed data,
    fun counts _ _ => ⟨?_, ?_⟩⟩
  · exact encode_of_decodeCounts
  · rintro rfl
    exact decodeCounts_encode counts

/-- An acknowledgement tells nothing yet. Only counts that the command listed may come
back. -/
def parseItemsDestroyed (request response : Pack) (sent : List UInt64) :
    Except SdkError (Option (List UInt64)) :=
  if response.kind = .control ∧ response.subtype = control.error then
    .error (serverError packages.windows.value response.meta)
  else if response.id ≠ request.id then
    .error (.protocol ("ItemsDestroy reply id " ++ toString response.id ++
      " does not echo the command id " ++ toString request.id))
  else if response.flags &&& flags.isResponse = 0 then
    .error (.protocol "ItemsDestroy reply without IS_RESPONSE")
  else if response.kind = .control ∧ response.subtype = control.ack then
    if response.seq = request.seq then
      .ok none
    else
      .error (.protocol ("ItemsDestroy Ack seq " ++ toString response.seq ++
        " does not echo the command seq " ++ toString request.seq))
  else if response.kind = .device ∧ response.subtype = device.itemsDestroyed then
    match parseMeta packages.windows packages.itemsDestroyed response with
    | .error error => .error error
    | .ok found =>
        if found.tc.toNat ≠ sent.length then
          .error (.protocol ("ItemsDestroyed tc " ++ toString found.tc ++
            " but the command listed " ++ toString sent.length))
        else
          match decodeCounts response.data with
          | .error error => .error error
          | .ok destroyed =>
              if UInt32.ofNat destroyed.length ≠ found.bc then
                .error (.protocol ("ItemsDestroyed bc " ++ toString found.bc ++
                  " but data holds " ++ toString destroyed.length ++ " counts"))
              else
                match destroyed.find? fun count => count ∉ sent with
                | some stranger =>
                    .error (.protocol ("ItemsDestroyed names count " ++ toString stranger ++
                      " which the command did not list"))
                | none => .ok (some destroyed)
  else
    .error (.protocol ("expected Ack or Device/ItemsDestroyed, got kind " ++
      response.kind.label ++ " subtype " ++ hexByte response.subtype))

def onDestroyPack (request : Pack) (sent : List UInt64) (destroyed : Option (List UInt64))
    (response : Pack) : Except SdkError (Option (List UInt64) × Bool) :=
  match parseItemsDestroyed packages request response sent with
  | .error error => .error error
  | .ok none => .ok (destroyed, true)
  | .ok (some gone) => .ok (some gone, false)

/-- The packs that come for the command, and how the line ends when there are no more. -/
abbrev Reply : Type := List Pack × Except SdkError Unit

/-- What the reply says about the counts that were sent. -/
def destroyedBy (counts : List UInt64) (id : UInt64) (seq : UInt32) (reply : Reply) :
    Except SdkError (List UInt64) :=
  match requestStream (onDestroyPack packages (itemsDestroy packages counts id seq) counts)
      reply.2 reply.1 none with
  | .error error => .error error
  | .ok none => .error (.protocol "ItemsDestroy got an Ack but no ItemsDestroyed")
  | .ok (some destroyed) => .ok destroyed

end Destroy

structure RoomKeyInfo where
  roomId : String
  sessionId : String
deriving DecidableEq

/-- A command that was sent, with what had been saved and imported when it was. -/
structure DestroyCommand where
  counts : List UInt64
  saved : Option ToDeviceState
  imported : List (UInt64 × Json)

/-- What was saved about a count. -/
inductive Mark where
  | processed (count : UInt64)
  | destroyed (count : UInt64)

/-- The queue on the server, the store of the machine and the file. The rest is kept to
speak of what has happened. -/
structure DeviceWorld where
  queue : List UInt64
  file : Option ToDeviceState
  imported : List (UInt64 × Json)
  roomKeys : List RoomKeyInfo
  arrived : List UInt64
  commands : List DestroyCommand
  confirmed : List UInt64
  marks : List Mark

namespace DeviceWorld

def fresh : DeviceWorld :=
  { queue := [], file := none, imported := [], roomKeys := [], arrived := [], commands := [],
    confirmed := [], marks := [] }

/-- The machine has taken in the messages, and with them these room keys. -/
def commit (world : DeviceWorld) (items : List (UInt64 × Json)) (keys : List RoomKeyInfo) :
    DeviceWorld :=
  { world with imported := world.imported ++ items, roomKeys := world.roomKeys ++ keys }

/-- The file is there as a whole. -/
def store (world : DeviceWorld) (state : ToDeviceState) (marks : List Mark) : DeviceWorld :=
  { world with file := some state, marks := world.marks ++ marks }

end DeviceWorld

/-- How writing the file went. It is written as a whole or not at all, also when the
call does not go on after it. -/
inductive Saving where
  | done
  | stopped (error : SdkError) (written : Bool)

/-- What the machine said about a batch, and what it has committed when it did not
return. -/
inductive Receiving where
  | ok (keys : List RoomKeyInfo)
  | stopped (error : SdkError) (committed : Option (List RoomKeyInfo))

/-- What happens around one import. -/
structure ImportCourse where
  load : Option SdkError
  receiving : Receiving
  firstSave : Saving
  id : UInt64
  seq : UInt32
  reply : Reply
  secondSave : Saving

structure ImportReport where
  roomKeys : List RoomKeyInfo
  imported : Nat
  destroyed : List UInt64
  cdSeq : Option UInt64
  stillToDestroy : Nat
  verificationRequests : List (String × String)

def findIncomingRequest (event : Json) : Option (String × String) := do
  let kind ← (event.get "type").bind Json.asStr
  if kind ≠ "m.key.verification.request" then
    none
  else
    let sender ← (event.get "sender").bind Json.asStr
    let flowId ← ((event.get "content").bind fun content => content.get "transaction_id").bind
      Json.asStr
    some (sender, flowId)

def DeviceWorld.save (world : DeviceWorld) (state : ToDeviceState) (marks : List Mark) :
    Saving → DeviceWorld × Except SdkError Unit
  | .done => (world.store state marks, .ok ())
  | .stopped error true => (world.store state marks, .error error)
  | .stopped error false => (world, .error error)

section Import

variable (packages : ToDevicePackages)

def deviceItemsDestroy (features : Option (List String)) (course : ImportCourse)
    (counts : List UInt64) (world : DeviceWorld) : DeviceWorld × Except SdkError (List UInt64) :=
  match requireFeature features deviceFeature with
  | .error error => (world, .error error)
  | .ok () =>
      if counts = [] then
        (world, .ok [])
      else
        let world := { world with
          commands := world.commands ++
            [{ counts := counts, saved := world.file, imported := world.imported }] }
        match destroyedBy packages counts course.id course.seq course.reply with
        | .error error => (world, .error error)
        | .ok destroyed =>
            ({ world with confirmed := world.confirmed ++ destroyed }, .ok destroyed)

def importItems (features : Option (List String)) (course : ImportCourse)
    (items : List (UInt64 × Json)) (world : DeviceWorld) :
    DeviceWorld × Except SdkError ImportReport :=
  match course.load with
  | some error => (world, .error error)
  | none =>
      let state := world.file.getD .start
      let counts := items.map Prod.fst
      let verificationRequests := (items.map Prod.snd).filterMap findIncomingRequest
      match course.receiving with
      | .stopped error none => (world, .error error)
      | .stopped error (some keys) => (world.commit items keys, .error error)
      | .ok keys =>
          let state := counts.foldl ToDeviceState.markProcessed state
          match (world.commit items keys).save state (counts.map .processed) course.firstSave with
          | (world, .error error) => (world, .error error)
          | (world, .ok ()) =>
              match deviceItemsDestroy packages features course state.toDestroy world with
              | (world, .error error) => (world, .error error)
              | (world, .ok destroyed) =>
                  let state := state.markDestroyed destroyed
                  match world.save state (destroyed.map .destroyed) course.secondSave with
                  | (world, .error error) => (world, .error error)
                  | (world, .ok ()) =>
                      (world, .ok
                        { roomKeys := keys
                          imported := counts.length
                          destroyed := destroyed
                          cdSeq := state.cdSeq
                          stillToDestroy := state.toDestroy.length
                          verificationRequests := verificationRequests })

/-- What happens around one window. -/
structure WindowCourse where
  id : UInt64
  seq : UInt32
  answer : Reply
  importing : ImportCourse

def pullWindowsLimit : Nat := 64

def deviceFetch (id : UInt64) (seq : UInt32) : Pack :=
  { kind := .device, subtype := device.fetch, flags := 0, id := id, seq := seq,
    «meta» := packages.fetchMeta, data := [] }

/-- The window that the server gives from the head of the queue. -/
def WindowCourse.window (features : Option (List String)) (course : WindowCourse) :
    Except SdkError DeviceWindow :=
  match requireFeature features deviceFeature with
  | .error error => .error error
  | .ok () =>
      deviceFetchWindow packages.windows (deviceFetch packages course.id course.seq)
        course.answer.2 course.answer.1

def moreIsOnlyMeaningfulWithItems (window : DeviceWindow) : Bool :=
  window.items ≠ [] && window.more

/-- Window after window, as many as are left. -/
def pullWindows (features : Option (List String)) (course : Nat → WindowCourse) :
    (left index : Nat) → List ImportReport → DeviceWorld →
      DeviceWorld × Except SdkError (List ImportReport)
  | 0, _, _, world =>
      (world, .error (.protocol ("the to-device queue did not catch up after " ++
        toString pullWindowsLimit ++ " windows")))
  | left + 1, index, reports, world =>
      match (course index).window packages features with
      | .error error => (world, .error error)
      | .ok window =>
          match importItems packages features (course index).importing window.items world with
          | (world, .error error) => (world, .error error)
          | (world, .ok report) =>
              if moreIsOnlyMeaningfulWithItems window then
                pullWindows features course left (index + 1) (reports ++ [report]) world
              else
                (world, .ok (reports ++ [report]))

def pullToDevice (features : Option (List String)) (course : Nat → WindowCourse)
    (world : DeviceWorld) : DeviceWorld × Except SdkError (List ImportReport) :=
  pullWindows packages features course pullWindowsLimit 0 [] world

end Import

end WbfMatrixClient
