import WbfMatrixClient.CacheOperations

/-!
# A room that is encrypted stays so

Whether a room is encrypted stands in the row of the room. Many operations write
it, and none takes it back, so as long as the row is there every reading of the
room says that it is encrypted.
-/

namespace WbfMatrixClient
namespace RoomEncryption

open Cache

/-- The row of the room is there. -/
def HasRoom (cache : Cache) (room : String) : Prop :=
  ∃ row, Table.find RoomRow.roomId cache.rooms room = some row

/-- The row of the room says that it is encrypted. -/
def Known (rooms : List RoomRow) (room : String) : Prop :=
  ∃ row, Table.find RoomRow.roomId rooms room = some row ∧ row.encrypted = some true

/-- A room that is known to be encrypted is still known to be. -/
def RoomsKept (rooms rooms' : List RoomRow) : Prop :=
  ∀ room, Known rooms room → Known rooms' room

/-- What is shown of a room is about this room. -/
def RowsNamed (rows : List RoomListRow) : Prop :=
  ∀ row ∈ rows, ∀ conversation, row.conversation = some conversation → conversation.id = row.room

section Rows

variable {rooms : List RoomRow} {rows : List RoomListRow}

theorem RoomsKept.append (rooms : List RoomRow) (new : RoomRow) :
    RoomsKept rooms (rooms ++ [new]) := by
  rintro room ⟨row, hrow, hencrypted⟩
  exact ⟨row, Table.find_append_of_some hrow _, hencrypted⟩

theorem RoomsKept.update {f : RoomRow → RoomRow} (roomId : String)
    (hid : ∀ row, (f row).roomId = row.roomId)
    (hf : ∀ row, row.encrypted = some true → (f row).encrypted = some true) :
    RoomsKept rooms (Table.update RoomRow.roomId rooms roomId f) := by
  rintro room ⟨row, hrow, hencrypted⟩
  by_cases hsame : room = roomId
  · subst hsame
    refine ⟨f row, ?_, hf row hencrypted⟩
    rw [Table.find_update_self hid, hrow, Option.map_some]
  · refine ⟨row, ?_, hencrypted⟩
    rw [Table.find_update_ne hid hsame, hrow]

/-- Deleting rooms by their ids leaves those that stay as they were. -/
theorem known_filter {room : String} (p : String → Bool) (h : Known rooms room)
    (hstays : ∃ row, Table.find RoomRow.roomId (rooms.filter fun row => p row.roomId) room = some
      row) : Known (rooms.filter fun row => p row.roomId) room := by
  obtain ⟨row, hrow, hencrypted⟩ := h
  obtain ⟨row', hrow'⟩ := hstays
  obtain ⟨hmem, hid⟩ := Table.mem_of_find hrow'
  obtain ⟨_, hp⟩ := List.mem_filter.mp hmem
  refine ⟨row, ?_, hencrypted⟩
  have hsame : (fun row : RoomRow => decide (p row.roomId = true ∧ decide (row.roomId = room) = true))
      = fun row => decide (row.roomId = room) := by
    funext other
    by_cases hother : other.roomId = room
    · rw [hid] at hp
      simp [hother, hp]
    · simp [hother]
  rw [Table.find, List.find?_filter, hsame]
  exact hrow

theorem RowsNamed.update {f : RoomListRow → RoomListRow} (h : RowsNamed rows) (k : String × String)
    (hroom : ∀ row, (f row).room = row.room)
    (hf : ∀ row ∈ rows, row.key = k → ∀ conversation, (f row).conversation = some conversation →
      conversation.id = row.room) : RowsNamed (Table.update RoomListRow.key rows k f) := by
  intro row hrow conversation hconversation
  rcases Table.mem_update.mp hrow with ⟨hmem, _⟩ | ⟨old, hold, hkey, rfl⟩
  · exact h row hmem conversation hconversation
  · rw [hroom]
    exact hf old hold hkey conversation hconversation

theorem RowsNamed.map {f : RoomListRow → RoomListRow} (h : RowsNamed rows)
    (hroom : ∀ row, (f row).room = row.room) (hf : ∀ row, (f row).conversation = row.conversation) :
    RowsNamed (rows.map f) := by
  intro row hrow conversation hconversation
  obtain ⟨old, hold, rfl⟩ := List.mem_map.mp hrow
  rw [hroom]
  rw [hf] at hconversation
  exact h old hold conversation hconversation

theorem RowsNamed.filter (h : RowsNamed rows) (p : RoomListRow → Bool) :
    RowsNamed (rows.filter p) := fun row hrow => h row (List.mem_of_mem_filter hrow)

theorem RowsNamed.upsert {f : RoomListRow → RoomListRow} {new : RoomListRow} (h : RowsNamed rows)
    (hroom : ∀ row, (f row).room = row.room)
    (hnew : ∀ conversation, new.conversation = some conversation → conversation.id = new.room)
    (hf : ∀ row ∈ rows, row.key = new.key → ∀ conversation, (f row).conversation = some conversation
      → conversation.id = row.room) : RowsNamed (upsertRoomListRow rows new f) := by
  rw [upsertRoomListRow]
  cases Table.find RoomListRow.key rows new.key with
  | none =>
    intro row hrow
    rcases List.mem_append.mp hrow with hrow | hrow
    · exact h row hrow
    · rw [List.mem_singleton.mp hrow]
      exact hnew
  | some found => exact h.update new.key hroom hf

end Rows

/-- A later cache with all rooms, in which what is known of them is still known. -/
structure Later (a b : Cache) : Prop where
  rooms : RoomsKept a.rooms b.rooms
  named : RowsNamed a.roomList → RowsNamed b.roomList

namespace Later

variable {a b c : Cache}

theorem refl (a : Cache) : Later a a := ⟨fun _ h => h, id⟩

theorem trans (h : Later a b) (h' : Later b c) : Later a c :=
  ⟨fun room hknown => h'.rooms room (h.rooms room hknown), h'.named ∘ h.named⟩

theorem of_same (hrooms : b.rooms = a.rooms) (hlist : b.roomList = a.roomList) : Later a b := by
  refine ⟨?_, ?_⟩
  · rw [hrooms]
    exact fun _ h => h
  · rw [hlist]
    exact id

theorem of_rooms (hrooms : RoomsKept a.rooms b.rooms) (hlist : b.roomList = a.roomList) :
    Later a b := by
  refine ⟨hrooms, ?_⟩
  rw [hlist]
  exact id

theorem of_list (hrooms : b.rooms = a.rooms) (hlist : RowsNamed a.roomList → RowsNamed b.roomList) :
    Later a b := by
  refine ⟨?_, hlist⟩
  rw [hrooms]
  exact fun _ h => h

theorem foldl {ι : Type} {f : Cache → ι → Cache} (hf : ∀ cache i, Later cache (f cache i)) :
    ∀ (items : List ι) (cache : Cache), Later cache (items.foldl f cache) :=
  fun items cache =>
    List.foldlRecOn items f (refl cache) fun reached hreached i _ =>
      hreached.trans (hf reached i)

end Later

theorem userRowId_later (cache : Cache) (mxid : String) : Later cache (cache.userRowId mxid) := by
  rw [userRowId]
  split_ifs <;> exact Later.of_same rfl rfl

theorem roomRowId_later (cache : Cache) (roomId : String) :
    Later cache (cache.roomRowId roomId) := by
  rw [roomRowId]
  split_ifs
  · exact Later.refl cache
  · exact Later.of_rooms (RoomsKept.append cache.rooms _) rfl

theorem raiseEncrypted_later (cache : Cache) (roomId : String) (encrypted : Bool) :
    Later cache (cache.raiseEncrypted roomId encrypted) := by
  refine Later.of_rooms (RoomsKept.update roomId (fun _ => rfl) fun row hrow => ?_) rfl
  simp only [hrow, if_true]

section Events

variable (packages : ContentPackages)

theorem markEncrypted_later (cache : Cache) (room : String) (incoming : IncomingEvent) :
    Later cache (cache.markEncrypted room incoming) := by
  rw [markEncrypted]
  split_ifs
  · exact Later.of_rooms (RoomsKept.update room (fun _ => rfl) fun _ _ => rfl) rfl
  · exact Later.refl cache

theorem logSynced_later (cache : Cache) (user room eventId : String) :
    Later cache (cache.logSynced user room eventId) := by
  rw [logSynced]
  split_ifs <;> exact Later.of_same rfl rfl

theorem upsertEvent_later {user room : String} {cache : Cache} {incoming : IncomingEvent}
    {result : Cache × Bool}
    (h : upsertEvent packages user room cache incoming = some result) :
    Later cache result.1 := by
  obtain ⟨_, rfl⟩ | ⟨eventId, sender, stored, _, hstored, rfl⟩ := upsertEvent_cases h
  · exact Later.refl cache
  · have htables := storeEvent_tables hstored
    have hstore : Later (cache.userRowId sender) stored :=
      Later.of_same (congrArg rooms htables :) (congrArg roomList htables :)
    exact (userRowId_later cache sender).trans (hstore.trans
      ((markEncrypted_later stored room incoming).trans
        (logSynced_later _ user room eventId)))

theorem upsertEvents_later (user room : String) (cache : Cache) (events : List IncomingEvent) :
    Later cache (upsertEvents packages user room cache events) :=
  upsertEvents_induction
    (fun _ _ _ _ hone hreached => hreached.trans (upsertEvent_later packages hone))
    ((userRowId_later cache user).trans (roomRowId_later _ room)) (Later.refl cache)

end Events

theorem upsertConversation_later (user : String) (cache : Cache) (conversation : Conversation) :
    Later cache (upsertConversation user cache conversation) := by
  refine (roomRowId_later cache conversation.id).trans (Later.trans ?_ (raiseEncrypted_later _ _ _))
  refine Later.of_list rfl fun h => RowsNamed.upsert h (fun _ => rfl) ?_ ?_
  · intro written hwritten
    cases hwritten
    rfl
  · intro row _ hkey written hwritten
    cases hwritten
    exact (congrArg Prod.fst hkey).symm

theorem recordJoinedRoom_later (user : String) (cache : Cache) (roomId : String) :
    Later cache (recordJoinedRoom user cache roomId) := by
  refine (roomRowId_later cache roomId).trans (Later.of_list rfl fun h => ?_)
  exact h.upsert (fun _ => rfl) (fun _ hnone => by cases hnone) fun row hrow _ => h row hrow

theorem recordJoinedRooms_later (cache : Cache) (user : String) (roomIds : List String) :
    Later cache (cache.recordJoinedRooms user roomIds) := by
  refine (userRowId_later cache user).trans (Later.trans
    (Later.foldl (recordJoinedRoom_later user) roomIds _) (Later.of_list rfl fun h => ?_))
  exact h.map (fun row => by split_ifs <;> rfl) (fun row => by split_ifs <;> rfl)

theorem recordMembership_later (cache : Cache) (user roomId : String) (membership : Membership)
    (onlyIfNow : Option Membership) :
    Later cache (cache.recordMembership user roomId membership onlyIfNow).1 := by
  refine (userRowId_later cache user).trans ((roomRowId_later _ roomId).trans ?_)
  cases onlyIfNow with
  | none =>
    refine Later.of_list rfl fun h => ?_
    exact RowsNamed.upsert h (fun _ => rfl) (fun _ hnone => by cases hnone)
      fun row hrow _ => h row hrow
  | some now =>
    refine Later.of_list rfl fun h => ?_
    refine RowsNamed.update h (roomId, user) (fun row => by split_ifs <;> rfl) ?_
    intro row hrow _ conversation hconversation
    refine h row hrow conversation ?_
    rw [← hconversation]
    split_ifs <;> rfl

theorem writeInvite_later (user : String) (cache : Cache) (invite : InviteItem) :
    Later cache (writeInvite user cache invite) := by
  refine (userRowId_later cache user).trans ((roomRowId_later _ invite.roomId).trans ?_)
  refine Later.of_list rfl fun h => ?_
  exact RowsNamed.upsert h (fun _ => rfl) (fun _ hnone => by cases hnone)
    fun row hrow _ => h row hrow

theorem applyInviteRound_later (cache : Cache) (user : String) (round : List (Nat × InviteItem))
    (touched : List (String × Nat)) (departed : List (String × Membership)) :
    Later cache (cache.applyInviteRound user round touched departed) := by
  refine (userRowId_later cache user).trans (Later.trans (Later.foldl ?_ round _)
    (Later.of_list rfl fun h => ?_))
  · rintro cache ⟨count, invite⟩
    simp only
    split_ifs
    · exact Later.refl cache
    · exact writeInvite_later user cache invite
  · exact h.map (fun row => by split_ifs <;> rfl) (fun row => by split_ifs <;> rfl)

theorem describe_id {packages : NumberPackages} {roomId me : String} {state : List Json}
    {memberCount : Nat} {directPeers : List String} {membersName : Option String}
    {conversation : Conversation}
    (h : describe packages roomId me state memberCount directPeers membersName = .ok conversation) :
    conversation.id = roomId := by
  rw [describe] at h
  split at h
  · cases h
  · cases h
    rfl

theorem conversationWithStateEvent_id {packages : NumberPackages} {previous updated : Conversation}
    {me : String} {written : Json}
    (h : conversationWithStateEvent packages previous me written = .ok (some updated)) :
    updated.id = previous.id := by
  rw [conversationWithStateEvent] at h
  split at h
  · cases h
  · split_ifs at h
    · cases h
      rfl
    · split at h
      · dsimp only at h
        generalize hdescribe : describe packages _ _ _ _ _ _ = described at h
        cases described with
        | error e => cases h
        | ok conversation =>
          cases h
          exact describe_id hdescribe
      · cases h
    · split at h
      · dsimp only at h
        generalize hdescribe : describe packages _ _ _ _ _ _ = described at h
        cases described with
        | error e => cases h
        | ok conversation =>
          cases h
          exact describe_id hdescribe
      · cases h

theorem recordWrittenState_later (packages : NumberPackages) (cache : Cache) (user roomId : String)
    (written : Json) : Later cache (cache.recordWrittenState packages user roomId written).1 := by
  rw [recordWrittenState]
  generalize hmarked : (if isEncryptionEvent written then
    { (cache.userRowId user).roomRowId roomId with
      rooms := Table.update RoomRow.roomId ((cache.userRowId user).roomRowId roomId).rooms roomId
        fun row => { row with encrypted := some true } }
    else (cache.userRowId user).roomRowId roomId) = marked
  have hlater : Later cache marked := by
    refine (userRowId_later cache user).trans ((roomRowId_later _ roomId).trans ?_)
    rw [← hmarked]
    split_ifs
    · exact Later.of_rooms (RoomsKept.update roomId (fun _ => rfl) fun _ _ => rfl) rfl
    · exact Later.refl _
  refine hlater.trans ?_
  split
  case h_2 => exact Later.refl marked
  case h_1 updated hupdated =>
    refine Later.of_list rfl fun h => ?_
    refine RowsNamed.update h (roomId, user) (fun _ => rfl) ?_
    intro row _ hkey conversation hconversation
    cases hconversation
    obtain ⟨previous, hprevious, hcomputed⟩ := Option.map_eq_some_iff.mp hupdated
    obtain ⟨seen, hseen, hshown⟩ := Option.bind_eq_some_iff.mp hprevious
    obtain ⟨hmem, hseenKey⟩ := Table.mem_of_find hseen
    split_ifs at hshown
    calc
      updated.id = previous.id := conversationWithStateEvent_id hcomputed
      _ = seen.room := h seen hmem previous hshown
      _ = roomId := congrArg Prod.fst hseenKey
      _ = row.room := (congrArg Prod.fst hkey).symm

theorem step_later (packages : CachePackages) (cache : Cache) {operation : Operation}
    (h : operation.forgets = false) : Later cache (cache.step packages operation) := by
  have hmedia (h : operation.onMedia = true) : Later cache (cache.step packages operation) :=
    have htables := step_onMedia packages cache h
    Later.of_same (congrArg rooms htables :) (congrArg roomList htables :)
  cases operation with
  | upsertEvents user room events => exact upsertEvents_later packages.content user room cache events
  | hideMessage user room eventId => exact Later.of_same rfl rfl
  | mediaBegin mxc description | mediaRememberSource manifest sourceUri => exact hmedia rfl
  | mediaProgress mxc segmentsWritten chunkSize => exact hmedia rfl
  | mediaFinish mxc poolFile segmentsWritten fileSize bytesOnDisk verified => exact hmedia rfl
  | mediaReset mxc | mediaLinkEvent user room eventId | mediaDelete mxc => exact hmedia rfl
  | upsertConversations user conversations =>
    exact (userRowId_later cache user).trans
      (Later.foldl (upsertConversation_later user) conversations _)
  | recordJoinedRooms user roomIds => exact recordJoinedRooms_later cache user roomIds
  | recordRoomEncryption roomId encrypted =>
    exact (roomRowId_later cache roomId).trans (raiseEncrypted_later _ roomId encrypted)
  | recordMembership user roomId membership onlyIfNow =>
    exact recordMembership_later cache user roomId membership onlyIfNow
  | recordInvite user invite => exact writeInvite_later user cache invite
  | applyInviteRound user round touched departed =>
    exact applyInviteRound_later cache user round touched departed
  | recordWrittenState user roomId written =>
    exact recordWrittenState_later packages.number cache user roomId written
  | forgetAccount user | forgetRoom user room => cases h

variable {cache : Cache}

theorem forgetAccount_named (user : String) (h : RowsNamed cache.roomList) :
    RowsNamed (cache.forgetAccount user).1.roomList := by
  rw [forgetAccount]
  split_ifs
  · exact h.filter _
  · exact h

theorem forgetRoom_named (user room : String) (h : RowsNamed cache.roomList) :
    RowsNamed (cache.forgetRoom user room).1.roomList := by
  rw [forgetRoom]
  dsimp only
  split_ifs
  all_goals first
    | exact h
    | exact h.filter _
    | exact (h.filter _).filter _

theorem forgetAccount_rooms (cache : Cache) (user : String) :
    ∃ p : String → Bool,
      (cache.forgetAccount user).1.rooms = cache.rooms.filter fun row => p row.roomId := by
  let after := (cache.forgetAccount user).1
  by_cases huser : user ∈ cache.users
  · refine ⟨fun roomId => (after.events.any fun row => row.room = roomId) ||
      after.roomList.any fun row => row.room = roomId, ?_⟩
    simp only [after, forgetAccount, huser, if_true]
    rfl
  · refine ⟨fun _ => true, ?_⟩
    simp only [forgetAccount, huser, if_false, List.filter_true]

theorem forgetRoom_rooms (cache : Cache) (user room : String) :
    ∃ p : String → Bool,
      (cache.forgetRoom user room).1.rooms = cache.rooms.filter fun row => p row.roomId := by
  rw [forgetRoom]
  dsimp only
  split_ifs
  all_goals first
    | exact ⟨fun roomId => decide (roomId ≠ room), rfl⟩
    | exact ⟨fun _ => true, (List.filter_true _).symm⟩

variable {room : String}

/-- Forgetting deletes the row of a room or leaves it as it is. -/
theorem known_of_filtered {after : Cache}
    (hfilter : ∃ p : String → Bool, after.rooms = cache.rooms.filter fun row => p row.roomId)
    (h : Known cache.rooms room) (hstays : HasRoom after room) : Known after.rooms room := by
  obtain ⟨p, hp⟩ := hfilter
  rw [HasRoom, hp] at hstays
  rw [hp]
  exact known_filter p h hstays

theorem step_named (packages : CachePackages) (operation : Operation)
    (h : RowsNamed cache.roomList) : RowsNamed (cache.step packages operation).roomList := by
  cases hforgets : operation.forgets with
  | false => exact (step_later packages cache hforgets).named h
  | true =>
    cases operation with
    | forgetAccount user => exact forgetAccount_named user h
    | forgetRoom user room => exact forgetRoom_named user room h
    | _ => cases hforgets

theorem step_known (packages : CachePackages) (operation : Operation) (h : Known cache.rooms room)
    (hstays : HasRoom (cache.step packages operation) room) :
    Known (cache.step packages operation).rooms room := by
  cases hforgets : operation.forgets with
  | false => exact (step_later packages cache hforgets).rooms room h
  | true =>
    cases operation with
    | forgetAccount user => exact known_of_filtered (forgetAccount_rooms cache user) h hstays
    | forgetRoom user forgotten => exact known_of_filtered (forgetRoom_rooms cache user forgotten) h hstays
    | _ => cases hforgets

variable {user : String}

theorem findConversation_encrypted {conversation : Conversation} (h : Known cache.rooms room)
    (hfind : cache.findConversation user room = some conversation) :
    conversation.encrypted = true := by
  obtain ⟨row, hrow, hencrypted⟩ := h
  rw [findConversation, hrow] at hfind
  cases hlist : Table.find RoomListRow.key cache.roomList (room, user) with
  | none =>
    rw [hlist] at hfind
    cases hfind
  | some seen =>
    simp only [hlist, Option.map_eq_some_iff] at hfind
    obtain ⟨shown, _, rfl⟩ := hfind
    simp [hencrypted]

theorem knownEncryption_room (seen : Option Bool) :
    knownEncryption seen (some true) = some true := by
  cases seen with
  | none => rfl
  | some encrypted => cases encrypted <;> rfl

/-- An entry of the list is about the room of its row. -/
theorem roomListEntry_id {rows : List RoomListRow} {row : RoomListRow} (room : RoomRow)
    (h : RowsNamed rows) (hrow : row ∈ rows) :
    (roomListEntry user row room).id = row.room := by
  rw [roomListEntry]
  cases hshown : row.conversation with
  | none => rfl
  | some conversation => exact h row hrow conversation hshown

theorem listRoomEntries_encrypted {memberships : List Membership} {entry : RoomListEntry}
    (h : Known cache.rooms room) (hnamed : RowsNamed cache.roomList)
    (hentry : entry ∈ cache.listRoomEntries user memberships) (hid : entry.id = room) :
    entry.encrypted = some true := by
  obtain ⟨known, hknown, hencrypted⟩ := h
  rw [listRoomEntries, List.mem_insertionSort] at hentry
  obtain ⟨row, hrow, hshown⟩ := List.mem_filterMap.mp hentry
  split_ifs at hshown
  obtain ⟨stored, hstored, rfl⟩ := Option.map_eq_some_iff.mp hshown
  rw [roomListEntry_id stored hnamed hrow] at hid
  rw [hid, hknown] at hstored
  cases hstored
  rw [roomListEntry]
  simp only [hencrypted]
  exact knownEncryption_room _

/-- From the moment the row of a room says that it is encrypted, and as long as
this row is not deleted, every reading of the room by any account says that it
is encrypted. -/
theorem encrypted_stays (packages : CachePackages) (before after : List Operation) (room : String)
    (hencrypted : (Runs.run (Cache.step packages) Cache.empty before).findRoomEncrypted room = some
      true)
    (hstays : Runs.Along (Cache.step packages) (fun cache operation => HasRoom (cache.step packages
      operation) room) (Runs.run (Cache.step packages) Cache.empty before) after) :
    let cache := Runs.run (Cache.step packages)
      (Runs.run (Cache.step packages) Cache.empty before) after
    cache.findRoomEncrypted room = some true ∧
      (∀ user conversation, cache.findConversation user room = some conversation →
        conversation.encrypted = true) ∧
      ∀ user memberships, ∀ entry ∈ cache.listRoomEntries user memberships,
        entry.id = room → entry.encrypted = some true := by
  intro cache
  have hnamed : RowsNamed (Runs.run (Cache.step packages) Cache.empty before).roomList :=
    Runs.run_invariant (fun cache : Cache => RowsNamed cache.roomList)
      (fun cache operation => step_named packages operation) before Cache.empty
      (fun row hrow => by cases hrow)
  have hstart : Known (Runs.run (Cache.step packages) Cache.empty before).rooms room := by
    obtain ⟨row, hrow, hknown⟩ := Option.bind_eq_some_iff.mp hencrypted
    exact ⟨row, hrow, hknown⟩
  obtain ⟨hrows, hknown⟩ := Runs.run_invariant_along
    (fun cache : Cache => RowsNamed cache.roomList ∧ Known cache.rooms room)
    (fun cache operation hrow hboth =>
      ⟨step_named packages operation hboth.1, step_known packages operation hboth.2 hrow⟩)
    after _ hstays ⟨hnamed, hstart⟩
  refine ⟨?_, fun user conversation => findConversation_encrypted hknown, ?_⟩
  · obtain ⟨row, hrow, hyes⟩ := hknown
    rw [Cache.findRoomEncrypted, hrow]
    exact hyes
  · intro user memberships entry hentry hid
    exact listRoomEntries_encrypted hknown hrows hentry hid

/-- A server that lists the room as one that is not encrypted. -/
theorem encrypted_stays_listed_again :
    let packages : CachePackages :=
      { content := { blockFromJson := fun _ => .error "", quoted := id }
        number := { parseU64 := fun _ => none, parseI64 := fun _ => none } }
    let plain : Conversation :=
      { id := "!r", kind := .group, name := none, topic := none, encrypted := false,
        memberCount := 2, myPowerLevel := 0, canSendMessage := true, directPeer := none,
        state := none }
    let before : List Operation := [.recordRoomEncryption "!r" true]
    let after : List Operation := [.upsertConversations "@a" [plain], .forgetAccount "@b"]
    let cache := Runs.run (Cache.step packages)
      (Runs.run (Cache.step packages) Cache.empty before) after
    ∀ conversation, cache.findConversation "@a" "!r" = some conversation →
      conversation.encrypted = true := by
  intro packages plain before after cache
  exact (encrypted_stays packages before after "!r" (by decide +kernel)
    ⟨⟨⟨"!r", some true⟩, by decide +kernel⟩, ⟨⟨"!r", some true⟩, by decide +kernel⟩, trivial⟩).2.1
    "@a"

end RoomEncryption
end WbfMatrixClient
