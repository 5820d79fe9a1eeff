import WbfMatrixClient.EventNumbers

/-!
# The constraints of the schema

The schema of the cache says which columns name a row of another table, which keys are unique, and
which columns of a media row go together. The operations keep all of it: nothing is left over of a
row that was deleted, and no operation depends on a row that another one has taken away.
-/

namespace WbfMatrixClient
namespace CacheSchema

open EventPointers

/-- A chunked file has both its sizes, and what is verified is complete. -/
def Checked (row : MediaRow) : Prop :=
  (row.kind = .wbfChunked → row.fileSize.isSome = true ∧ row.chunkSize.isSome = true) ∧
    (row.verified = .unknown ∨ row.complete = true)

/-- The columns that name rows: the keys of the tables, and the senders of the events. -/
structure Keys where
  users : List String
  rooms : List String
  roomList : List (String × String)
  events : List ((String × String) × String)
  syncedLog : List (String × String × String)
  media : List String
  eventMedia : List EventMediaRow

def keysOf (cache : Cache) : Keys where
  users := cache.users
  rooms := cache.rooms.map RoomRow.roomId
  roomList := cache.roomList.map RoomListRow.key
  events := cache.events.map fun row => (row.key, row.sender)
  syncedLog := cache.syncedLog.map SyncedRow.key
  media := cache.media.map MediaRow.mxc
  eventMedia := cache.eventMedia

namespace Keys

def HasEvent (k : Keys) (room eventId : String) : Prop :=
  (room, eventId) ∈ k.events.map Prod.fst

theorem HasEvent.congr {k k' : Keys} {room eventId : String} (h : k.HasEvent room eventId)
    (hevents : k'.events = k.events) : k'.HasEvent room eventId := by
  rw [HasEvent, hevents]
  exact h

/-- The keys are unique. -/
structure Unique (k : Keys) : Prop where
  users : k.users.Nodup
  rooms : k.rooms.Nodup
  roomList : k.roomList.Nodup
  events : (k.events.map Prod.fst).Nodup
  syncedLog : k.syncedLog.Nodup
  media : k.media.Nodup
  eventMedia : k.eventMedia.Nodup

/-- What is named is there. -/
structure Refers (k : Keys) : Prop where
  roomList : ∀ row ∈ k.roomList, row.1 ∈ k.rooms ∧ row.2 ∈ k.users
  events : ∀ event ∈ k.events, event.1.1 ∈ k.rooms ∧ event.2 ∈ k.users
  syncedLog : ∀ row ∈ k.syncedLog, k.HasEvent row.1 row.2.1 ∧ row.2.2 ∈ k.users
  eventMedia : ∀ link ∈ k.eventMedia, k.HasEvent link.room link.eventId ∧ link.mxc ∈ k.media

end Keys

theorem hasEvent_iff {cache : Cache} {room eventId : String} :
    (keysOf cache).HasEvent room eventId ↔ (findEvent cache.events room eventId).isSome = true := by
  simp [Keys.HasEvent, keysOf, findEvent, Table.find]

/-- The cache keeps the constraints. -/
structure Kept (cache : Cache) : Prop where
  unique : (keysOf cache).Unique
  refers : (keysOf cache).Refers
  checked : ∀ row ∈ cache.media, Checked row

theorem updateEvent_sameSenders (events : List EventRow) (room eventId : String)
    (f : EventRow → EventRow) (hf : ∀ row, ((f row).key, (f row).sender) = (row.key, row.sender)) :
    ((updateEvent events room eventId f).map fun row => (row.key, row.sender)) =
      events.map fun row => (row.key, row.sender) := by
  rw [updateEvent, Table.update, List.map_map]
  refine List.map_congr_left fun row _ => ?_
  simp only [Function.comp]
  split_ifs
  · exact hf row
  · rfl

/-- Relations mark rows, and leave what names them. -/
theorem sameSenders_marking : Marking fun events events' =>
    (events'.map fun row => (row.key, row.sender)) =
      events.map fun row => (row.key, row.sender) where
  refl _ := rfl
  trans h h' := h'.trans h
  setProcessed events room eventId := updateEvent_sameSenders events room eventId _ fun _ => rfl
  setRedacted events room eventId _ := updateEvent_sameSenders events room eventId _ fun _ => rfl
  setCurrentEdit events room target _ _ :=
    updateEvent_sameSenders events room target _ fun row => by split_ifs <;> rfl

theorem nodup_snoc {α : Type} {items : List α} {item : α} (h : items.Nodup) (hnew : item ∉ items) :
    (items ++ [item]).Nodup := by
  rw [← List.concat_eq_append]
  exact h.concat hnew

theorem forall_mem_snoc {α : Type} {items : List α} {item : α} {p : α → Prop}
    (h : ∀ other ∈ items, p other) (hitem : p item) : ∀ other ∈ items ++ [item], p other := by
  intro other hother
  rcases List.mem_append.mp hother with hother | hother
  · exact h other hother
  · rwa [List.mem_singleton.mp hother]

theorem kept_empty : Kept Cache.empty := by
  refine ⟨⟨?_, ?_, ?_, ?_, ?_, ?_, ?_⟩, ⟨?_, ?_, ?_, ?_⟩, ?_⟩ <;> simp [keysOf, Cache.empty]

theorem mem_userRowId (cache : Cache) (mxid : String) : mxid ∈ (cache.userRowId mxid).users := by
  rw [Cache.userRowId]
  split_ifs with hthere
  · exact hthere
  · exact List.mem_append_right _ List.mem_cons_self

theorem subset_userRowId (cache : Cache) (mxid : String) :
    cache.users ⊆ (cache.userRowId mxid).users := by
  rw [Cache.userRowId]
  split_ifs
  · exact List.Subset.refl _
  · exact List.subset_append_left _ _

theorem userRowId_rooms (cache : Cache) (mxid : String) :
    (keysOf (cache.userRowId mxid)).rooms = (keysOf cache).rooms := by
  rw [Cache.userRowId]
  split_ifs <;> rfl

theorem mem_roomRowId (cache : Cache) (roomId : String) :
    roomId ∈ (keysOf (cache.roomRowId roomId)).rooms := by
  rw [Cache.roomRowId]
  split_ifs with hthere
  · simpa [keysOf] using hthere
  · simp [keysOf]

theorem markEncrypted_keys (cache : Cache) (room : String) (incoming : IncomingEvent) :
    keysOf (cache.markEncrypted room incoming) = keysOf cache ∧
      (cache.markEncrypted room incoming).media = cache.media := by
  rw [Cache.markEncrypted]
  split_ifs
  · refine ⟨?_, rfl⟩
    simp only [keysOf]
    rw [Table.map_key_update]
    exact fun _ => rfl
  · exact ⟨rfl, rfl⟩

theorem logSynced_names (cache : Cache) (user room eventId : String) :
    (keysOf (cache.logSynced user room eventId)).rooms = (keysOf cache).rooms ∧
      (cache.logSynced user room eventId).users = cache.users := by
  rw [Cache.logSynced]
  split_ifs <;> exact ⟨rfl, rfl⟩

theorem roomRowId_users (cache : Cache) (roomId : String) :
    (cache.roomRowId roomId).users = cache.users := by
  rw [Cache.roomRowId]
  split_ifs <;> rfl

namespace Kept

variable {cache : Cache} (h : Kept cache)

include h

theorem userRowId (mxid : String) : Kept (cache.userRowId mxid) := by
  rw [Cache.userRowId]
  split_ifs with hnew
  · exact h
  · exact {
      unique := { h.unique with users := nodup_snoc h.unique.users hnew }
      refers := {
        roomList := fun row hrow => (h.refers.roomList row hrow).imp_right (List.mem_append_left _)
        events := fun event hevent =>
          (h.refers.events event hevent).imp_right (List.mem_append_left _)
        syncedLog := fun row hrow =>
          (h.refers.syncedLog row hrow).imp_right (List.mem_append_left _)
        eventMedia := h.refers.eventMedia }
      checked := h.checked }

theorem roomRowId (roomId : String) : Kept (cache.roomRowId roomId) := by
  rw [Cache.roomRowId]
  split_ifs with hthere
  · exact h
  · have hkeys : keysOf { cache with rooms := cache.rooms ++ [{ roomId := roomId, encrypted := none }] }
        = { keysOf cache with rooms := (keysOf cache).rooms ++ [roomId] } := by
      simp [keysOf]
    have hnew : roomId ∉ (keysOf cache).rooms := by simpa [keysOf] using hthere
    refine ⟨?_, ?_, h.checked⟩ <;> rw [hkeys]
    · exact { h.unique with rooms := nodup_snoc h.unique.rooms hnew }
    · exact {
        roomList := fun row hrow => (h.refers.roomList row hrow).imp_left (List.mem_append_left _)
        events := fun event hevent =>
          (h.refers.events event hevent).imp_left (List.mem_append_left _)
        syncedLog := h.refers.syncedLog
        eventMedia := h.refers.eventMedia }

/-- The rows change, and what names them does not. -/
theorem of_keys {cache' : Cache} (hkeys : keysOf cache' = keysOf cache)
    (hchecked : ∀ row ∈ cache'.media, Checked row) : Kept cache' :=
  ⟨hkeys ▸ h.unique, hkeys ▸ h.refers, hchecked⟩

theorem updateRooms (roomId : String) (f : RoomRow → RoomRow)
    (hf : ∀ row, (f row).roomId = row.roomId) :
    Kept { cache with rooms := Table.update RoomRow.roomId cache.rooms roomId f } := by
  refine h.of_keys ?_ h.checked
  simp only [keysOf, Table.map_key_update hf]

theorem updateList (key : String × String) (f : RoomListRow → RoomListRow)
    (hf : ∀ row, (f row).key = row.key) :
    Kept { cache with roomList := Table.update RoomListRow.key cache.roomList key f } := by
  refine h.of_keys ?_ h.checked
  simp only [keysOf, Table.map_key_update hf]

theorem mapList (f : RoomListRow → RoomListRow) (hf : ∀ row, (f row).key = row.key) :
    Kept { cache with roomList := cache.roomList.map f } := by
  refine h.of_keys ?_ h.checked
  simp only [keysOf, List.map_map]
  congr 1
  exact List.map_congr_left fun row _ => hf row

theorem upsertList (new : RoomListRow) (f : RoomListRow → RoomListRow)
    (hroom : new.room ∈ (keysOf cache).rooms) (huser : new.user ∈ cache.users)
    (hf : ∀ row, (f row).key = row.key) :
    Kept { cache with roomList := Cache.upsertRoomListRow cache.roomList new f } := by
  rw [Cache.upsertRoomListRow]
  cases hfind : Table.find RoomListRow.key cache.roomList new.key with
  | some _ => exact h.updateList new.key f hf
  | none =>
    have hkeys : keysOf { cache with roomList := cache.roomList ++ [new] } =
        { keysOf cache with roomList := (keysOf cache).roomList ++ [new.key] } := by
      simp [keysOf]
    have hnew : new.key ∉ (keysOf cache).roomList := by
      simpa [keysOf] using Table.find_eq_none_iff.mp hfind
    refine ⟨?_, ?_, h.checked⟩ <;> rw [hkeys]
    · exact { h.unique with roomList := nodup_snoc h.unique.roomList hnew }
    · exact { h.refers with
        roomList := forall_mem_snoc h.refers.roomList ⟨hroom, huser⟩ }

theorem setEvents (events : List EventRow)
    (hsame : (events.map fun row => (row.key, row.sender)) = (keysOf cache).events) :
    Kept { cache with events := events } := by
  refine h.of_keys ?_ h.checked
  simp only [keysOf] at hsame ⊢
  rw [hsame]

theorem addEvent (row : EventRow) (hnew : findEvent cache.events row.room row.eventId = none)
    (hroom : row.room ∈ (keysOf cache).rooms) (hsender : row.sender ∈ cache.users) :
    Kept { cache with events := cache.events ++ [row] } := by
  have hkeys : keysOf { cache with events := cache.events ++ [row] } =
      { keysOf cache with events := (keysOf cache).events ++ [(row.key, row.sender)] } := by
    simp [keysOf]
  have hmap : ((keysOf cache).events ++ [(row.key, row.sender)]).map Prod.fst =
      (keysOf cache).events.map Prod.fst ++ [row.key] := List.map_append
  have hthere : ∀ room eventId, (keysOf cache).HasEvent room eventId →
      (room, eventId) ∈ ((keysOf cache).events ++ [(row.key, row.sender)]).map Prod.fst := by
    intro room eventId hhas
    rw [hmap]
    exact List.mem_append_left _ hhas
  have hkey : row.key ∉ (keysOf cache).events.map Prod.fst := by
    simpa [keysOf, EventRow.key] using Table.find_eq_none_iff.mp hnew
  refine ⟨?_, ?_, h.checked⟩ <;> rw [hkeys]
  · refine { h.unique with events := ?_ }
    rw [hmap]
    exact nodup_snoc h.unique.events hkey
  · exact { h.refers with
      events := forall_mem_snoc h.refers.events ⟨hroom, hsender⟩
      syncedLog := fun row hrow => (h.refers.syncedLog row hrow).imp_left (hthere _ _)
      eventMedia := fun link hlink => (h.refers.eventMedia link hlink).imp_left (hthere _ _) }

theorem setMedia (mxc : String) (f : MediaRow → MediaRow) (hf : ∀ row, (f row).mxc = row.mxc)
    (hchecked : ∀ row, Checked row → Checked (f row)) :
    Kept { cache with media := Table.update MediaRow.mxc cache.media mxc f } := by
  refine h.of_keys ?_ fun row hrow => ?_
  · simp only [keysOf, Table.map_key_update hf]
  · rcases Table.mem_update.mp hrow with ⟨hmem, -⟩ | ⟨old, hold, -, rfl⟩
    · exact h.checked row hmem
    · exact hchecked old (h.checked old hold)

theorem mediaRowId {mxc : String} {description : MediaDescription} {media : List MediaRow}
    (hrow : mediaRowId cache.media mxc description = some media) :
    Kept { cache with media := media } ∧ mxc ∈ media.map MediaRow.mxc := by
  rw [WbfMatrixClient.mediaRowId] at hrow
  cases hfind : Table.find MediaRow.mxc cache.media mxc with
  | some row =>
    rw [hfind] at hrow
    cases hrow
    obtain ⟨hmem, hmxc⟩ := Table.mem_of_find hfind
    refine ⟨h.setMedia mxc _ (fun _ => rfl) fun _ => id, ?_⟩
    rw [Table.map_key_update]
    · exact hmxc ▸ List.mem_map_of_mem hmem
    · exact fun _ => rfl
  | none =>
    rw [hfind] at hrow
    simp only at hrow
    split_ifs at hrow with hvalid
    cases hrow
    refine ⟨⟨?_, ?_, ?_⟩, by simp⟩
    · refine { h.unique with media := ?_ }
      simp only [keysOf, List.map_append, List.map_singleton]
      refine nodup_snoc h.unique.media ?_
      simpa [keysOf] using Table.find_eq_none_iff.mp hfind
    · refine { h.refers with eventMedia := fun link hlink => ?_ }
      refine (h.refers.eventMedia link hlink).imp_right fun hmem => ?_
      simp only [keysOf, List.map_append]
      exact List.mem_append_left _ hmem
    · refine forall_mem_snoc h.checked ⟨fun hkind => ?_, .inl rfl⟩
      rw [MediaDescription.isValid, decide_eq_true_iff] at hvalid
      exact hvalid.resolve_left (not_not.mpr hkind)

theorem linkMediaOf {packages : ContentPackages} {row : EventRow} {linked : Cache}
    (hrow : row ∈ cache.events) (hlinked : Cache.linkMediaOf packages cache row = some linked) :
    Kept linked := by
  rw [Cache.linkMediaOf] at hlinked
  split at hlinked
  · cases hlinked
    exact h
  · split at hlinked
    · cases hlinked
    · rename_i mxc description _ _ media hmedia
      obtain ⟨hkept, hmxc⟩ := h.mediaRowId hmedia
      cases hlinked
      rw [Cache.insertEventMedia]
      split_ifs with hnew
      · exact hkept
      · refine ⟨{ hkept.unique with eventMedia := nodup_snoc h.unique.eventMedia hnew },
          { hkept.refers with eventMedia := forall_mem_snoc hkept.refers.eventMedia ⟨?_, hmxc⟩ },
          hkept.checked⟩
        exact List.mem_map.mpr ⟨(row.key, row.sender), List.mem_map_of_mem hrow, rfl⟩

theorem processEvent {packages : ContentPackages} {room eventId : String} {processed : Cache}
    (hprocess : Cache.processEvent packages room eventId cache = some processed) :
    Kept processed ∧ (keysOf processed).events = (keysOf cache).events := by
  rw [Cache.processEvent] at hprocess
  cases hfind : findEvent cache.events room eventId with
  | none =>
    rw [hfind] at hprocess
    cases hprocess
    exact ⟨h, rfl⟩
  | some row =>
    simp only [hfind, Option.map_eq_some_iff] at hprocess
    obtain ⟨linked, hlinked, rfl⟩ := hprocess
    have hkept : Kept linked ∧ linked.events = cache.events := by
      split_ifs at hlinked
      · refine ⟨h.linkMediaOf (Table.mem_of_find hfind).1 hlinked, ?_⟩
        exact (congrArg Cache.events (Cache.linkMediaOf_tables hlinked) :)
      · cases hlinked
        exact ⟨h, rfl⟩
    have hsame := sameSenders_marking.applyRelations room linked.events row
    exact ⟨hkept.1.setEvents _ hsame, hsame.trans (by rw [hkept.2]; rfl)⟩

theorem storeEvent {packages : ContentPackages} {room eventId sender : String}
    {incoming : IncomingEvent} {stored : Cache} (hroom : room ∈ (keysOf cache).rooms)
    (hsender : sender ∈ cache.users)
    (hstore : Cache.storeEvent packages room eventId sender incoming cache = some stored) :
    Kept stored ∧ (keysOf stored).HasEvent room eventId := by
  obtain ⟨hfind, -, hprocess⟩ | ⟨row, hfind, -, hstored⟩ := Cache.storeEvent_cases hstore
  · obtain ⟨hkept, hevents⟩ := (h.addEvent (Cache.newRow room eventId sender incoming) hfind hroom
      hsender).processEvent hprocess
    refine ⟨hkept, ?_⟩
    rw [Keys.HasEvent, hevents]
    simp [keysOf, Cache.newRow, EventRow.key]
  · obtain ⟨hmem, hkey⟩ := Table.mem_of_find hfind
    have hthere : (keysOf cache).HasEvent room eventId :=
      List.mem_map.mpr ⟨(row.key, row.sender), List.mem_map_of_mem hmem, hkey⟩
    have hfilled := updateEvent_sameSenders cache.events room eventId
      (Cache.fillRow incoming) fun _ => rfl
    obtain ⟨-, -, hprocess⟩ | ⟨-, rfl⟩ := hstored
    · have hclassified := (updateEvent_sameSenders _ room eventId
        (Cache.classifyRow incoming) fun _ => rfl).trans hfilled
      obtain ⟨hkept, hevents⟩ := (h.setEvents _ hclassified).processEvent hprocess
      exact ⟨hkept, hthere.congr (hevents.trans hclassified)⟩
    · exact ⟨h.setEvents _ hfilled, hthere.congr hfilled⟩

theorem logSynced {user room eventId : String} (hevent : (keysOf cache).HasEvent room eventId)
    (huser : user ∈ cache.users) : Kept (cache.logSynced user room eventId) := by
  rw [Cache.logSynced]
  split_ifs with hthere
  · exact h
  · have hkeys : keysOf { cache with syncedLog := cache.syncedLog ++
        [{ room := room, eventId := eventId, user := user, hidden := false }] } =
        { keysOf cache with
          syncedLog := (keysOf cache).syncedLog ++ [(room, eventId, user)] } := by
      simp [keysOf, SyncedRow.key]
    have hnew : (room, eventId, user) ∉ (keysOf cache).syncedLog := by
      simpa [keysOf, SyncedRow.key] using hthere
    refine ⟨?_, ?_, h.checked⟩ <;> rw [hkeys]
    · exact { h.unique with syncedLog := nodup_snoc h.unique.syncedLog hnew }
    · exact { h.refers with
        syncedLog := forall_mem_snoc h.refers.syncedLog ⟨hevent, huser⟩ }

theorem upsertEvent {packages : ContentPackages} {user room : String} {incoming : IncomingEvent}
    {result : Cache × Bool} (hroom : room ∈ (keysOf cache).rooms) (huser : user ∈ cache.users)
    (hone : Cache.upsertEvent packages user room cache incoming = some result) :
    Kept result.1 ∧ room ∈ (keysOf result.1).rooms ∧ user ∈ result.1.users := by
  obtain ⟨-, rfl⟩ | ⟨eventId, sender, stored, -, hstored, rfl⟩ := Cache.upsertEvent_cases hone
  · exact ⟨h, hroom, huser⟩
  · obtain ⟨hkept, hevent⟩ := (h.userRowId sender).storeEvent
      (by rw [userRowId_rooms]; exact hroom) (mem_userRowId cache sender) hstored
    have htables := Cache.storeEvent_tables hstored
    have hrooms : room ∈ (keysOf stored).rooms := by
      rw [htables]
      exact userRowId_rooms cache sender ▸ hroom
    have husers : user ∈ stored.users := by
      rw [htables]
      exact subset_userRowId cache sender huser
    obtain ⟨hkeys, hmedia⟩ := markEncrypted_keys stored room incoming
    have hmarked := hkept.of_keys hkeys (hmedia ▸ hkept.checked)
    have husers' : user ∈ (keysOf (stored.markEncrypted room incoming)).users := by
      rw [hkeys]
      exact husers
    obtain ⟨hsame, hsame'⟩ := logSynced_names (stored.markEncrypted room incoming) user room eventId
    refine ⟨hmarked.logSynced (hevent.congr (congrArg Keys.events hkeys)) husers', ?_, ?_⟩
    · rw [hsame, hkeys]
      exact hrooms
    · rw [hsame']
      exact husers'

theorem upsertEvents (packages : ContentPackages) (user room : String)
    (events : List IncomingEvent) : Kept (Cache.upsertEvents packages user room cache events) := by
  rw [Cache.upsertEvents]
  cases hall : cache.upsertEventsCounted packages user room events with
  | none => exact h
  | some result =>
    refine (Cache.upsertAll_induction (motive := fun reached => Kept reached ∧
      room ∈ (keysOf reached).rooms ∧ user ∈ reached.users)
      (fun incoming _ reached first hone hreached =>
        hreached.1.upsertEvent hreached.2.1 hreached.2.2 hone) hall
      ⟨(h.userRowId user).roomRowId room, mem_roomRowId _ room, ?_⟩).1
    rw [roomRowId_users]
    exact mem_userRowId cache user

theorem upsertConversation {user : String} (huser : user ∈ cache.users)
    (conversation : Conversation) :
    Kept (Cache.upsertConversation user cache conversation) ∧
      user ∈ (Cache.upsertConversation user cache conversation).users := by
  have husers := roomRowId_users cache conversation.id
  refine ⟨?_, husers.symm ▸ huser⟩
  refine updateRooms ?_ conversation.id _ fun _ => rfl
  exact (h.roomRowId conversation.id).upsertList _ _ (mem_roomRowId cache _)
    (husers.symm ▸ huser) fun _ => rfl

theorem recordJoinedRoom {user : String} (huser : user ∈ cache.users) (roomId : String) :
    Kept (Cache.recordJoinedRoom user cache roomId) ∧
      user ∈ (Cache.recordJoinedRoom user cache roomId).users := by
  have husers := roomRowId_users cache roomId
  exact ⟨(h.roomRowId roomId).upsertList _ _ (mem_roomRowId cache _) (husers.symm ▸ huser)
    fun _ => rfl, husers.symm ▸ huser⟩

theorem writeInvite (user : String) (invite : InviteItem) :
    Kept (Cache.writeInvite user cache invite) := by
  refine ((h.userRowId user).roomRowId invite.roomId).upsertList _ _ (mem_roomRowId _ _) ?_
    fun _ => rfl
  rw [roomRowId_users]
  exact mem_userRowId cache user

theorem recordJoinedRooms (user : String) (roomIds : List String) :
    Kept (cache.recordJoinedRooms user roomIds) := by
  refine mapList ?_ _ fun row => by split_ifs <;> rfl
  exact (List.foldlRecOn (motive := fun reached => Kept reached ∧ user ∈ reached.users) roomIds _
    ⟨h.userRowId user, mem_userRowId cache user⟩
    fun _ hreached roomId _ => hreached.1.recordJoinedRoom hreached.2 roomId).1

theorem recordMembership (user roomId : String) (membership : Membership)
    (onlyIfNow : Option Membership) :
    Kept (cache.recordMembership user roomId membership onlyIfNow).1 := by
  have hrows := (h.userRowId user).roomRowId roomId
  cases onlyIfNow with
  | none =>
    refine hrows.upsertList _ _ (mem_roomRowId _ _) ?_ fun _ => rfl
    rw [roomRowId_users]
    exact mem_userRowId cache user
  | some now => exact hrows.updateList (roomId, user) _ fun row => by split_ifs <;> rfl

theorem applyInviteRound (user : String) (round : List (Nat × InviteItem))
    (touched : List (String × Nat)) (departed : List (String × Membership)) :
    Kept (cache.applyInviteRound user round touched departed) := by
  refine mapList ?_ _ fun row => by split_ifs <;> rfl
  refine List.foldlRecOn (motive := Kept) round _ (h.userRowId user) fun reached hreached item _ => ?_
  simp only
  split_ifs
  · exact hreached
  · exact hreached.writeInvite user item.2

theorem recordWrittenState (packages : NumberPackages) (user roomId : String) (written : Json) :
    Kept (cache.recordWrittenState packages user roomId written).1 := by
  have hrows := (h.userRowId user).roomRowId roomId
  rw [Cache.recordWrittenState]
  split
  · refine updateList ?_ (roomId, user) _ fun _ => rfl
    split_ifs
    · exact hrows.updateRooms roomId _ fun _ => rfl
    · exact hrows
  · split_ifs
    · exact hrows.updateRooms roomId _ fun _ => rfl
    · exact hrows

theorem hideMessage (user room eventId : String) : Kept (cache.hideMessage user room eventId) := by
  refine h.of_keys ?_ h.checked
  simp only [keysOf, Cache.hideMessage, List.map_map]
  congr 1
  refine List.map_congr_left fun row _ => ?_
  simp only [Function.comp]
  split_ifs <;> rfl

/-- Rows are deleted, and with them those that name them. -/
theorem delete {cache' : Cache} (husers : cache'.users = cache.users)
    (hrooms : cache'.rooms.Sublist cache.rooms) (hlist : cache'.roomList.Sublist cache.roomList)
    (hevents : cache'.events.Sublist cache.events)
    (hlog : cache'.syncedLog.Sublist cache.syncedLog) (hmedia : cache'.media.Sublist cache.media)
    (hlinks : cache'.eventMedia.Sublist cache.eventMedia)
    (hlistRooms : ∀ row ∈ cache'.roomList, ∀ room ∈ cache.rooms, room.roomId = row.room →
      room ∈ cache'.rooms)
    (heventRooms : ∀ row ∈ cache'.events, ∀ room ∈ cache.rooms, room.roomId = row.room →
      room ∈ cache'.rooms)
    (hlogEvents : ∀ row ∈ cache'.syncedLog, (keysOf cache').HasEvent row.room row.eventId)
    (hlinkEvents : ∀ row ∈ cache'.eventMedia, (keysOf cache').HasEvent row.room row.eventId)
    (hlinkMedia : ∀ row ∈ cache'.eventMedia, ∀ media ∈ cache.media, media.mxc = row.mxc →
      media ∈ cache'.media) : Kept cache' := by
  obtain ⟨users, rooms, roomList, events, syncedLog, media, eventMedia⟩ := cache'
  cases husers
  refine ⟨⟨h.unique.users, h.unique.rooms.sublist (hrooms.map _),
    h.unique.roomList.sublist (hlist.map _), h.unique.events.sublist ((hevents.map _).map _),
    h.unique.syncedLog.sublist (hlog.map _), h.unique.media.sublist (hmedia.map _),
    h.unique.eventMedia.sublist hlinks⟩, ⟨?_, ?_, ?_, fun row hrow => ⟨hlinkEvents row hrow, ?_⟩⟩,
    fun row hrow => h.checked row (hmedia.subset hrow)⟩
  · intro key hkey
    obtain ⟨row, hrow, rfl⟩ := List.mem_map.mp hkey
    obtain ⟨hroom, huser⟩ := h.refers.roomList _ (List.mem_map_of_mem (hlist.subset hrow))
    obtain ⟨room, hroom, hid⟩ := List.mem_map.mp hroom
    exact ⟨List.mem_map.mpr ⟨room, hlistRooms row hrow room hroom hid, hid⟩, huser⟩
  · intro key hkey
    obtain ⟨row, hrow, rfl⟩ := List.mem_map.mp hkey
    obtain ⟨hroom, huser⟩ := h.refers.events _ (List.mem_map_of_mem (hevents.subset hrow))
    obtain ⟨room, hroom, hid⟩ := List.mem_map.mp hroom
    exact ⟨List.mem_map.mpr ⟨room, heventRooms row hrow room hroom hid, hid⟩, huser⟩
  · intro key hkey
    obtain ⟨row, hrow, rfl⟩ := List.mem_map.mp hkey
    exact ⟨hlogEvents row hrow,
      (h.refers.syncedLog _ (List.mem_map_of_mem (hlog.subset hrow))).2⟩
  · obtain ⟨found, hfound, hmxc⟩ := List.mem_map.mp
      (h.refers.eventMedia row (hlinks.subset hrow)).2
    exact List.mem_map.mpr ⟨found, hlinkMedia row hrow found hfound hmxc, hmxc⟩

theorem mediaDelete (mxc : String) : Kept (cache.mediaDelete mxc) := by
  refine h.delete rfl (List.Sublist.refl _) (List.Sublist.refl _) (List.Sublist.refl _)
    (List.Sublist.refl _) List.filter_sublist List.filter_sublist
    (fun _ _ _ hroom _ => hroom) (fun _ _ _ hroom _ => hroom)
    (fun row hrow => (h.refers.syncedLog _ (List.mem_map_of_mem hrow)).1)
    (fun row hrow => (h.refers.eventMedia row (List.mem_of_mem_filter hrow)).1)
    fun row hrow media hmedia hmxc => List.mem_filter.mpr ⟨hmedia, ?_⟩
  rw [hmxc]
  exact (List.mem_filter.mp hrow).2

theorem forgetAccount (user : String) : Kept (cache.forgetAccount user).1 := by
  rw [Cache.forgetAccount]
  split_ifs
  · refine h.delete rfl List.filter_sublist List.filter_sublist List.filter_sublist
      (List.filter_sublist.trans List.filter_sublist) List.filter_sublist List.filter_sublist
      (fun row hrow room hroom hid => List.mem_filter.mpr ⟨hroom, ?_⟩)
      (fun row hrow room hroom hid => List.mem_filter.mpr ⟨hroom, ?_⟩)
      (fun row hrow => hasEvent_iff.mpr (List.mem_filter.mp hrow).2)
      (fun row hrow => hasEvent_iff.mpr (List.mem_filter.mp hrow).2)
      fun row hrow media hmedia hmxc => List.mem_filter.mpr ⟨hmedia, ?_⟩
    · refine Bool.or_eq_true_iff.mpr (.inr ?_)
      exact List.any_eq_true.mpr ⟨row, hrow, decide_eq_true hid.symm⟩
    · refine Bool.or_eq_true_iff.mpr (.inl ?_)
      exact List.any_eq_true.mpr ⟨row, hrow, decide_eq_true hid.symm⟩
    · exact List.any_eq_true.mpr ⟨row, hrow, decide_eq_true hmxc.symm⟩
  · exact h

/-- The account leaves the room, and everything else stays. -/
theorem leaveRoom (listed : RoomListRow → Bool) (synced : SyncedRow → Bool) :
    Kept { cache with
      roomList := cache.roomList.filter listed, syncedLog := cache.syncedLog.filter synced } :=
  h.delete rfl (List.Sublist.refl _) List.filter_sublist (List.Sublist.refl _)
    List.filter_sublist (List.Sublist.refl _) (List.Sublist.refl _)
    (fun _ _ _ hroom _ => hroom) (fun _ _ _ hroom _ => hroom)
    (fun _ hrow => (h.refers.syncedLog _ (List.mem_map_of_mem (List.mem_of_mem_filter hrow))).1)
    (fun row hrow => (h.refers.eventMedia row hrow).1) fun _ _ _ hmedia _ => hmedia

theorem clearRoom (room : String) (kept : MediaRow → Bool)
    (hkept : ∀ row, (cache.deleteEvents fun row => row.room = room).hasLink row.mxc = true →
      kept row = true) :
    Kept { cache.deleteEvents (fun row => row.room = room) with
      rooms := cache.rooms.filter fun row => row.roomId ≠ room
      roomList := cache.roomList.filter fun row => row.room ≠ room
      media := cache.media.filter kept } := by
  refine h.delete rfl List.filter_sublist List.filter_sublist List.filter_sublist
    List.filter_sublist List.filter_sublist List.filter_sublist
    (fun row hrow found hroom hid => List.mem_filter.mpr ⟨hroom, ?_⟩)
    (fun row hrow found hroom hid => List.mem_filter.mpr ⟨hroom, ?_⟩)
    (fun row hrow => hasEvent_iff.mpr (List.mem_filter.mp hrow).2)
    (fun _ hrow => hasEvent_iff.mpr (List.mem_filter.mp hrow).2)
    fun row hrow media hmedia hmxc => List.mem_filter.mpr ⟨hmedia, ?_⟩
  · rw [hid]
    exact (List.mem_filter.mp hrow).2
  · rw [hid]
    simpa using (List.mem_filter.mp hrow).2
  · exact hkept media (List.any_eq_true.mpr ⟨row, hrow, decide_eq_true hmxc.symm⟩)

theorem forgetRoom (user room : String) : Kept (cache.forgetRoom user room).1 := by
  rw [Cache.forgetRoom]
  split_ifs
  · dsimp only
    split_ifs
    · exact h.leaveRoom _ _
    · refine (h.leaveRoom _ _).clearRoom room _ ?_
      exact fun row hlink => Bool.or_eq_true_iff.mpr (.inl hlink)
  · dsimp only
    split_ifs
    · exact h
    · refine h.clearRoom room _ ?_
      exact fun row hlink => Bool.or_eq_true_iff.mpr (.inl hlink)
  · exact h

end Kept

theorem step_kept (packages : CachePackages) (cache : Cache) (operation : Operation)
    (h : Kept cache) : Kept (cache.step packages operation) := by
  cases operation with
  | upsertEvents user room events => exact h.upsertEvents packages.content user room events
  | hideMessage user room eventId => exact h.hideMessage user room eventId
  | mediaBegin mxc description =>
    rw [Cache.step, Cache.mediaBegin]
    cases hrow : mediaRowId cache.media mxc description with
    | none => exact h
    | some media => exact (h.mediaRowId hrow).1
  | mediaRememberSource manifest sourceUri =>
    rw [Cache.step, Cache.mediaRememberSource]
    cases MediaDescription.ofChunkedBlock manifest.block with
    | none => exact h
    | some description =>
      simp only
      cases hrow : mediaRowId cache.media manifest.mxc description with
      | none => exact h
      | some media => exact (h.mediaRowId hrow).1.setMedia _ _ (fun _ => rfl) fun _ => id
  | mediaProgress mxc segmentsWritten chunkSize =>
    refine h.setMedia mxc _ (fun _ => rfl) fun row hrow => ⟨fun hkind => ?_, .inl rfl⟩
    exact (hrow.1 hkind).imp_right fun _ => rfl
  | mediaFinish mxc poolFile segmentsWritten fileSize bytesOnDisk verified =>
    refine h.setMedia mxc _ (fun _ => rfl) fun row hrow => ⟨fun hkind => ?_, .inr rfl⟩
    exact (hrow.1 hkind).imp_left fun _ => rfl
  | mediaReset mxc => exact h.setMedia mxc _ (fun _ => rfl) fun row hrow => ⟨hrow.1, .inl rfl⟩
  | mediaLinkEvent user room eventId =>
    rw [Cache.step, Cache.mediaLinkEvent]
    cases hfind : findEvent cache.events room eventId with
    | none => exact h
    | some row =>
      simp only
      split_ifs
      · cases hlinked : Cache.linkMediaOf packages.content cache row with
        | none => exact h
        | some linked => exact h.linkMediaOf (Table.mem_of_find hfind).1 hlinked
      · exact h
  | mediaDelete mxc => exact h.mediaDelete mxc
  | upsertConversations user conversations =>
    exact (List.foldlRecOn (motive := fun reached => Kept reached ∧ user ∈ reached.users)
      conversations _ ⟨h.userRowId user, mem_userRowId cache user⟩
      fun _ hreached conversation _ => hreached.1.upsertConversation hreached.2 conversation).1
  | recordJoinedRooms user roomIds => exact h.recordJoinedRooms user roomIds
  | recordRoomEncryption roomId encrypted =>
    exact (h.roomRowId roomId).updateRooms roomId _ fun _ => rfl
  | recordMembership user roomId membership onlyIfNow =>
    exact h.recordMembership user roomId membership onlyIfNow
  | recordInvite user invite => exact h.writeInvite user invite
  | applyInviteRound user round touched departed =>
    exact h.applyInviteRound user round touched departed
  | recordWrittenState user roomId written =>
    exact h.recordWrittenState packages.number user roomId written
  | forgetAccount user => exact h.forgetAccount user
  | forgetRoom user room => exact h.forgetRoom user room

/-- After any operations the tables keep the constraints of the schema: keys are unique, every
column that names a row names one that is there, and no number of a room is given twice. -/
theorem schema_kept (packages : CachePackages) (operations : List Operation) :
    let cache := Runs.run (Cache.step packages) Cache.empty operations
    Kept cache ∧ EventNumbers.Numbered cache.events :=
  ⟨Runs.run_invariant Kept (fun cache operation h => step_kept packages cache operation h)
    operations Cache.empty kept_empty, EventNumbers.run_numbered packages operations⟩

/-- A file that no event brings. -/
def exampleForgotten : Cache :=
  { Cache.empty with
    users := ["@a"]
    media := [{ mxc := "mxc://a/b", poolFile := some "pool", name := none, mimetype := none,
                hash := none, kind := .matrixPlain, verified := .unknown, fileSize := none,
                chunkSize := none, segmentsWritten := 1, complete := true, bytesOnDisk := 1,
                sourceUri := none }] }

end CacheSchema
end WbfMatrixClient
