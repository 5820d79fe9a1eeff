import WbfMatrixClient.StoredDecryption
import WbfMatrixClient.RecentMarksRuns

/-!
# No ciphertext is left behind

As long as an event is stored as a ciphertext and its key is there, some task is still
to decrypt it. The keys line commits before it looks, and a push looks again after it
has stored, so that one of them sees what the other has done. A recent round that
breaks off has stored ciphertexts and never comes to decrypt them.
-/

namespace WbfMatrixClient
namespace StoredDecryption

open EventHistory EventPointers RecentMarks Function

/-- A ciphertext of a room. -/
structure Encrypted (room eventId sender : String) (raw : Json) : Prop where
  room_eq : raw.text "room_id" = some room
  id_eq : raw.text "event_id" = some eventId
  sender_eq : raw.text "sender" = some sender
  type_eq : raw.text "type" = some "m.room.encrypted"

/-- The ciphertext as it is delivered, with its cleartext or without. -/
def Form (raw : Json) (incoming : IncomingEvent) : Prop :=
  (∃ reason, incoming = .undecrypted raw reason) ∨
    ∃ cleartext, incoming = .decrypted (some raw) cleartext

/-- The row keeps the ciphertext, and is either unreadable or decrypted. -/
structure Sealed (raw : Json) (row : EventRow) : Prop where
  raw_eq : row.rawEvent = some raw
  undecrypted : row.eventClass = .general → row.decrypted = some false
  decrypted : row.eventClass ≠ .general → row.decrypted = some true

/-- A row has the original form of its event, and the row of the ciphertext is sealed. -/
structure RowOk (room eventId : String) (raw : Json) (row : EventRow) : Prop where
  named : ∃ json, row.rawEvent = some json ∧ json.text "event_id" = some row.eventId
  sealed : row.key = (room, eventId) → Sealed raw row

/-- What may be stored in a room. -/
structure Deliverable (room eventId : String) (raw : Json) (inRoom : String)
    (incoming : IncomingEvent) : Prop where
  raw_some : incoming.rawEvent.isSome
  form : inRoom = room → incoming.findEventId = some eventId → Form raw incoming

section Rows

variable {packages : ContentPackages} {me room eventId : String} {raw : Json}

theorem Sealed.frame {a b : EventRow} (h : Sealed raw a) (hframe : Frame a b) : Sealed raw b := by
  have hclass : b.eventClass = a.eventClass := by rw [hframe.rest]
  have hdecrypted : b.decrypted = a.decrypted := by rw [hframe.rest]
  refine ⟨hframe.raw raw h.raw_eq, ?_, ?_⟩
  · rw [hclass, hdecrypted]
    exact h.undecrypted
  · rw [hclass, hdecrypted]
    exact h.decrypted

theorem RowOk.frame {a b : EventRow} (h : RowOk room eventId raw a) (hframe : Frame a b) :
    RowOk room eventId raw b := by
  obtain ⟨json, hjson, hname⟩ := h.named
  refine ⟨⟨json, hframe.raw json hjson, ?_⟩, fun hkey => ?_⟩
  · rw [show b.eventId = a.eventId by rw [hframe.rest]]
    exact hname
  · exact (h.sealed (by rw [← hframe.key]; exact hkey)).frame hframe

theorem findEventId_of_rawEvent {incoming : IncomingEvent} {json : Json}
    (h : incoming.rawEvent = some json) : incoming.findEventId = json.text "event_id" := by
  cases incoming with
  | plain event | undecrypted ciphertext reason =>
    cases h
    rfl
  | decrypted ciphertext cleartext =>
    cases ciphertext with
    | none => cases h
    | some ciphertext =>
      cases h
      rfl

theorem Form.sealed_new {incoming : IncomingEvent} (h : Form raw incoming) :
    incoming.rawEvent = some raw ∧
      ((classify incoming).eventClass = .general → incoming.decryptedFlag = some false) ∧
      ((classify incoming).eventClass ≠ .general → incoming.decryptedFlag = some true) := by
  obtain ⟨reason, rfl⟩ | ⟨cleartext, rfl⟩ := h
  · exact ⟨rfl, fun _ => rfl, fun hclass => absurd rfl hclass⟩
  · refine ⟨rfl, fun hclass => ?_, fun _ => rfl⟩
    rw [classify_eq_general_iff] at hclass
    cases hclass

variable {inRoom id sender : String} {incoming : IncomingEvent}

theorem rowOk_newRow (h : Deliverable room eventId raw inRoom incoming)
    (hid : incoming.findEventId = some id) :
    RowOk room eventId raw (Cache.newRow inRoom id sender incoming) := by
  obtain ⟨json, hjson⟩ := Option.isSome_iff_exists.mp h.raw_some
  refine ⟨⟨json, hjson, ?_⟩, fun hkey => ?_⟩
  · rw [← findEventId_of_rawEvent hjson]
    exact hid
  · obtain ⟨hroom, hname⟩ := Prod.mk.inj hkey
    obtain ⟨hraw, hgeneral, hopened⟩ := (h.form hroom (hid.trans (congrArg some hname))).sealed_new
    exact ⟨hraw, hgeneral, hopened⟩

theorem RowOk.fillRow {row : EventRow} (h : RowOk room eventId raw row) :
    RowOk room eventId raw (Cache.fillRow incoming row) := by
  obtain ⟨json, hjson, hname⟩ := h.named
  refine ⟨⟨json, ?_, hname⟩, fun hkey => ?_⟩
  · rw [Cache.fillRow, hjson]
    rfl
  · have hsealed := h.sealed hkey
    refine ⟨?_, hsealed.undecrypted, hsealed.decrypted⟩
    rw [Cache.fillRow, hsealed.raw_eq]
    rfl

theorem RowOk.classifyRow (hdeliverable : Deliverable room eventId raw inRoom incoming)
    (hid : incoming.findEventId = some id) {row : EventRow} (h : RowOk room eventId raw row)
    (hrow : row.key = (inRoom, id)) : RowOk room eventId raw (Cache.classifyRow incoming row) := by
  refine ⟨h.named, fun hkey => ?_⟩
  obtain ⟨hroom, hname⟩ := Prod.mk.inj (hrow.symm.trans hkey)
  obtain ⟨_, hgeneral, hopened⟩ :=
    (hdeliverable.form hroom (hid.trans (congrArg some hname))).sealed_new
  exact ⟨(h.sealed hkey).raw_eq, hgeneral, hopened⟩

variable {cache : Cache}

theorem processEvent_reframed {processed : Cache}
    (h : Cache.processEvent packages inRoom id cache = some processed) :
    Reframed cache.events processed.events ∧ processed.syncedLog = cache.syncedLog := by
  obtain ⟨_, rfl⟩ | ⟨row, _, hprocessed⟩ := Cache.processEvent_cases h
  · exact ⟨Reframed.refl _, rfl⟩
  · rw [hprocessed]
    exact ⟨applyRelations_reframed inRoom cache.events row, rfl⟩

/-- Every row stays as it must be, and is one of those before or the row of the event. -/
structure Stores (room eventId : String) (raw : Json) (key : String × String)
    (cache stored : Cache) : Prop where
  rows : (∀ row ∈ cache.events, RowOk room eventId raw row) →
    ∀ row ∈ stored.events, RowOk room eventId raw row
  keys : ∀ row ∈ stored.events, row.key = key ∨ ∃ old ∈ cache.events, old.key = row.key
  log : stored.syncedLog = cache.syncedLog

theorem Stores.process {key : String × String} {middle processed : Cache}
    (h : Stores room eventId raw key cache middle)
    (hprocess : Cache.processEvent packages inRoom id middle = some processed) :
    Stores room eventId raw key cache processed := by
  obtain ⟨⟨g, hg, hevents⟩, hlog⟩ := processEvent_reframed hprocess
  constructor
  case rows =>
    intro hrows row hrow
    rw [hevents] at hrow
    obtain ⟨old, hold, rfl⟩ := List.mem_map.mp hrow
    exact (h.rows hrows old hold).frame (hg old)
  case keys =>
    intro row hrow
    rw [hevents] at hrow
    obtain ⟨old, hold, rfl⟩ := List.mem_map.mp hrow
    rw [(hg old).key]
    exact h.keys old hold
  case log => exact hlog.trans h.log

theorem stores_update {f : EventRow → EventRow} (hkey : ∀ row, (f row).key = row.key)
    (hf : ∀ row, row.key = (inRoom, id) → RowOk room eventId raw row → RowOk room eventId raw (f
      row)) :
    Stores room eventId raw (inRoom, id) cache
      { cache with events := updateEvent cache.events inRoom id f } := by
  constructor
  case rows =>
    intro hrows row hrow
    rcases Table.mem_update.mp hrow with ⟨hrow, _⟩ | ⟨old, hold, hat, rfl⟩
    · exact hrows row hrow
    · exact hf old hat (hrows old hold)
  case keys =>
    intro row hrow
    rcases Table.mem_update.mp hrow with ⟨hrow, _⟩ | ⟨old, hold, hat, rfl⟩
    · exact .inr ⟨row, hrow, rfl⟩
    · exact .inr ⟨old, hold, (hkey old).symm⟩
  case log => rfl

theorem Stores.trans {key : String × String} {a b c : Cache} (h : Stores room eventId raw key a b)
    (h' : Stores room eventId raw key b c) :
    Stores room eventId raw key a c where
  rows := fun hrows => h'.rows (h.rows hrows)
  keys := by
    intro row hrow
    rcases h'.keys row hrow with hkey | ⟨old, hold, hkey⟩
    · exact .inl hkey
    · rw [← hkey]
      exact h.keys old hold
  log := h'.log.trans h.log

theorem storeEvent_stores (h : Deliverable room eventId raw inRoom incoming)
    (hid : incoming.findEventId = some id) {stored : Cache}
    (hstore : Cache.storeEvent packages inRoom id sender incoming cache = some stored) :
    Stores room eventId raw (inRoom, id) cache stored := by
  obtain ⟨_, _, hprocess⟩ | ⟨found, _, _, hstored⟩ := Cache.storeEvent_cases hstore
  · have hnew : Stores room eventId raw (inRoom, id) cache { cache with
        events := cache.events ++ [Cache.newRow inRoom id sender incoming] } := by
      refine ⟨fun hrows row hrow => ?_, fun row hrow => ?_, rfl⟩
      · rcases List.mem_append.mp hrow with hrow | hrow
        · exact hrows row hrow
        · rw [List.mem_singleton.mp hrow]
          exact rowOk_newRow h hid
      · rcases List.mem_append.mp hrow with hrow | hrow
        · exact .inr ⟨row, hrow, rfl⟩
        · rw [List.mem_singleton.mp hrow]
          exact .inl rfl
    exact hnew.process hprocess
  · have hfill : Stores room eventId raw (inRoom, id) cache
        { cache with events := updateEvent cache.events inRoom id (Cache.fillRow incoming) } :=
      stores_update (fun _ => rfl) fun _ _ hrow => hrow.fillRow
    obtain ⟨_, _, hprocess⟩ | ⟨_, rfl⟩ := hstored
    · refine Stores.process ?_ hprocess
      exact hfill.trans (stores_update (fun _ => rfl) fun row hkey hrow =>
        RowOk.classifyRow h hid hrow hkey)
    · exact hfill

/-- An event that could be read has a class from then on. -/
theorem storeEvent_opened {stored : Cache}
    (hstore : Cache.storeEvent packages inRoom id sender incoming cache = some stored)
    (hclass : (classify incoming).eventClass ≠ .general) :
    ∃ row, findEvent stored.events inRoom id = some row ∧ row.eventClass ≠ .general := by
  have hprocessed : ∀ {middle : Cache} {row : EventRow},
      Cache.processEvent packages inRoom id middle = some stored →
      findEvent middle.events inRoom id = some row → row.eventClass ≠ .general →
      ∃ row, findEvent stored.events inRoom id = some row ∧ row.eventClass ≠ .general := by
    intro middle row hprocess hfind hrow
    obtain ⟨row', hfind', hkept⟩ := (processEvent_later packages hprocess).events _ _ _ hfind
    exact ⟨row', hfind', by rw [(hkept.content hrow).1]; exact hrow⟩
  obtain ⟨hfind, _, hprocess⟩ | ⟨found, hfind, _, hstored⟩ := Cache.storeEvent_cases hstore
  · refine @hprocessed _ (Cache.newRow inRoom id sender incoming) hprocess ?_ hclass
    have hkey : (Cache.newRow inRoom id sender incoming).key = (inRoom, id) := rfl
    rw [findEvent] at hfind
    simp only [findEvent]
    rw [Table.find_append, hfind, if_pos hkey]
    rfl
  · have hfilled : findEvent (updateEvent cache.events inRoom id (Cache.fillRow incoming))
        inRoom id = some (Cache.fillRow incoming found) :=
      findEvent_updateEvent (fun _ => rfl) hfind
    obtain ⟨_, _, hprocess⟩ | ⟨hnew, rfl⟩ := hstored
    · exact hprocessed hprocess (findEvent_updateEvent (fun _ => rfl) hfilled) hclass
    · exact ⟨_, hfilled, hnew hclass⟩

/-- All rows are as they must be, and the account has synced their events. -/
structure CacheOk (me room eventId : String) (raw : Json) (cache : Cache) : Prop where
  rows : ∀ row ∈ cache.events, RowOk room eventId raw row
  synced : ∀ row ∈ cache.events, cache.hasSynced me row = true

/-- The event is stored decrypted. -/
def Opened (room eventId : String) (cache : Cache) : Prop :=
  ∃ row, findEvent cache.events room eventId = some row ∧ row.decrypted = some true

theorem hasSynced_iff {row : EventRow} :
    cache.hasSynced me row = true ↔
      ∃ log ∈ cache.syncedLog, log.room = row.room ∧ log.eventId = row.eventId ∧ log.user = me := by
  simp [Cache.hasSynced, Cache.readerHidden]

theorem CacheOk.sealed {cache : Cache} (h : CacheOk me room eventId raw cache) {row : EventRow}
    (hfind : findEvent cache.events room eventId = some row) : Sealed raw row := by
  obtain ⟨hrow, hkey⟩ := Table.mem_of_find hfind
  exact (h.rows row hrow).sealed hkey

/-- What is decrypted stays so. -/
theorem Opened.later {a b : Cache} (h : Opened room eventId a) (ha : CacheOk me room eventId raw a)
    (hb : CacheOk me room eventId raw b) (hlater : Later a b) : Opened room eventId b := by
  obtain ⟨row, hfind, hdecrypted⟩ := h
  obtain ⟨row', hfind', hkept⟩ := hlater.events room eventId row hfind
  have hclass : row.eventClass ≠ .general := by
    intro hgeneral
    rw [(ha.sealed hfind).undecrypted hgeneral] at hdecrypted
    cases hdecrypted
  exact ⟨row', hfind', (hb.sealed hfind').decrypted (by rw [(hkept.content hclass).1]; exact hclass)⟩

theorem storedIn_later {a b : Cache} (h : (findEvent a.events room eventId).isSome)
    (hlater : Later a b) : (findEvent b.events room eventId).isSome := by
  obtain ⟨row, hfind⟩ := Option.isSome_iff_exists.mp h
  obtain ⟨row', hfind', _⟩ := hlater.events room eventId row hfind
  rw [hfind']
  rfl

theorem findEventId_of_storable (h : Cache.storable inRoom incoming = some (id, sender)) :
    incoming.findEventId = some id := by
  rw [Cache.storable, IncomingEvent.storableIdentity] at h
  cases hsender : incoming.envelope.text "sender" with
  | none => simp [hsender] at h
  | some found =>
    cases hid : incoming.findEventId with
    | none => simp [hsender, hid] at h
    | some foundId =>
      simp only [hsender, hid] at h
      split_ifs at h
      cases h
      rfl

theorem Form.storable (h : Form raw incoming) (hencrypted : Encrypted room eventId sender raw) :
    Cache.storable room incoming = some (eventId, sender) := by
  obtain ⟨reason, rfl⟩ | ⟨cleartext, rfl⟩ := h <;>
    simp [Cache.storable, IncomingEvent.storableIdentity, IncomingEvent.findEventId,
      IncomingEvent.envelope, hencrypted.sender_eq, hencrypted.id_eq, hencrypted.room_eq]

theorem upsertEvent_ok {result : Cache × Bool} (hencrypted : Encrypted room eventId sender raw)
    (h : Cache.upsertEvent packages me inRoom cache incoming = some result)
    (hdeliverable : Deliverable room eventId raw inRoom incoming)
    (hcache : CacheOk me room eventId raw cache) :
    CacheOk me room eventId raw result.1 ∧
      (inRoom = room → Form raw incoming →
        (findEvent result.1.events room eventId).isSome ∧
          ((classify incoming).eventClass ≠ .general → Opened room eventId result.1)) := by
  obtain ⟨hstorable, rfl⟩ | ⟨id, by_, stored, hstorable, hstored, rfl⟩ :=
    Cache.upsertEvent_cases h
  · refine ⟨hcache, fun hroom hform => ?_⟩
    rw [hroom, hform.storable hencrypted] at hstorable
    cases hstorable
  · have hid := findEventId_of_storable hstorable
    have hstores := storeEvent_stores hdeliverable hid hstored
    have hlogged : ∀ log ∈ stored.syncedLog,
        log ∈ ((stored.markEncrypted inRoom incoming).logSynced me inRoom id).syncedLog := by
      intro log hlog
      rw [Cache.logSynced]
      split_ifs
      · rw [Cache.markEncrypted_syncedLog]
        exact hlog
      · exact List.mem_append_left _ (by rw [Cache.markEncrypted_syncedLog]; exact hlog)
    have hok : CacheOk me room eventId raw
        ((stored.markEncrypted inRoom incoming).logSynced me inRoom id) := by
      constructor
      · rw [Cache.logSynced_events, Cache.markEncrypted_events]
        exact hstores.rows (by rw [Cache.userRowId_events]; exact hcache.rows)
      · intro row hrow
        rw [Cache.logSynced_events, Cache.markEncrypted_events] at hrow
        rw [hasSynced_iff]
        rcases hstores.keys row hrow with hkey | ⟨old, hold, hkey⟩
        · obtain ⟨hroom, hname⟩ := Prod.mk.inj hkey
          rw [Cache.logSynced]
          split_ifs with hin
          · obtain ⟨log, hlog, hat⟩ := List.any_eq_true.mp hin
            obtain ⟨hlogRoom, hlogId, hlogUser⟩ := of_decide_eq_true hat
            exact ⟨log, hlog, by rw [hroom]; exact hlogRoom, by rw [hname]; exact hlogId,
              hlogUser⟩
          · exact ⟨_, List.mem_append_right _ (List.mem_singleton_self _), hroom.symm,
              hname.symm, rfl⟩
        · obtain ⟨hroom, hname⟩ := Prod.mk.inj hkey
          rw [Cache.userRowId_events] at hold
          obtain ⟨log, hlog, hlogRoom, hlogId, hlogUser⟩ :=
            hasSynced_iff.mp (hcache.synced old hold)
          refine ⟨log, hlogged log ?_, hlogRoom.trans hroom, hlogId.trans hname, hlogUser⟩
          rw [hstores.log, Cache.userRowId_syncedLog]
          exact hlog
    refine ⟨hok, fun hroom hform => ?_⟩
    subst hroom
    rw [hform.storable hencrypted] at hstorable
    cases hstorable
    simp only [Opened, Cache.logSynced_events, Cache.markEncrypted_events]
    refine ⟨storeEvent_finds hstored, fun hclass => ?_⟩
    obtain ⟨row, hfind, hrow⟩ := storeEvent_opened hstored hclass
    have hsealed : Sealed raw row := by
      refine hok.sealed ?_
      rw [Cache.logSynced_events, Cache.markEncrypted_events]
      exact hfind
    exact ⟨row, hfind, hsealed.decrypted hrow⟩

variable {result : Cache × Nat × Nat}

theorem upsertAll_ok (hencrypted : Encrypted room eventId sender raw) (events : List IncomingEvent)
    (h : Cache.upsertAll packages me inRoom events cache = some result)
    (hdeliverable : ∀ incoming ∈ events, Deliverable room eventId raw inRoom incoming)
    (hcache : CacheOk me room eventId raw cache) :
    CacheOk me room eventId raw result.1 ∧
      (inRoom = room → ∀ incoming ∈ events, Form raw incoming →
        (findEvent result.1.events room eventId).isSome ∧
          ((classify incoming).eventClass ≠ .general → Opened room eventId result.1)) := by
  induction events generalizing cache result with
  | nil =>
    cases h
    exact ⟨hcache, fun _ incoming hincoming => absurd hincoming List.not_mem_nil⟩
  | cons first events ih =>
    obtain ⟨one, rest, hone, hrest, hresult, _⟩ := Cache.upsertAll_cons h
    obtain ⟨hafter, hfirst⟩ := upsertEvent_ok hencrypted hone
      (hdeliverable first List.mem_cons_self) hcache
    obtain ⟨hok, hlater⟩ := ih hrest
      (fun incoming hin => hdeliverable incoming (List.mem_cons_of_mem _ hin)) hafter
    have hkept := upsertAll_later packages events hrest
    rw [hresult]
    refine ⟨hok, fun hroom incoming hincoming hform => ?_⟩
    rcases List.mem_cons.mp hincoming with rfl | hincoming
    · obtain ⟨hfound, hopened⟩ := hfirst hroom hform
      exact ⟨storedIn_later hfound hkept, fun hclass =>
        (hopened hclass).later hafter hok hkept⟩
    · exact hlater hroom incoming hincoming hform

theorem upsertEventsCounted_ok (hencrypted : Encrypted room eventId sender raw)
    {events : List IncomingEvent}
    (h : cache.upsertEventsCounted packages me inRoom events = some result)
    (hdeliverable : ∀ incoming ∈ events, Deliverable room eventId raw inRoom incoming)
    (hcache : CacheOk me room eventId raw cache) :
    CacheOk me room eventId raw result.1 ∧ Later cache result.1 ∧
      (inRoom = room → ∀ incoming ∈ events, Form raw incoming →
        (findEvent result.1.events room eventId).isSome ∧
          ((classify incoming).eventClass ≠ .general → Opened room eventId result.1)) := by
  have hstart : CacheOk me room eventId raw ((cache.userRowId me).roomRowId inRoom) := by
    constructor
    · rw [Cache.roomRowId_events, Cache.userRowId_events]
      exact hcache.rows
    · intro row hrow
      rw [Cache.roomRowId_events, Cache.userRowId_events] at hrow
      rw [hasSynced_iff, Cache.roomRowId_syncedLog, Cache.userRowId_syncedLog, ← hasSynced_iff]
      exact hcache.synced row hrow
  obtain ⟨hok, hstored⟩ := upsertAll_ok hencrypted events h hdeliverable hstart
  exact ⟨hok, (userRowId_later cache me).trans ((roomRowId_later _ inRoom).trans
    (upsertAll_later packages events h)), hstored⟩

/-- What may be stored, room by room. -/
def GroupsOk (room eventId : String) (raw : Json) (groups : ByRoom IncomingEvent) : Prop :=
  ∀ group ∈ groups, ∀ incoming ∈ group.2, Deliverable room eventId raw group.1 incoming

theorem storeRooms_ok (hencrypted : Encrypted room eventId sender raw)
    (groups : ByRoom IncomingEvent) (hgroups : GroupsOk room eventId raw groups)
    (hcache : CacheOk me room eventId raw cache) :
    CacheOk me room eventId raw (storeRooms packages me groups cache).cache ∧
      ((storeRooms packages me groups cache).ok = true →
        ∀ group ∈ groups, group.1 = room → ∀ incoming ∈ group.2, Form raw incoming →
          (findEvent (storeRooms packages me groups cache).cache.events room eventId).isSome ∧
            ((classify incoming).eventClass ≠ .general →
              Opened room eventId (storeRooms packages me groups cache).cache)) := by
  induction groups generalizing cache with
  | nil => exact ⟨hcache, fun _ group hgroup => absurd hgroup List.not_mem_nil⟩
  | cons first groups ih =>
    obtain ⟨inRoom, events⟩ := first
    rw [storeRooms]
    cases hall : cache.upsertEventsCounted packages me inRoom events with
    | none => exact ⟨hcache, fun hok => absurd hok Bool.false_ne_true⟩
    | some result =>
      obtain ⟨hafter, _, hfirst⟩ := upsertEventsCounted_ok hencrypted hall
        (fun incoming hin => hgroups _ List.mem_cons_self incoming hin) hcache
      obtain ⟨hok, hrest⟩ := ih
        (fun group hin => hgroups group (List.mem_cons_of_mem _ hin)) hafter
      refine ⟨hok, fun hwent group hgroup hroom incoming hincoming hform => ?_⟩
      rcases List.mem_cons.mp hgroup with rfl | hgroup
      · obtain ⟨hfound, hopened⟩ := hfirst hroom incoming hincoming hform
        have hkept : Later result.1 (storeRooms packages me groups result.1).cache :=
          storeRooms_later groups result.1
        exact ⟨storedIn_later hfound hkept, fun hclass =>
          (hopened hclass).later hafter hok hkept⟩
      · exact hrest hwent group hgroup hroom incoming hincoming hform

/-- The event is not there. -/
def Absent (room eventId : String) (cache : Cache) : Prop :=
  ∀ row ∈ cache.events, row.key ≠ (room, eventId)

theorem absent_iff : Absent room eventId cache ↔ ¬(findEvent cache.events room eventId).isSome := by
  rw [Bool.not_eq_true, Option.isSome_eq_false_iff, Option.isNone_iff_eq_none]
  exact Table.find_eq_none_iff.symm

/-- What is about other events does not bring the event. -/
theorem upsertEvent_absent {result : Cache × Bool}
    (h : Cache.upsertEvent packages me inRoom cache incoming = some result)
    (hdeliverable : Deliverable room eventId raw inRoom incoming)
    (hother : inRoom = room → incoming.findEventId ≠ some eventId)
    (habsent : Absent room eventId cache) : Absent room eventId result.1 := by
  obtain ⟨_, rfl⟩ | ⟨id, by_, stored, hstorable, hstored, rfl⟩ := Cache.upsertEvent_cases h
  · exact habsent
  · have hid := findEventId_of_storable hstorable
    intro row hrow
    rw [Cache.logSynced_events, Cache.markEncrypted_events] at hrow
    rcases (storeEvent_stores hdeliverable hid hstored).keys row hrow with
      hkey | ⟨old, hold, hkey⟩
    · intro hsame
      obtain ⟨hroom, hname⟩ := Prod.mk.inj (hkey.symm.trans hsame)
      exact hother hroom (by rw [hid, hname])
    · rw [Cache.userRowId_events] at hold
      rw [← hkey]
      exact habsent old hold

theorem upsertEventsCounted_absent {events : List IncomingEvent}
    (h : cache.upsertEventsCounted packages me inRoom events = some result)
    (hdeliverable : ∀ incoming ∈ events, Deliverable room eventId raw inRoom incoming)
    (hother : inRoom = room → ∀ incoming ∈ events, incoming.findEventId ≠ some eventId)
    (habsent : Absent room eventId cache) : Absent room eventId result.1 := by
  refine Cache.upsertAll_induction (fun incoming hincoming _ _ hone =>
    upsertEvent_absent hone (hdeliverable incoming hincoming)
      fun hroom => hother hroom incoming hincoming) h ?_
  rw [Absent, Cache.roomRowId_events, Cache.userRowId_events]
  exact habsent

theorem storeRooms_absent (groups : ByRoom IncomingEvent)
    (hgroups : GroupsOk room eventId raw groups)
    (hother : ∀ group ∈ groups, group.1 = room → ∀ incoming ∈ group.2, incoming.findEventId ≠ some
      eventId) (habsent : Absent room eventId cache) :
    Absent room eventId (storeRooms packages me groups cache).cache := by
  induction groups generalizing cache with
  | nil => exact habsent
  | cons first groups ih =>
    obtain ⟨inRoom, events⟩ := first
    rw [storeRooms]
    cases hall : cache.upsertEventsCounted packages me inRoom events with
    | none => exact habsent
    | some result =>
      refine ih (fun group hin => hgroups group (List.mem_cons_of_mem _ hin))
        (fun group hin => hother group (List.mem_cons_of_mem _ hin)) ?_
      exact upsertEventsCounted_absent hall (hgroups _ List.mem_cons_self)
        (hother _ List.mem_cons_self) habsent

end Rows

section Forms

variable {decrypt : Decrypt} {keys : List RoomKey} {room eventId sender : String} {raw : Json}

theorem rawEvent_toIncoming (inRoom : String) (event : Json) :
    (toIncoming decrypt keys inRoom event).rawEvent = some event := by
  rw [toIncoming]
  split_ifs
  · rfl
  · cases decrypt keys inRoom event <;> rfl

theorem form_toIncoming (h : Encrypted room eventId sender raw) (inRoom : String) :
    Form raw (toIncoming decrypt keys inRoom raw) := by
  rw [toIncoming, if_neg (not_not.mpr h.type_eq)]
  cases decrypt keys inRoom raw with
  | error reason => exact .inl ⟨reason, rfl⟩
  | ok cleartext => exact .inr ⟨cleartext, rfl⟩

theorem rawEvent_fromWsJson (event : Json) :
    (IncomingEvent.fromWsJson event).rawEvent = some event := by
  rw [IncomingEvent.fromWsJson]
  split_ifs <;> rfl

theorem form_fromWsJson (h : Encrypted room eventId sender raw) : Form raw (.fromWsJson raw) := by
  rw [IncomingEvent.fromWsJson, if_pos h.type_eq]
  exact .inl ⟨_, rfl⟩

/-- Every delivery of the event is the same ciphertext. -/
def Same (room eventId : String) (raw : Json) (events : List Json) : Prop :=
  ∀ event ∈ events, event.text "room_id" = some room → event.text "event_id" = some eventId →
    event = raw

theorem deliverable_of_rawEvent {inRoom : String} {incoming : IncomingEvent} {event : Json}
    (hraw : incoming.rawEvent = some event)
    (hform : inRoom = room → event.text "event_id" = some eventId → Form raw incoming) :
    Deliverable room eventId raw inRoom incoming where
  raw_some := by
    rw [hraw]
    rfl
  form := fun hroom hid => hform hroom (by rw [← findEventId_of_rawEvent hraw]; exact hid)

/-- What a group has after one more is what it had, or the new one. -/
theorem of_mem_addToRoom {α : Type} {inRoom : String} {x : α} {groups : ByRoom α}
    {group : String × List α} {y : α} (hgroup : group ∈ addToRoom inRoom x groups)
    (hy : y ∈ group.2) :
    (group.1 = inRoom ∧ y = x) ∨ ∃ old ∈ groups, old.1 = group.1 ∧ y ∈ old.2 := by
  induction groups with
  | nil =>
    rw [addToRoom, List.mem_singleton] at hgroup
    subst hgroup
    exact .inl ⟨rfl, List.mem_singleton.mp hy⟩
  | cons first groups ih =>
    obtain ⟨other, xs⟩ := first
    rw [addToRoom] at hgroup
    split_ifs at hgroup with hsame hless
    · rcases List.mem_cons.mp hgroup with rfl | hgroup
      · rcases List.mem_append.mp hy with hy | hy
        · exact .inr ⟨_, List.mem_cons_self, rfl, hy⟩
        · exact .inl ⟨hsame.symm, List.mem_singleton.mp hy⟩
      · exact .inr ⟨group, List.mem_cons_of_mem _ hgroup, rfl, hy⟩
    · rcases List.mem_cons.mp hgroup with rfl | hgroup
      · exact .inl ⟨rfl, List.mem_singleton.mp hy⟩
      · exact .inr ⟨group, hgroup, rfl, hy⟩
    · rcases List.mem_cons.mp hgroup with rfl | hgroup
      · exact .inr ⟨_, List.mem_cons_self, rfl, hy⟩
      · rcases ih hgroup with hnew | ⟨old, hold, hroom, hin⟩
        · exact .inl hnew
        · exact .inr ⟨old, List.mem_cons_of_mem _ hold, hroom, hin⟩

theorem GroupsOk.addToRoom {groups : ByRoom IncomingEvent} {inRoom : String}
    {incoming : IncomingEvent} (h : GroupsOk room eventId raw groups)
    (hnew : Deliverable room eventId raw inRoom incoming) :
    GroupsOk room eventId raw (RecentMarks.addToRoom inRoom incoming groups) := by
  intro group hgroup y hy
  rcases of_mem_addToRoom hgroup hy with ⟨hroom, rfl⟩ | ⟨old, hold, hroom, hin⟩
  · rw [hroom]
    exact hnew
  · rw [← hroom]
    exact h old hold y hin

theorem groupsOk_groupByRoom (hencrypted : Encrypted room eventId sender raw) (raws : List Json)
    (hsame : Same room eventId raw raws) {groups : ByRoom IncomingEvent}
    (h : GroupsOk room eventId raw groups) :
    GroupsOk room eventId raw (raws.foldl addByRoom groups) := by
  induction raws generalizing groups with
  | nil => exact h
  | cons first raws ih =>
    refine ih (fun event hevent => hsame event (List.mem_cons_of_mem _ hevent)) ?_
    rw [addByRoom]
    cases hroom : first.text "room_id" with
    | none => exact h
    | some inRoom =>
      refine h.addToRoom (deliverable_of_rawEvent (rawEvent_fromWsJson first) ?_)
      intro hin hid
      rw [hsame first List.mem_cons_self (by rw [hroom, hin]) hid]
      exact form_fromWsJson hencrypted

end Forms

section Tasks

variable (room eventId sessionId : String) (raw : Json)

/-- The event is among what is still to be decrypted. -/
def Covers (jobs : Jobs) : Prop :=
  ∃ job ∈ jobs, job.1 = room ∧
    (job.2 = .session sessionId ∨ ∃ ids, job.2 = .eventIds ids ∧ eventId ∈ ids)

def HasOpened (opened : List IncomingEvent) : Prop :=
  ∃ cleartext, IncomingEvent.decrypted (some raw) cleartext ∈ opened

/-- The round has stored the ciphertext and not decrypted yet. -/
def HasFetched (encrypted : ByRoom String) : Prop :=
  ∃ group ∈ encrypted, group.1 = room ∧ eventId ∈ group.2

def HasTried (tried : ByRoom IncomingEvent) : Prop :=
  ∃ group ∈ tried, group.1 = room ∧ ∃ incoming ∈ group.2, Form raw incoming

/-- The task comes to decrypt the stored ciphertext. -/
def WillOpen : Task → Prop
  | .fetching encrypted => HasFetched room eventId encrypted
  | .decrypting _ jobs => Covers room eventId sessionId jobs
  | .emitting _ _ jobs => Covers room eventId sessionId jobs
  | .opening _ inRoom todo opened jobs =>
      (inRoom = room ∧ (raw ∈ todo ∨ HasOpened raw opened)) ∨ Covers room eventId sessionId jobs
  | .storingOpened _ inRoom opened jobs =>
      (inRoom = room ∧ HasOpened raw opened) ∨ Covers room eventId sessionId jobs
  | _ => False

/-- The task comes to store the ciphertext. -/
def WillStore : Task → Prop
  | .trying todo tried => raw ∈ todo ∨ HasTried room raw tried
  | .storing tried => HasTried room raw tried
  | _ => False

/-- What was opened is decrypted. -/
def OpenedOk (inRoom : String) (opened : List IncomingEvent) : Prop :=
  ∀ incoming ∈ opened, Deliverable room eventId raw inRoom incoming ∧
    isDecryptedForm incoming = true

/-- What a task has of the event is its ciphertext. -/
def TaskOk : Task → Prop
  | .trying todo tried => Same room eventId raw todo ∧ GroupsOk room eventId raw tried
  | .storing tried => GroupsOk room eventId raw tried
  | .opening _ inRoom todo opened _ =>
      (inRoom = room → ∀ event ∈ todo, event.text "event_id" = some eventId → event = raw) ∧
        OpenedOk room eventId raw inRoom opened
  | .storingOpened _ inRoom opened _ => OpenedOk room eventId raw inRoom opened
  | _ => True

end Tasks

namespace State

section Event

variable (packages : ContentPackages) (me room eventId sessionId : String) (raw : Json)

/-- The writes of the cache go through, every delivery of the event is the same
ciphertext, and a recent round does not break off after it has stored it. -/
def Proper (s : State) : Action → Prop
  | .push _ events => Same room eventId raw events
  | .batch id raws =>
      Same room eventId raw raws ∧ ∀ encrypted, s.tasks id = some (.fetching encrypted) →
        (storeBatch packages me s.cache raws).ok = true
  | .recentFails id =>
      ∀ encrypted, s.tasks id = some (.fetching encrypted) → ¬HasFetched room eventId encrypted
  | .next id =>
      (∀ tried, s.tasks id = some (.storing tried) →
        (storeRooms packages me tried s.cache).ok = true) ∧
      ∀ announce inRoom opened jobs,
        s.tasks id = some (.storingOpened announce inRoom opened jobs) →
          (s.cache.upsertEventsCounted packages me inRoom opened).isSome
  | _ => True

/-- The event is stored. -/
def IsStored (s : State) : Prop :=
  (findEvent s.cache.events room eventId).isSome

/-- What was delivered is stored or comes to be, and what is stored while its key is
there is decrypted or comes to be. -/
structure Kept (s : State) : Prop where
  cache : CacheOk me room eventId raw s.cache
  tasks : ∀ id task, s.tasks id = some task → TaskOk room eventId raw task
  stored : raw ∈ s.delivered → s.IsStored room eventId ∨
    ∃ id task, s.tasks id = some task ∧ WillStore room raw task
  opened : { roomId := room, sessionId := sessionId } ∈ s.keys → s.IsStored room eventId →
    Opened room eventId s.cache ∨
      ∃ id task, s.tasks id = some task ∧ WillOpen room eventId sessionId raw task

theorem kept_start : Kept me room eventId sessionId raw .start where
  cache := ⟨fun row hrow => absurd hrow List.not_mem_nil, fun row hrow => absurd hrow List.not_mem_nil⟩
  tasks := fun id task htask => by cases htask
  stored := fun h => absurd h List.not_mem_nil
  opened := fun h => absurd h List.not_mem_nil

end Event

variable {packages : ContentPackages} {me room eventId sessionId sender : String} {raw : Json}
  {decrypt : Decrypt} {s s' : State}

/-- One task goes on. What it had to do is done, or it has it still. -/
theorem Kept.move (h : Kept me room eventId sessionId raw s) {id : Nat} {task : Task}
    (htasks : s'.tasks = update s.tasks id (some task))
    (hcache : CacheOk me room eventId raw s'.cache) (hlater : Later s.cache s'.cache)
    (hok : TaskOk room eventId raw task)
    (hstore : raw ∈ s'.delivered → raw ∉ s.delivered ∨ (∃ old, s.tasks id = some old ∧ WillStore
      room raw old) → s'.IsStored room eventId ∨ WillStore room raw task)
    (hopen : { roomId := room, sessionId := sessionId } ∈ s'.keys → s'.IsStored room eventId →
      { roomId := room, sessionId := sessionId } ∉ s.keys ∨ ¬s.IsStored room eventId ∨
        (∃ old, s.tasks id = some old ∧ WillOpen room eventId sessionId raw old) →
          Opened room eventId s'.cache ∨ WillOpen room eventId sessionId raw task) :
    Kept me room eventId sessionId raw s' := by
  have hself : s'.tasks id = some task := by rw [htasks, update_self]
  have hother : ∀ {other : Nat}, other ≠ id → s'.tasks other = s.tasks other := by
    intro other hne
    rw [htasks, update_of_ne hne]
  constructor
  case cache => exact hcache
  case tasks =>
    intro other found hfound
    by_cases hsame : other = id
    · subst hsame
      rw [hself] at hfound
      cases hfound
      exact hok
    · rw [hother hsame] at hfound
      exact h.tasks other found hfound
  case stored =>
    intro hdelivered
    have hdone : s'.IsStored room eventId ∨ WillStore room raw task → s'.IsStored room eventId ∨
        ∃ id task, s'.tasks id = some task ∧ WillStore room raw task :=
      Or.imp_right fun hwill => ⟨id, task, hself, hwill⟩
    by_cases hbefore : raw ∈ s.delivered
    · rcases h.stored hbefore with hstored | ⟨other, old, hold, hwill⟩
      · exact .inl (storedIn_later hstored hlater)
      · by_cases hsame : other = id
        · subst hsame
          exact hdone (hstore hdelivered (.inr ⟨old, hold, hwill⟩))
        · exact .inr ⟨other, old, by rw [hother hsame]; exact hold, hwill⟩
    · exact hdone (hstore hdelivered (.inl hbefore))
  case opened =>
    intro hkey hstored
    have hdone : Opened room eventId s'.cache ∨ WillOpen room eventId sessionId raw task →
        Opened room eventId s'.cache ∨
          ∃ id task, s'.tasks id = some task ∧ WillOpen room eventId sessionId raw task :=
      Or.imp_right fun hwill => ⟨id, task, hself, hwill⟩
    by_cases hkeyBefore : { roomId := room, sessionId := sessionId } ∈ s.keys
    · by_cases hstoredBefore : s.IsStored room eventId
      · rcases h.opened hkeyBefore hstoredBefore with hopened | ⟨other, old, hold, hwill⟩
        · exact .inl (hopened.later h.cache hcache hlater)
        · by_cases hsame : other = id
          · subst hsame
            exact hdone (hopen hkey hstored (.inr (.inr ⟨old, hold, hwill⟩)))
          · exact .inr ⟨other, old, by rw [hother hsame]; exact hold, hwill⟩
      · exact hdone (hopen hkey hstored (.inr (.inl hstoredBefore)))
    · exact hdone (hopen hkey hstored (.inl hkeyBefore))

/-- A step that touches nothing but its task. -/
theorem Kept.setTask (h : Kept me room eventId sessionId raw s) {id : Nat} {old task : Task}
    (hold : s.tasks id = some old) (hok : TaskOk room eventId raw task)
    (hstore : WillStore room raw old → WillStore room raw task)
    (hopen : { roomId := room, sessionId := sessionId } ∈ s.keys → s.IsStored room eventId →
      WillOpen room eventId sessionId raw old →
        Opened room eventId s.cache ∨ WillOpen room eventId sessionId raw task) :
    Kept me room eventId sessionId raw (s.setTask id task) := by
  refine h.move rfl h.cache (Later.refl _) hok ?_ ?_
  · rintro hdelivered (hnew | ⟨found, hfound, hwill⟩)
    · exact absurd hdelivered hnew
    · rw [hold] at hfound
      cases hfound
      exact .inr (hstore hwill)
  · rintro hkey hstored (hnew | hnew | ⟨found, hfound, hwill⟩)
    · exact absurd hkey hnew
    · exact absurd hstored hnew
    · rw [hold] at hfound
      cases hfound
      exact hopen hkey hstored hwill

variable {event : Json}

theorem taskOk_tryNext (hencrypted : Encrypted room eventId sender raw) {keys : List RoomKey}
    {todo : List Json} {tried : ByRoom IncomingEvent}
    (h : TaskOk room eventId raw (.trying (event :: todo) tried)) :
    TaskOk room eventId raw (.trying todo (addTried tried (event.text "room_id")
      (match event.text "room_id" with
        | some inRoom => toIncoming decrypt keys inRoom event
        | none => .fromWsJson event))) := by
  obtain ⟨hsame, hgroups⟩ := h
  refine ⟨fun e he => hsame e (List.mem_cons_of_mem _ he), ?_⟩
  cases hroom : event.text "room_id" with
  | none => exact hgroups
  | some inRoom =>
    simp only [addTried]
    split_ifs
    · refine hgroups.addToRoom
        (deliverable_of_rawEvent (rawEvent_toIncoming inRoom event) fun hin hid => ?_)
      rw [hsame event List.mem_cons_self (by rw [hroom, hin]) hid]
      exact form_toIncoming hencrypted inRoom
    · exact hgroups

theorem Kept.tryNext (h : Kept me room eventId sessionId raw s)
    (hencrypted : Encrypted room eventId sender raw) {id : Nat} {event : Json} {todo : List Json}
    {tried : ByRoom IncomingEvent} (hold : s.tasks id = some (.trying (event :: todo) tried)) :
    Kept me room eventId sessionId raw (s.tryNext decrypt id event todo tried) := by
  rw [State.tryNext]
  refine h.setTask hold (taskOk_tryNext hencrypted (h.tasks id _ hold)) ?_
    fun _ _ hwill => hwill.elim
  · have hkept : HasTried room raw tried → ∀ inRoom incoming,
        HasTried room raw (addTried tried inRoom incoming) := by
      rintro ⟨group, hgroup, hroom, incoming, hin, hform⟩ inRoom added
      cases inRoom with
      | none => exact ⟨group, hgroup, hroom, incoming, hin, hform⟩
      | some inRoom =>
        simp only [addTried]
        split_ifs
        · obtain ⟨group', hgroup', hsameRoom, hsub⟩ :=
            (mem_addToRoom inRoom added tried).2 group hgroup
          exact ⟨group', hgroup', hsameRoom.trans hroom, incoming, hsub hin, hform⟩
        · exact ⟨group, hgroup, hroom, incoming, hin, hform⟩
    rintro (htodo | htried)
    · rcases List.mem_cons.mp htodo with rfl | htodo
      · right
        have hform : Form raw (toIncoming decrypt s.keys room raw) :=
          form_toIncoming hencrypted room
        have hstorable := hform.storable hencrypted
        have hidentity : (toIncoming decrypt s.keys room raw).storableIdentity.isSome := by
          rw [Cache.storable] at hstorable
          cases hfound : (toIncoming decrypt s.keys room raw).storableIdentity with
          | none => simp [hfound] at hstorable
          | some _ => rfl
        simp only [hencrypted.room_eq, addTried, if_pos hidentity]
        obtain ⟨group, hgroup, hroom, hin⟩ :=
          (mem_addToRoom room (toIncoming decrypt s.keys room raw) tried).1
        exact ⟨group, hgroup, hroom, _, hin, hform⟩
      · exact .inl htodo
    · exact .inr (hkept htried _ _)

theorem isDecryptedForm_of_class {incoming : IncomingEvent} (h : isDecryptedForm incoming = true) :
    (classify incoming).eventClass ≠ .general := by
  rw [Ne, classify_eq_general_iff]
  cases incoming with
  | decrypted ciphertext cleartext => exact fun h => by cases h
  | plain | undecrypted => cases h

theorem covers_undecryptedOf {tried : ByRoom IncomingEvent}
    (hencrypted : Encrypted room eventId sender raw) {group : String × List IncomingEvent}
    (hgroup : group ∈ tried) (hroom : group.1 = room) {reason : String}
    (hin : IncomingEvent.undecrypted raw reason ∈ group.2) :
    Covers room eventId sessionId (undecryptedOf tried) := by
  have hids : eventId ∈ (group.2.filter isUndecryptedForm).filterMap fun incoming =>
      incoming.storableIdentity.map Prod.fst := by
    refine List.mem_filterMap.mpr ⟨_, List.mem_filter.mpr ⟨hin, rfl⟩, ?_⟩
    simp [IncomingEvent.storableIdentity, IncomingEvent.findEventId, IncomingEvent.envelope,
      hencrypted.sender_eq, hencrypted.id_eq]
  refine ⟨(group.1, .eventIds _), List.mem_filterMap.mpr ⟨_, List.mem_map_of_mem hgroup, ?_⟩,
    hroom, .inr ⟨_, rfl, hids⟩⟩
  rw [if_neg]
  intro hempty
  have hnil : ((group.2.filter isUndecryptedForm).filterMap fun incoming =>
      incoming.storableIdentity.map Prod.fst) = [] := List.isEmpty_iff.mp hempty
  rw [hnil] at hids
  cases hids

theorem Kept.storeTried (h : Kept me room eventId sessionId raw s)
    (hencrypted : Encrypted room eventId sender raw) {id : Nat} {tried : ByRoom IncomingEvent}
    (hold : s.tasks id = some (.storing tried))
    (hwrites : (storeRooms packages me tried s.cache).ok = true) :
    Kept me room eventId sessionId raw (s.storeTried packages me id tried) := by
  have hgroups : GroupsOk room eventId raw tried := h.tasks id _ hold
  obtain ⟨hcache, hstored⟩ : CacheOk me room eventId raw (storeRooms packages me tried s.cache).cache ∧ _ :=
    storeRooms_ok hencrypted tried hgroups h.cache
  rw [State.storeTried]
  simp only [if_pos hwrites]
  refine h.move rfl hcache (storeRooms_later tried s.cache) trivial ?_ ?_
  · rintro hdelivered (hnew | ⟨found, hfound, hwill⟩)
    · exact absurd hdelivered hnew
    · rw [hold] at hfound
      cases hfound
      obtain ⟨group, hgroup, hroom, incoming, hin, hform⟩ := hwill
      exact .inl (hstored hwrites group hgroup hroom incoming hin hform).1
  · rintro hkey hnow (hnew | hnew | ⟨found, hfound, hwill⟩)
    · exact absurd hkey hnew
    · by_cases htried : HasTried room raw tried
      · obtain ⟨group, hgroup, hroom, incoming, hin, hform⟩ := htried
        obtain ⟨reason, rfl⟩ | ⟨cleartext, rfl⟩ := hform
        · exact .inr (covers_undecryptedOf hencrypted hgroup hroom hin)
        · exact .inl ((hstored hwrites group hgroup hroom _ hin (.inr ⟨cleartext, rfl⟩)).2
            (isDecryptedForm_of_class rfl))
      · refine absurd hnow (absent_iff.mp (storeRooms_absent tried hgroups ?_ (absent_iff.mpr hnew)))
        intro group hgroup hroom incoming hin hid
        exact htried ⟨group, hgroup, hroom, incoming, hin,
          (hgroups group hgroup incoming hin).form hroom hid⟩
    · rw [hold] at hfound
      cases hfound
      cases hwill

variable {cache : Cache} {inRoom : String} {which : StoredToDecrypt}

/-- What is listed for a room is the original form of one of its rows. -/
theorem exists_row_of_listed (h : event ∈ cache.listUndecryptedCiphertexts me inRoom which) :
    ∃ row ∈ cache.events, row.room = inRoom ∧ row.rawEvent = some event := by
  cases which with
  | session sessionId =>
    rw [Cache.listUndecryptedCiphertexts, List.mem_filterMap] at h
    obtain ⟨row, hrow, hraw⟩ := h
    rw [List.mem_mergeSort, List.mem_filter] at hrow
    exact ⟨row, hrow.1, (of_decide_eq_true hrow.2).1, hraw⟩
  | eventIds ids =>
    rw [Cache.listUndecryptedCiphertexts, List.mem_filterMap] at h
    obtain ⟨id, _, hfound⟩ := h
    rw [Option.bind_eq_some_iff] at hfound
    obtain ⟨row, hrow, hraw⟩ := hfound
    obtain ⟨hmem, hkey⟩ := Table.mem_of_find (Option.filter_eq_some_iff.mp hrow).1
    exact ⟨row, hmem, (Prod.mk.inj hkey).1, hraw⟩

section

variable (h : CacheOk me room eventId raw cache)

include h

theorem listed_same (hlisted : event ∈ cache.listUndecryptedCiphertexts me inRoom which)
    (hroom : inRoom = room) (hid : event.text "event_id" = some eventId) : event = raw := by
  obtain ⟨row, hrow, hin, hraw⟩ := exists_row_of_listed hlisted
  obtain ⟨json, hjson, hname⟩ := (h.rows row hrow).named
  rw [hraw, Option.some.injEq] at hjson
  have hkey : row.key = (room, eventId) := by
    refine Prod.ext (hin.trans hroom) ?_
    rw [← hjson, hid] at hname
    exact (Option.some.inj hname).symm
  have hsealed := ((h.rows row hrow).sealed hkey).raw_eq
  rw [hraw] at hsealed
  exact Option.some.inj hsealed

theorem taskOk_listed {announce : Bool} {jobs : Jobs} :
    TaskOk room eventId raw
      (.opening announce inRoom (cache.listUndecryptedCiphertexts me inRoom which) [] jobs) :=
  ⟨fun hroom _ hevent hid => listed_same h hevent hroom hid,
    fun _ hin => absurd hin List.not_mem_nil⟩

/-- A stored ciphertext that is not decrypted is listed. -/
theorem mem_listed (hsession : sessionIdOf raw = some sessionId)
    (hstored : (findEvent cache.events room eventId).isSome) (hclosed : ¬Opened room eventId cache)
    (hwhich : which = .session sessionId ∨ ∃ ids, which = .eventIds ids ∧ eventId ∈ ids) :
    raw ∈ cache.listUndecryptedCiphertexts me room which := by
  obtain ⟨row, hfind⟩ := Option.isSome_iff_exists.mp hstored
  obtain ⟨hrow, hkey⟩ := Table.mem_of_find hfind
  have hsealed := (h.rows row hrow).sealed hkey
  have hgeneral : row.eventClass = .general := by
    by_contra hclass
    exact hclosed ⟨row, hfind, hsealed.decrypted hclass⟩
  have hwaits : cache.isUndecrypted me row = true := by
    simp [Cache.isUndecrypted, hsealed.undecrypted hgeneral, hsealed.raw_eq, h.synced row hrow]
  rcases hwhich with rfl | ⟨ids, rfl, hid⟩
  · rw [Cache.listUndecryptedCiphertexts, List.mem_filterMap]
    refine ⟨row, ?_, hsealed.raw_eq⟩
    rw [List.mem_mergeSort, List.mem_filter]
    refine ⟨hrow, decide_eq_true ⟨(Prod.mk.inj hkey).1, hwaits, ?_⟩⟩
    rw [hsealed.raw_eq]
    exact hsession
  · rw [Cache.listUndecryptedCiphertexts, List.mem_filterMap]
    refine ⟨eventId, hid, ?_⟩
    rw [hfind, Option.filter_some, if_pos hwaits]
    exact hsealed.raw_eq

end

theorem Kept.listStored (h : Kept me room eventId sessionId raw s)
    (hsession : sessionIdOf raw = some sessionId) {id : Nat} {announce : Bool} {inRoom : String}
    {which : StoredToDecrypt} {jobs : Jobs}
    (hold : s.tasks id = some (.decrypting announce ((inRoom, which) :: jobs))) :
    Kept me room eventId sessionId raw (s.listStored me id announce inRoom which jobs) := by
  refine h.setTask hold (taskOk_listed h.cache) (fun hwill => hwill.elim) ?_
  rintro _ hstored ⟨job, hjob, hroom, hwhich⟩
  rcases List.mem_cons.mp hjob with rfl | hjob
  · by_cases hopened : Opened room eventId s.cache
    · exact .inl hopened
    · obtain rfl : inRoom = room := hroom
      exact .inr (.inl ⟨rfl, .inl (mem_listed h.cache hsession hstored hopened hwhich)⟩)
  · exact .inr (.inr ⟨job, hjob, hroom, hwhich⟩)

theorem taskOk_openNext (hencrypted : Encrypted room eventId sender raw) {keys : List RoomKey}
    {announce : Bool} {todo : List Json} {opened : List IncomingEvent} {jobs : Jobs}
    (h : TaskOk room eventId raw (.opening announce inRoom (event :: todo) opened jobs)) :
    TaskOk room eventId raw (.opening announce inRoom todo
      (if isDecryptedForm (toIncoming decrypt keys inRoom event) then
        opened ++ [toIncoming decrypt keys inRoom event] else opened) jobs) := by
  obtain ⟨hsame, hopenedOk⟩ := h
  refine ⟨fun hroom e he => hsame hroom e (List.mem_cons_of_mem _ he), ?_⟩
  split_ifs with hform
  · intro incoming hin
    rcases List.mem_append.mp hin with hin | hin
    · exact hopenedOk incoming hin
    · rw [List.mem_singleton.mp hin]
      refine ⟨deliverable_of_rawEvent (rawEvent_toIncoming inRoom event) fun hroom hid => ?_, hform⟩
      rw [hsame hroom event List.mem_cons_self hid]
      exact form_toIncoming hencrypted inRoom
  · exact hopenedOk

section

variable (h : Kept me room eventId sessionId raw s)

include h

theorem Kept.openNext (hencrypted : Encrypted room eventId sender raw)
    (hopens : ∀ keys, { roomId := room, sessionId := sessionId } ∈ keys →
      ∃ cleartext, decrypt keys room raw = .ok cleartext) {id : Nat} {announce : Bool}
    {inRoom : String} {event : Json} {todo : List Json} {opened : List IncomingEvent} {jobs : Jobs}
    (hold : s.tasks id = some (.opening announce inRoom (event :: todo) opened jobs)) :
    Kept me room eventId sessionId raw
      (s.openNext decrypt id announce inRoom event todo opened jobs) := by
  rw [State.openNext]
  refine h.setTask hold (taskOk_openNext hencrypted (h.tasks id _ hold)) (fun hwill => hwill.elim) ?_
  rintro hkey _ (⟨hroom, hin⟩ | hcovers)
  · right
    left
    refine ⟨hroom, ?_⟩
    rcases hin with hin | ⟨cleartext, hin⟩
    · rcases List.mem_cons.mp hin with rfl | hin
      · right
        obtain ⟨cleartext, hopen⟩ := hopens s.keys hkey
        have hform : toIncoming decrypt s.keys inRoom raw = .decrypted (some raw) cleartext := by
          rw [toIncoming, if_neg (not_not.mpr hencrypted.type_eq), hroom, hopen]
        simp only [hform, isDecryptedForm, if_true]
        exact ⟨cleartext, List.mem_append_right _ (List.mem_singleton_self _)⟩
      · exact .inl hin
    · right
      refine ⟨cleartext, ?_⟩
      split_ifs
      · exact List.mem_append_left _ hin
      · exact hin
  · exact .inr (.inr hcovers)

theorem Kept.storeOpened (hencrypted : Encrypted room eventId sender raw) {id : Nat}
    {announce : Bool} {inRoom : String} {opened : List IncomingEvent} {jobs : Jobs}
    (hold : s.tasks id = some (.storingOpened announce inRoom opened jobs))
    (hwrites : (s.cache.upsertEventsCounted packages me inRoom opened).isSome) :
    Kept me room eventId sessionId raw
      (s.storeOpened packages me id announce inRoom opened jobs) := by
  have hopenedOk : OpenedOk room eventId raw inRoom opened := h.tasks id _ hold
  have hdeliverable : ∀ incoming ∈ opened, Deliverable room eventId raw inRoom incoming :=
    fun incoming hin => (hopenedOk incoming hin).1
  obtain ⟨result, hall⟩ := Option.isSome_iff_exists.mp hwrites
  obtain ⟨hcache, hlater, hstored⟩ := upsertEventsCounted_ok hencrypted hall hdeliverable h.cache
  rw [State.storeOpened]
  simp only [hall]
  refine h.move rfl hcache hlater trivial ?_ ?_
  · rintro hdelivered (hnew | ⟨found, hfound, hwill⟩)
    · exact absurd hdelivered hnew
    · rw [hold] at hfound
      cases hfound
      exact hwill.elim
  · have hnow : inRoom = room → ∀ incoming ∈ opened, incoming.findEventId = some eventId →
        Opened room eventId result.1 := by
      intro hroom incoming hin hid
      obtain ⟨hdel, hform⟩ := hopenedOk incoming hin
      exact (hstored hroom incoming hin (hdel.form hroom hid)).2 (isDecryptedForm_of_class hform)
    rintro hkey hstoredNow (hnew | hnew | ⟨found, hfound, hwill⟩)
    · exact absurd hkey hnew
    · by_cases habout : inRoom = room ∧ ∃ incoming ∈ opened, incoming.findEventId = some eventId
      · obtain ⟨hroom, incoming, hin, hid⟩ := habout
        exact .inl (hnow hroom incoming hin hid)
      · refine absurd hstoredNow (absent_iff.mp (upsertEventsCounted_absent hall hdeliverable ?_
          (absent_iff.mpr hnew)))
        exact fun hroom incoming hin hid => habout ⟨hroom, incoming, hin, hid⟩
    · rw [hold] at hfound
      cases hfound
      rcases hwill with ⟨hroom, cleartext, hin⟩ | hcovers
      · exact .inl (hnow hroom _ hin hencrypted.id_eq)
      · exact .inr hcovers

theorem Kept.advance (hencrypted : Encrypted room eventId sender raw)
    (hsession : sessionIdOf raw = some sessionId)
    (hopens : ∀ keys, { roomId := room, sessionId := sessionId } ∈ keys →
      ∃ cleartext, decrypt keys room raw = .ok cleartext) {id : Nat}
    (hproper : s.Proper packages me room eventId raw (.next id)) {task : Task}
    (hold : s.tasks id = some task) :
    Kept me room eventId sessionId raw (s.advance packages me decrypt id task) := by
  cases task with
  | trying todo tried =>
    cases todo with
    | nil =>
      obtain ⟨_, hgroups⟩ := h.tasks id _ hold
      refine h.setTask hold hgroups ?_ fun _ _ hwill => hwill.elim
      rintro (hin | htried)
      · cases hin
      · exact htried
    | cons event todo => exact h.tryNext hencrypted hold
  | storing tried => exact h.storeTried hencrypted hold (hproper.1 tried hold)
  | fetching encrypted | done => exact h
  | decrypting announce jobs =>
    cases jobs with
    | nil =>
      refine h.setTask hold trivial (fun hwill => hwill.elim) ?_
      rintro _ _ ⟨job, hjob, _⟩
      cases hjob
    | cons job jobs => exact h.listStored hsession hold
  | opening announce inRoom todo opened jobs =>
    cases todo with
    | cons event todo => exact h.openNext hencrypted hopens hold
    | nil =>
      obtain ⟨_, hopenedOk⟩ := h.tasks id _ hold
      cases opened with
      | nil =>
        refine h.setTask hold trivial (fun hwill => hwill.elim) ?_
        rintro _ _ (⟨_, hin | ⟨_, hin⟩⟩ | hcovers)
        · cases hin
        · cases hin
        · exact .inr hcovers
      | cons first opened =>
        refine h.setTask hold hopenedOk (fun hwill => hwill.elim) ?_
        rintro _ _ (⟨hroom, hin | hin⟩ | hcovers)
        · cases hin
        · exact .inr (.inl ⟨hroom, hin⟩)
        · exact .inr (.inr hcovers)
  | storingOpened announce inRoom opened jobs =>
    exact h.storeOpened hencrypted hold (hproper.2 announce inRoom opened jobs hold)
  | emitting announce notices jobs =>
    cases notices with
    | nil => exact h.setTask hold trivial (fun hwill => hwill.elim) fun _ _ hwill => .inr hwill
    | cons notice notices =>
      refine h.move rfl h.cache (Later.refl _)
        (show TaskOk room eventId raw (.emitting announce notices jobs) from trivial) ?_ ?_
      · rintro hdelivered (hnew | ⟨found, hfound, hwill⟩)
        · exact absurd hdelivered hnew
        · rw [hold] at hfound
          cases hfound
          exact hwill.elim
      · rintro hkey hstored (hnew | hnew | ⟨found, hfound, hwill⟩)
        · exact absurd hkey hnew
        · exact absurd hstored hnew
        · rw [hold] at hfound
          cases hfound
          exact .inr hwill

end

theorem HasFetched.fold (raws : List Json) {encrypted : ByRoom String}
    (h : HasFetched room eventId encrypted) :
    HasFetched room eventId (raws.foldl addEncrypted encrypted) := by
  induction raws generalizing encrypted with
  | nil => exact h
  | cons first raws ih =>
    refine ih ?_
    rw [addEncrypted]
    cases first.text "room_id" with
    | none => exact h
    | some inRoom =>
      simp only
      split_ifs
      · cases first.text "event_id" with
        | none => exact h
        | some id =>
          obtain ⟨group, hgroup, hroom, hin⟩ := h
          obtain ⟨group', hgroup', hsame, hsub⟩ := (mem_addToRoom inRoom id encrypted).2 group hgroup
          exact ⟨group', hgroup', hsame.trans hroom, hsub hin⟩
      · exact h

theorem hasFetched_of_mem (hencrypted : Encrypted room eventId sender raw) (raws : List Json)
    (encrypted : ByRoom String) (h : raw ∈ raws) :
    HasFetched room eventId (raws.foldl addEncrypted encrypted) := by
  induction raws generalizing encrypted with
  | nil => cases h
  | cons first raws ih =>
    rcases List.mem_cons.mp h with rfl | h
    · refine HasFetched.fold raws ?_
      simp only [addEncrypted, hencrypted.room_eq, hencrypted.type_eq, if_true,
        hencrypted.id_eq]
      obtain ⟨group, hgroup, hroom, hin⟩ := (mem_addToRoom room eventId encrypted).1
      exact ⟨group, hgroup, hroom, hin⟩
    · exact ih _ h

/-- What is in the groups of a batch comes from the batch. -/
theorem of_mem_groupByRoom (raws : List Json) {groups : ByRoom IncomingEvent}
    {group : String × List IncomingEvent} {incoming : IncomingEvent}
    (hgroup : group ∈ raws.foldl addByRoom groups) (hin : incoming ∈ group.2) :
    (∃ event ∈ raws, event.text "room_id" = some group.1 ∧ incoming = .fromWsJson event) ∨
      ∃ old ∈ groups, old.1 = group.1 ∧ incoming ∈ old.2 := by
  induction raws generalizing groups with
  | nil => exact .inr ⟨group, hgroup, rfl, hin⟩
  | cons first raws ih =>
    rcases ih hgroup with ⟨event, hevent, hroom⟩ | ⟨old, hold, hroom, hin⟩
    · exact .inl ⟨event, List.mem_cons_of_mem _ hevent, hroom⟩
    · rw [addByRoom] at hold
      cases hfirst : first.text "room_id" with
      | none =>
        rw [hfirst] at hold
        exact .inr ⟨old, hold, hroom, hin⟩
      | some inRoom =>
        simp only [hfirst] at hold
        rcases of_mem_addToRoom hold hin with ⟨hsame, hnew⟩ | ⟨before, hbefore, hsame, hin⟩
        · exact .inl ⟨first, List.mem_cons_self, by rw [hfirst, ← hroom, hsame], hnew⟩
        · exact .inr ⟨before, hbefore, hsame.trans hroom, hin⟩

theorem Kept.storeFetched (h : Kept me room eventId sessionId raw s)
    (hencrypted : Encrypted room eventId sender raw) {id : Nat} {fetched : ByRoom String}
    {raws : List Json} (hold : s.tasks id = some (.fetching fetched))
    (hsame : Same room eventId raw raws)
    (hwrites : (storeBatch packages me s.cache raws).ok = true) :
    Kept me room eventId sessionId raw (s.storeFetched packages me id fetched raws) := by
  have hgroups : GroupsOk room eventId raw (groupByRoom raws) :=
    groupsOk_groupByRoom hencrypted raws hsame fun group hgroup => absurd hgroup List.not_mem_nil
  obtain ⟨hcache, hstored⟩ :=
    @storeRooms_ok packages _ _ _ _ _ _ hencrypted (groupByRoom raws) hgroups h.cache
  rw [State.storeFetched]
  simp only [if_pos hwrites]
  refine h.move rfl hcache (storeBatch_later s.cache raws) trivial ?_ ?_
  · rintro hdelivered (hnew | ⟨found, hfound, hwill⟩)
    · rcases List.mem_append.mp hdelivered with hbefore | hnow
      · exact absurd hbefore hnew
      · left
        obtain ⟨group, hgroup, hroom, hin⟩ :=
          (mem_groupByRoom raws []).1 raw hnow room hencrypted.room_eq
        exact (hstored hwrites group hgroup hroom _ hin (form_fromWsJson hencrypted)).1
    · rw [hold] at hfound
      cases hfound
      exact hwill.elim
  · rintro hkey hstoredNow (hnew | hnew | ⟨found, hfound, hwill⟩)
    · exact absurd hkey hnew
    · right
      by_cases hin : raw ∈ raws
      · exact hasFetched_of_mem hencrypted raws fetched hin
      · refine absurd hstoredNow (absent_iff.mp (storeRooms_absent _ hgroups ?_
          (absent_iff.mpr hnew)))
        intro group hgroup hroom incoming hincoming hid
        rcases of_mem_groupByRoom raws hgroup hincoming with
          ⟨event, hevent, hname, rfl⟩ | ⟨old, hold, _⟩
        · refine hin ?_
          rw [findEventId_of_rawEvent (rawEvent_fromWsJson event)] at hid
          rw [← hsame event hevent (by rw [hname, hroom]) hid]
          exact hevent
        · cases hold
    · rw [hold] at hfound
      cases hfound
      exact .inr (HasFetched.fold raws hwill)

theorem Kept.step (h : Kept me room eventId sessionId raw s)
    (hencrypted : Encrypted room eventId sender raw) (hsession : sessionIdOf raw = some sessionId)
    (hopens : ∀ keys, { roomId := room, sessionId := sessionId } ∈ keys →
      ∃ cleartext, decrypt keys room raw = .ok cleartext) {action : Action}
    (hproper : s.Proper packages me room eventId raw action) :
    Kept me room eventId sessionId raw (s.step packages me decrypt action) := by
  cases action with
  | push id events =>
    simp only [State.step]
    cases htask : s.tasks id with
    | some _ => exact h
    | none =>
      refine h.move rfl h.cache (Later.refl _)
        (show TaskOk room eventId raw (.trying events []) from
          ⟨hproper, fun group hgroup => absurd hgroup List.not_mem_nil⟩) ?_ ?_
      · rintro hdelivered (hnew | ⟨found, hfound, _⟩)
        · rcases List.mem_append.mp hdelivered with hbefore | hnow
          · exact absurd hbefore hnew
          · exact .inr (.inl hnow)
        · rw [htask] at hfound
          cases hfound
      · rintro hkey hstored (hnew | hnew | ⟨found, hfound, _⟩)
        · exact absurd hkey hnew
        · exact absurd hstored hnew
        · rw [htask] at hfound
          cases hfound
  | recent id =>
    simp only [State.step]
    cases htask : s.tasks id with
    | some _ => exact h
    | none =>
      refine h.move rfl h.cache (Later.refl _)
        (show TaskOk room eventId raw (.fetching []) from trivial) ?_ ?_
      · rintro hdelivered (hnew | ⟨found, hfound, _⟩)
        · exact absurd hdelivered hnew
        · rw [htask] at hfound
          cases hfound
      · rintro hkey hstored (hnew | hnew | ⟨found, hfound, _⟩)
        · exact absurd hkey hnew
        · exact absurd hstored hnew
        · rw [htask] at hfound
          cases hfound
  | batch id raws =>
    simp only [State.step]
    cases htask : s.tasks id with
    | none => exact h
    | some task =>
      cases task with
      | fetching fetched =>
        exact h.storeFetched hencrypted htask hproper.1 (hproper.2 fetched htask)
      | _ => exact h
  | recentEnds id =>
    simp only [State.step]
    cases htask : s.tasks id with
    | none => exact h
    | some task =>
      cases task with
      | fetching fetched =>
        refine h.setTask htask trivial (fun hwill => hwill.elim) fun _ _ hwill => .inr ?_
        obtain ⟨group, hgroup, hroom, hin⟩ := hwill
        exact ⟨(group.1, .eventIds group.2), List.mem_map_of_mem hgroup, hroom,
          .inr ⟨group.2, rfl, hin⟩⟩
      | _ => exact h
  | recentFails id =>
    simp only [State.step]
    cases htask : s.tasks id with
    | none => exact h
    | some task =>
      cases task with
      | fetching fetched =>
        exact h.setTask htask trivial (fun hwill => hwill.elim)
          fun _ _ hwill => absurd hwill (hproper fetched htask)
      | _ => exact h
  | roomKeys id keys =>
    simp only [State.step]
    cases htask : s.tasks id with
    | some _ => exact h
    | none =>
      refine h.move rfl h.cache (Later.refl _)
        (show TaskOk room eventId raw (.decrypting true (keys.map fun key =>
          (key.roomId, .session key.sessionId))) from trivial) ?_ ?_
      · rintro hdelivered (hnew | ⟨found, hfound, _⟩)
        · exact absurd hdelivered hnew
        · rw [htask] at hfound
          cases hfound
      · rintro hkey hstored (hnew | hnew | ⟨found, hfound, _⟩)
        · rcases List.mem_append.mp hkey with hbefore | hnow
          · exact absurd hbefore hnew
          · exact .inr ⟨_, List.mem_map_of_mem hnow, rfl, .inl rfl⟩
        · exact absurd hstored hnew
        · rw [htask] at hfound
          cases hfound
  | next id =>
    simp only [State.step]
    cases htask : s.tasks id with
    | none => exact h
    | some task => exact h.advance hencrypted hsession hopens hproper htask

/-- Nothing is under way. -/
def Idle (s : State) : Prop :=
  ∀ id task, s.tasks id = some task → task = .done

/-- In every run in which the writes of the cache go through and no recent round breaks off
after it has stored the ciphertext: when its key and the ciphertext have come and nothing
is under way, the event is stored decrypted. -/
theorem nothing_leftBehind (packages : ContentPackages) (me : String) (decrypt : Decrypt)
    {room eventId sender sessionId : String} {raw : Json}
    (hencrypted : Encrypted room eventId sender raw) (hsession : sessionIdOf raw = some sessionId)
    (hopens : ∀ keys, { roomId := room, sessionId := sessionId } ∈ keys →
      ∃ cleartext, decrypt keys room raw = .ok cleartext) (actions : List Action)
    (hproper : Runs.Along (step packages me decrypt) (Proper packages me room eventId raw) .start
      actions) :
    let s := Runs.run (step packages me decrypt) .start actions
    { roomId := room, sessionId := sessionId } ∈ s.keys → raw ∈ s.delivered → s.Idle →
      Opened room eventId s.cache := by
  intro s hkey hdelivered hidle
  have h : Kept me room eventId sessionId raw s :=
    Runs.run_invariant_along (Kept me room eventId sessionId raw)
      (fun _ _ hstep h => h.step hencrypted hsession hopens hstep) actions _ hproper
      (kept_start me room eventId sessionId raw)
  have hstored : s.IsStored room eventId := by
    rcases h.stored hdelivered with hstored | ⟨id, task, htask, hwill⟩
    · exact hstored
    · rw [hidle id task htask] at hwill
      exact hwill.elim
  rcases h.opened hkey hstored with hopened | ⟨id, task, htask, hwill⟩
  · exact hopened
  · rw [hidle id task htask] at hwill
    exact hwill.elim

def exampleCiphertext : Json :=
  .object [("room_id", .string "!a"), ("event_id", .string "$1"), ("sender", .string "@b"),
    ("type", .string "m.room.encrypted"), ("content", .object [("session_id", .string "s")])]

def exampleCleartext : Json :=
  .object [("type", .string "m.room.message"), ("content", .object [])]

def exampleKey : RoomKey := { roomId := "!a", sessionId := "s" }

/-- An engine that opens everything as soon as it has the key. -/
def exampleDecrypt : Decrypt := fun keys _ _ =>
  if exampleKey ∈ keys then .ok exampleCleartext else .error ""

/-- The ciphertext comes before its key. -/
def exampleActions : List Action :=
  [.push 0 [exampleCiphertext], .next 0, .next 0, .next 0, .next 0, .next 0, .next 0, .next 0,
    .next 0, .next 0, .roomKeys 1 [exampleKey], .next 1, .next 1, .next 1, .next 1, .next 1,
    .next 1, .next 1]

theorem encrypted_exampleCiphertext : Encrypted "!a" "$1" "@b" exampleCiphertext :=
  ⟨by decide, by decide, by decide, by decide⟩

theorem opens_exampleDecrypt (keys : List RoomKey) (h : exampleKey ∈ keys) :
    ∃ cleartext, exampleDecrypt keys "!a" exampleCiphertext = .ok cleartext :=
  ⟨exampleCleartext, if_pos h⟩

/-- If the task writes next, the write goes through. -/
def writesNext (packages : ContentPackages) (me : String) (s : State) (id : Nat) : Bool :=
  match s.tasks id with
  | some (.storing tried) => (storeRooms packages me tried s.cache).ok
  | some (.storingOpened _ inRoom opened _) =>
      (s.cache.upsertEventsCounted packages me inRoom opened).isSome
  | _ => true

theorem proper_next {packages : ContentPackages} {me room eventId : String} {raw : Json} {s : State}
    {id : Nat} (h : writesNext packages me s id = true) :
    s.Proper packages me room eventId raw (.next id) := by
  constructor
  · intro tried htask
    rw [writesNext, htask] at h
    exact h
  · intro announce inRoom opened jobs htask
    rw [writesNext, htask] at h
    exact h

theorem nothing_leftBehind_one :
    let s := Runs.run (step RecentMarks.State.examplePackages.content "@me" exampleDecrypt) .start exampleActions
    exampleKey ∈ s.keys → exampleCiphertext ∈ s.delivered → s.Idle → Opened "!a" "$1" s.cache := by
  have hsame : Same "!a" "$1" exampleCiphertext [exampleCiphertext] :=
    fun event hevent _ _ => List.mem_singleton.mp hevent
  refine nothing_leftBehind RecentMarks.State.examplePackages.content "@me" exampleDecrypt
    encrypted_exampleCiphertext (by decide) opens_exampleDecrypt exampleActions ⟨hsame, ?_⟩
  refine ⟨proper_next ?_, proper_next ?_, proper_next ?_, proper_next ?_, proper_next ?_,
    proper_next ?_, proper_next ?_, proper_next ?_, proper_next ?_, trivial, proper_next ?_,
    proper_next ?_, proper_next ?_, proper_next ?_, proper_next ?_, proper_next ?_,
    proper_next ?_, trivial⟩ <;>
    decide +kernel

/-- The key line has looked for what waits, and found nothing. -/
def exampleLooked : State :=
  { keys := [exampleKey]
    cache := .empty
    tasks := update
      (update (fun _ => none) 0 (some (.decrypting true [("!a", .session "s")])))
      0 (some (.opening true "!a" [] [] []))
    notices := []
    delivered := [] }

theorem run_exampleLooked :
    Runs.run (step RecentMarks.State.examplePackages.content "@me" exampleDecrypt) .start
      [.roomKeys 0 [exampleKey], .next 0] = exampleLooked := by
  have hscan : Cache.empty.listUndecryptedCiphertexts "@me" "!a" (.session "s") = [] := by
    simp [Cache.listUndecryptedCiphertexts, Cache.empty]
  change State.listStored "@me" { State.start with
    keys := [exampleKey]
    tasks := update (fun _ => none) 0 (some (.decrypting true [("!a", .session "s")])) }
    0 true "!a" (.session "s") [] = exampleLooked
  rw [State.listStored]
  simp only [State.start, hscan]
  rfl

/-- The key is there already when a recent round stores the ciphertext, and the round breaks
off before it decrypts. -/
theorem leftBehind_recent :
    ¬(let s := Runs.run (step RecentMarks.State.examplePackages.content "@me" exampleDecrypt) .start
        [.roomKeys 0 [exampleKey], .next 0, .next 0, .next 0, .recent 1,
          .batch 1 [exampleCiphertext], .recentFails 1]
      exampleKey ∈ s.keys → exampleCiphertext ∈ s.delivered → s.Idle →
        Opened "!a" "$1" s.cache) := by
  intro h
  have hsplit := Runs.run_append (step RecentMarks.State.examplePackages.content "@me" exampleDecrypt)
    .start [.roomKeys 0 [exampleKey], .next 0]
    [.next 0, .next 0, .recent 1, .batch 1 [exampleCiphertext], .recentFails 1]
  rw [run_exampleLooked] at hsplit
  simp only [List.cons_append, List.nil_append] at hsplit
  rw [hsplit] at h
  obtain ⟨row, hrow, hopened⟩ := h List.mem_cons_self List.mem_cons_self fun id task htask => by
    match id, htask with
    | 0, htask => cases htask; rfl
    | 1, htask => cases htask; rfl
    | id + 2, htask => cases htask
  cases hrow
  cases hopened

end State

end StoredDecryption
end WbfMatrixClient
