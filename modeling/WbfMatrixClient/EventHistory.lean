import WbfMatrixClient.CacheOperations
import WbfMatrixClient.EventPointers

/-!
# What an event keeps for ever

The original form of an event is written once, and so is its content, when the
event can be read. A redaction is not taken back, and what an account has hidden
stays hidden. All of this is one relation between an earlier and a later cache,
which every operation keeps that does not forget.
-/

namespace WbfMatrixClient
namespace EventHistory

open EventPointers Cache

/-- A later row of the same event. -/
structure Kept (a b : EventRow) : Prop where
  key : b.key = a.key
  raw : ∀ json, a.rawEvent = some json → b.rawEvent = some json
  content : a.eventClass ≠ .general → b.eventClass = a.eventClass ∧ b.contentJson = a.contentJson
  redacted : a.isRedacted = true → b.isRedacted = true

namespace Kept

variable {a b c : EventRow}

theorem refl (a : EventRow) : Kept a a := ⟨rfl, fun _ h => h, fun _ => ⟨rfl, rfl⟩, id⟩

theorem trans (h : Kept a b) (h' : Kept b c) : Kept a c := by
  refine ⟨h'.key.trans h.key, fun json hjson => h'.raw json (h.raw json hjson), ?_,
    h'.redacted ∘ h.redacted⟩
  intro hclass
  obtain ⟨hsame, hcontent⟩ := h.content hclass
  obtain ⟨hsame', hcontent'⟩ := h'.content (by rw [hsame]; exact hclass)
  exact ⟨hsame'.trans hsame, hcontent'.trans hcontent⟩

theorem of_frame (h : Frame a b) : Kept a b :=
  ⟨h.key, h.raw, fun _ => ⟨h.eventClass, by rw [h.rest]⟩, h.redacted⟩

end Kept

/-- Events that are stored stay, with what they keep for ever. -/
def EventsKept (events events' : List EventRow) : Prop :=
  ∀ room eventId row, findEvent events room eventId = some row →
    ∃ row', findEvent events' room eventId = some row' ∧ Kept row row'

/-- Hidden events stay hidden. -/
def HiddenKept (log log' : List SyncedRow) : Prop :=
  ∀ k row, Table.find SyncedRow.key log k = some row → row.hidden = true →
    ∃ row', Table.find SyncedRow.key log' k = some row' ∧ row'.hidden = true

/-- A cache that an earlier one has become. -/
structure Later (a b : Cache) : Prop where
  events : EventsKept a.events b.events
  hidden : HiddenKept a.syncedLog b.syncedLog

namespace EventsKept

variable {events events' events'' : List EventRow}

theorem refl (events : List EventRow) : EventsKept events events :=
  fun _ _ row h => ⟨row, h, Kept.refl row⟩

theorem trans (h : EventsKept events events') (h' : EventsKept events' events'') :
    EventsKept events events'' := by
  intro room eventId row hrow
  obtain ⟨row', hrow', hkept⟩ := h room eventId row hrow
  obtain ⟨row'', hrow'', hkept'⟩ := h' room eventId row' hrow'
  exact ⟨row'', hrow'', hkept.trans hkept'⟩

theorem of_map {g : EventRow → EventRow} (hg : ∀ row, Kept row (g row)) :
    EventsKept events (events.map g) := by
  intro room eventId row hrow
  refine ⟨g row, ?_, hg row⟩
  rw [findEvent, Table.find_map fun row => (hg row).key, ← findEvent, hrow]
  rfl

theorem of_reframed (h : Reframed events events') : EventsKept events events' := by
  obtain ⟨g, hg, rfl⟩ := h
  exact of_map fun row => Kept.of_frame (hg row)

/-- Changing one row that is there. -/
theorem of_update {room eventId : String} {stored : EventRow} {f : EventRow → EventRow}
    (hstored : findEvent events room eventId = some stored) (hkey : ∀ row, (f row).key = row.key)
    (hf : Kept stored (f stored)) : EventsKept events (updateEvent events room eventId f) := by
  intro otherRoom otherId row hrow
  by_cases hsame : (otherRoom, otherId) = (room, eventId)
  · obtain ⟨rfl, rfl⟩ := Prod.mk.inj hsame
    rw [hstored, Option.some.injEq] at hrow
    rw [← hrow]
    exact ⟨f stored, findEvent_updateEvent hkey hstored, hf⟩
  · refine ⟨row, ?_, Kept.refl row⟩
    rw [findEvent, updateEvent, Table.find_update_ne hkey hsame]
    exact hrow

end EventsKept

namespace Later

variable {a b c : Cache}

theorem refl (a : Cache) : Later a a :=
  ⟨EventsKept.refl a.events, fun _ row h hhidden => ⟨row, h, hhidden⟩⟩

theorem trans (h : Later a b) (h' : Later b c) : Later a c := by
  refine ⟨h.events.trans h'.events, fun k row hrow hhidden => ?_⟩
  obtain ⟨row', hrow', hhidden'⟩ := h.hidden k row hrow hhidden
  exact h'.hidden k row' hrow' hhidden'

/-- Nothing about events or accounts' logs is written. -/
theorem of_same (hevents : b.events = a.events) (hlog : b.syncedLog = a.syncedLog) : Later a b := by
  refine ⟨?_, fun k row h hhidden => ⟨row, by rw [hlog]; exact h, hhidden⟩⟩
  rw [hevents]
  exact EventsKept.refl a.events

/-- Events are written, and no log. -/
theorem of_events (hevents : EventsKept a.events b.events) (hlog : b.syncedLog = a.syncedLog) :
    Later a b := ⟨hevents, fun k row h hhidden => ⟨row, by rw [hlog]; exact h, hhidden⟩⟩

theorem foldl {ι : Type} {f : Cache → ι → Cache} (hf : ∀ cache i, Later cache (f cache i)) :
    ∀ (items : List ι) (cache : Cache), Later cache (items.foldl f cache) :=
  fun items cache =>
    List.foldlRecOn items f (refl cache) fun reached hreached i _ =>
      hreached.trans (hf reached i)

end Later

section Storing

variable (packages : ContentPackages)

variable {room : String} {cache : Cache}

theorem processEvent_later {eventId : String} {processed : Cache}
    (h : processEvent packages room eventId cache = some processed) :
    Later cache processed := by
  obtain ⟨_, rfl⟩ | ⟨row, _, hprocessed⟩ := processEvent_cases h
  · exact Later.refl processed
  · rw [hprocessed]
    exact Later.of_events (EventsKept.of_reframed (applyRelations_reframed room cache.events row))
      rfl

theorem fillRow_kept (incoming : IncomingEvent) (row : EventRow) :
    Kept row (fillRow incoming row) := by
  refine ⟨rfl, fun json hjson => ?_, fun _ => ⟨rfl, rfl⟩, fun hredacted => ?_⟩
  · rw [fillRow, hjson, Option.some_or]
  · rw [fillRow, hredacted, Bool.true_or]

variable {incoming : IncomingEvent}

theorem classifyRow_kept {row : EventRow} (hgeneral : row.eventClass = .general) :
    Kept row (classifyRow incoming row) :=
  ⟨rfl, fun _ h => h, fun hclass => absurd hgeneral hclass, id⟩

theorem storeEvent_later {eventId sender : String} {stored : Cache}
    (h : storeEvent packages room eventId sender incoming cache = some stored) :
    Later cache stored := by
  obtain ⟨_, _, hprocess⟩ | ⟨row, hfind, _, hstored⟩ := storeEvent_cases h
  · refine Later.trans ?_ (processEvent_later packages hprocess)
    refine Later.of_events ?_ rfl
    intro otherRoom otherId row hrow
    exact ⟨row, Table.find_append_of_some hrow _, Kept.refl row⟩
  · have hfill : EventsKept cache.events
        (updateEvent cache.events room eventId (fillRow incoming)) :=
      EventsKept.of_update hfind (fun _ => rfl) (fillRow_kept incoming row)
    obtain ⟨_, hgeneral, hprocess⟩ | ⟨_, rfl⟩ := hstored
    · have hfilled : findEvent (updateEvent cache.events room eventId (fillRow incoming))
          room eventId = some (fillRow incoming row) :=
        findEvent_updateEvent (fun _ => rfl) hfind
      refine Later.trans ?_ (processEvent_later packages hprocess)
      refine Later.of_events (hfill.trans ?_) rfl
      exact EventsKept.of_update hfilled (fun _ => rfl) (classifyRow_kept hgeneral)
    · exact Later.of_events hfill rfl

theorem logSynced_later (cache : Cache) (user room eventId : String) :
    Later cache (cache.logSynced user room eventId) := by
  rw [logSynced]
  split_ifs
  · exact Later.refl cache
  · exact ⟨EventsKept.refl cache.events, fun k row h hhidden =>
      ⟨row, Table.find_append_of_some h _, hhidden⟩⟩

theorem userRowId_later (cache : Cache) (mxid : String) : Later cache (cache.userRowId mxid) := by
  rw [userRowId]
  split_ifs <;> exact Later.of_same rfl rfl

theorem roomRowId_later (cache : Cache) (roomId : String) :
    Later cache (cache.roomRowId roomId) := by
  rw [roomRowId]
  split_ifs <;> exact Later.of_same rfl rfl

theorem markEncrypted_later (cache : Cache) (room : String) (incoming : IncomingEvent) :
    Later cache (cache.markEncrypted room incoming) := by
  rw [markEncrypted]
  split_ifs <;> exact Later.of_same rfl rfl

theorem upsertEvent_later {user : String} {result : Cache × Bool}
    (h : upsertEvent packages user room cache incoming = some result) :
    Later cache result.1 := by
  obtain ⟨_, rfl⟩ | ⟨eventId, sender, stored, _, hstored, rfl⟩ := upsertEvent_cases h
  · exact Later.refl cache
  · exact (userRowId_later cache sender).trans ((storeEvent_later packages hstored).trans
      ((markEncrypted_later stored room incoming).trans
        (logSynced_later _ user room eventId)))

theorem upsertAll_later {user : String} (events : List IncomingEvent) {result : Cache × Nat × Nat}
    (h : upsertAll packages user room events cache = some result) :
    Later cache result.1 :=
  upsertAll_induction
    (fun _ _ _ _ hone hreached => hreached.trans (upsertEvent_later packages hone)) h
    (Later.refl cache)

theorem upsertEvents_later (user room : String) (cache : Cache) (events : List IncomingEvent) :
    Later cache (upsertEvents packages user room cache events) :=
  upsertEvents_induction
    (fun _ _ _ _ hone hreached => hreached.trans (upsertEvent_later packages hone))
    ((userRowId_later cache user).trans (roomRowId_later _ room)) (Later.refl cache)

end Storing

theorem hideMessage_later (cache : Cache) (user room eventId : String) :
    Later cache (cache.hideMessage user room eventId) := by
  refine ⟨EventsKept.refl cache.events, fun k row h hhidden => ?_⟩
  rw [hideMessage, Table.find_map (fun row => by split_ifs <;> rfl), h]
  refine ⟨_, rfl, ?_⟩
  simp only
  split_ifs
  · rfl
  · exact hhidden

theorem upsertConversation_later (user : String) (cache : Cache) (conversation : Conversation) :
    Later cache (upsertConversation user cache conversation) :=
  (roomRowId_later cache conversation.id).trans (Later.of_same rfl rfl)

theorem recordJoinedRoom_later (user : String) (cache : Cache) (roomId : String) :
    Later cache (recordJoinedRoom user cache roomId) :=
  (roomRowId_later cache roomId).trans (Later.of_same rfl rfl)

theorem writeInvite_later (user : String) (cache : Cache) (invite : InviteItem) :
    Later cache (writeInvite user cache invite) :=
  (userRowId_later cache user).trans
    ((roomRowId_later _ invite.roomId).trans (Later.of_same rfl rfl))

theorem recordMembership_later (cache : Cache) (user roomId : String) (membership : Membership)
    (onlyIfNow : Option Membership) :
    Later cache (cache.recordMembership user roomId membership onlyIfNow).1 := by
  refine (userRowId_later cache user).trans ((roomRowId_later _ roomId).trans ?_)
  cases onlyIfNow <;> exact Later.of_same rfl rfl

theorem recordWrittenState_later (packages : NumberPackages) (cache : Cache) (user roomId : String)
    (written : Json) : Later cache (cache.recordWrittenState packages user roomId written).1 := by
  refine (userRowId_later cache user).trans ((roomRowId_later _ roomId).trans ?_)
  rw [recordWrittenState]
  split <;> split_ifs <;> exact Later.of_same rfl rfl

theorem applyInviteRound_later (cache : Cache) (user : String) (round : List (Nat × InviteItem))
    (touched : List (String × Nat)) (departed : List (String × Membership)) :
    Later cache (cache.applyInviteRound user round touched departed) := by
  refine (userRowId_later cache user).trans (Later.trans (Later.foldl ?_ round _)
    (Later.of_same rfl rfl))
  rintro cache ⟨count, invite⟩
  simp only
  split_ifs
  · exact Later.refl cache
  · exact writeInvite_later user cache invite

/-- Every operation that does not forget leaves a later cache. -/
theorem step_later (packages : CachePackages) (cache : Cache) {operation : Operation}
    (h : operation.forgets = false) : Later cache (cache.step packages operation) := by
  have hmedia (h : operation.onMedia = true) : Later cache (cache.step packages operation) :=
    have htables := step_onMedia packages cache h
    Later.of_same (congrArg events htables :) (congrArg syncedLog htables :)
  cases operation with
  | upsertEvents user room events => exact upsertEvents_later packages.content user room cache events
  | hideMessage user room eventId => exact hideMessage_later cache user room eventId
  | mediaBegin mxc description | mediaRememberSource manifest sourceUri => exact hmedia rfl
  | mediaProgress mxc segmentsWritten chunkSize => exact hmedia rfl
  | mediaFinish mxc poolFile segmentsWritten fileSize bytesOnDisk verified => exact hmedia rfl
  | mediaReset mxc | mediaLinkEvent user room eventId | mediaDelete mxc => exact hmedia rfl
  | upsertConversations user conversations =>
    exact (userRowId_later cache user).trans
      (Later.foldl (upsertConversation_later user) conversations _)
  | recordJoinedRooms user roomIds =>
    exact (userRowId_later cache user).trans (Later.trans
      (Later.foldl (recordJoinedRoom_later user) roomIds _) (Later.of_same rfl rfl))
  | recordRoomEncryption roomId encrypted =>
    exact (roomRowId_later cache roomId).trans (Later.of_same rfl rfl)
  | recordMembership user roomId membership onlyIfNow =>
    exact recordMembership_later cache user roomId membership onlyIfNow
  | recordInvite user invite => exact writeInvite_later user cache invite
  | applyInviteRound user round touched departed =>
    exact applyInviteRound_later cache user round touched departed
  | recordWrittenState user roomId written =>
    exact recordWrittenState_later packages.number cache user roomId written
  | forgetAccount user | forgetRoom user room => cases h

/-- Between any two moments of a run that forgets nothing, the original form of an
event changes from nothing only, the content of an event that could be read not at
all, a redaction is not taken back, and what was hidden is hidden. -/
theorem events_writeOnce (packages : CachePackages) (before after : List Operation)
    (hkeeps : ∀ operation ∈ after, operation.forgets = false) :
    let earlier := Runs.run (Cache.step packages) Cache.empty before
    let later := Runs.run (Cache.step packages) earlier after
    (∀ room eventId row, findEvent earlier.events room eventId = some row →
      ∃ row', findEvent later.events room eventId = some row' ∧
        (row'.rawEvent = row.rawEvent ∨ row.rawEvent = none) ∧
        (row.eventClass ≠ .general → row'.contentJson = row.contentJson) ∧
        (row.isRedacted = true → row'.isRedacted = true)) ∧
      ∀ room eventId user log,
        Table.find SyncedRow.key earlier.syncedLog (room, eventId, user) = some log →
        log.hidden = true →
        ∃ log', Table.find SyncedRow.key later.syncedLog (room, eventId, user) = some log' ∧
          log'.hidden = true := by
  intro earlier later
  have hlater : Later earlier later := by
    refine Runs.run_invariant_of_guard (fun operation => operation.forgets = false)
      (Later earlier) ?_ after earlier hkeeps (Later.refl earlier)
    intro cache operation hkeep hcache
    exact hcache.trans (step_later packages cache hkeep)
  constructor
  · intro room eventId row hrow
    obtain ⟨row', hrow', hkept⟩ := hlater.events room eventId row hrow
    refine ⟨row', hrow', ?_, fun hclass => (hkept.content hclass).2, hkept.redacted⟩
    cases hraw : row.rawEvent with
    | none => exact .inr rfl
    | some json => exact .inl (hkept.raw json hraw)
  · intro room eventId user log hlog hhidden
    exact hlater.hidden _ log hlog hhidden

/-- An event that is opened, hidden and delivered again. -/
theorem events_writeOnce_opened_again :
    let packages : CachePackages :=
      { content := { blockFromJson := fun _ => .error "", quoted := id }
        number := { parseU64 := fun _ => none, parseI64 := fun _ => none } }
    let ciphertext : Json := .object [("event_id", .string "$m"), ("sender", .string "@a")]
    let cleartext : Json := .object [("type", .string "m.room.message")]
    let before : List Operation :=
      [.upsertEvents "@a" "!r" [.undecrypted ciphertext "no key"], .hideMessage "@a" "!r" "$m"]
    let after : List Operation :=
      [.upsertEvents "@a" "!r" [.decrypted (some ciphertext) cleartext]]
    let earlier := Runs.run (Cache.step packages) Cache.empty before
    let later := Runs.run (Cache.step packages) earlier after
    ∃ log, Table.find SyncedRow.key later.syncedLog ("!r", "$m", "@a") = some log ∧
      log.hidden = true := by
  intro packages ciphertext cleartext before after earlier later
  have hkept := (events_writeOnce packages before after (by
    intro operation hoperation
    rw [List.mem_singleton.mp hoperation]
    rfl)).2
  exact hkept "!r" "$m" "@a" ⟨"!r", "$m", "@a", true⟩ (by decide +kernel) rfl

end EventHistory
end WbfMatrixClient
