import WbfMatrixClient.EventCache

/-!
# What storing an event does

The functions that store a batch, taken apart: for each of them what it wrote,
and what it left to the next one. A property of caches that the storing of each
event of a batch keeps is kept by the batch.
-/

namespace WbfMatrixClient

theorem findEvent_updateEvent {events : List EventRow} {room eventId : String} {row : EventRow}
    {f : EventRow → EventRow} (hkey : ∀ row, (f row).key = row.key)
    (hfind : findEvent events room eventId = some row) :
    findEvent (updateEvent events room eventId f) room eventId = some (f row) := by
  rw [findEvent, updateEvent, Table.find_update_self hkey, ← findEvent, hfind]
  rfl

namespace Cache

section Storing

variable {packages : ContentPackages} {user room eventId sender : String}
variable {incoming : IncomingEvent} {cache : Cache}

/-- Only media are written. -/
theorem linkMediaOf_tables {linked : Cache} {row : EventRow}
    (h : linkMediaOf packages cache row = some linked) :
    linked = { cache with media := linked.media, eventMedia := linked.eventMedia } := by
  rw [linkMediaOf] at h
  cases hmedia : mediaOf packages row.eventType row.contentJson with
  | none =>
    rw [hmedia] at h
    cases h
    rfl
  | some found =>
    obtain ⟨mxc, description⟩ := found
    simp only [hmedia] at h
    cases hrow : mediaRowId cache.media mxc description with
    | none =>
      rw [hrow] at h
      cases h
    | some media =>
      rw [hrow] at h
      cases h
      rfl

theorem processEvent_cases {processed : Cache}
    (h : processEvent packages room eventId cache = some processed) :
    (findEvent cache.events room eventId = none ∧ processed = cache) ∨
      ∃ row, findEvent cache.events room eventId = some row ∧
        processed = { cache with
          events := applyRelations room cache.events row
          media := processed.media
          eventMedia := processed.eventMedia } := by
  rw [processEvent] at h
  cases hfind : findEvent cache.events room eventId with
  | none =>
    rw [hfind] at h
    cases h
    exact .inl ⟨rfl, rfl⟩
  | some row =>
    simp only [hfind, Option.map_eq_some_iff] at h
    obtain ⟨linked, hlinked, rfl⟩ := h
    refine .inr ⟨row, rfl, ?_⟩
    have htables : linked = { cache with
        media := linked.media, eventMedia := linked.eventMedia } := by
      split_ifs at hlinked
      · exact linkMediaOf_tables hlinked
      · cases hlinked
        rfl
    rw [htables]

theorem storeEvent_cases {stored : Cache}
    (h : storeEvent packages room eventId sender incoming cache = some stored) :
    (findEvent cache.events room eventId = none ∧
        seqTaken cache.events room eventId incoming.seqs.1 = false ∧
        processEvent packages room eventId
          { cache with events := cache.events ++ [newRow room eventId sender incoming] } =
            some stored) ∨
      ∃ row, findEvent cache.events room eventId = some row ∧
        (row.rSeq = none → seqTaken cache.events room eventId incoming.seqs.1 = false) ∧
        (((classify incoming).eventClass ≠ .general ∧ row.eventClass = .general ∧
            processEvent packages room eventId
              { cache with
                events :=
                  updateEvent (updateEvent cache.events room eventId (fillRow incoming)) room
                    eventId (classifyRow incoming) } = some stored) ∨
          (((classify incoming).eventClass ≠ .general → row.eventClass ≠ .general) ∧
            stored = { cache with
              events := updateEvent cache.events room eventId (fillRow incoming) })) := by
  rw [storeEvent] at h
  cases hfind : findEvent cache.events room eventId with
  | none =>
    simp only [hfind] at h
    split_ifs at h with htaken
    exact .inl ⟨rfl, Bool.eq_false_of_not_eq_true htaken, h⟩
  | some row =>
    simp only [hfind] at h
    split_ifs at h with htaken hopens
    · exact .inr ⟨row, rfl, fun hnone => Bool.eq_false_of_not_eq_true fun htrue =>
        htaken ⟨hnone, htrue⟩, .inl ⟨hopens.1, hopens.2, h⟩⟩
    · cases h
      exact .inr ⟨row, rfl, fun hnone => Bool.eq_false_of_not_eq_true fun htrue =>
        htaken ⟨hnone, htrue⟩, .inr ⟨fun hclass hgeneral => hopens ⟨hclass, hgeneral⟩, rfl⟩⟩

/-- Only rows about events and media are written. -/
theorem storeEvent_tables {stored : Cache}
    (h : storeEvent packages room eventId sender incoming cache = some stored) :
    stored = { cache with
      events := stored.events, media := stored.media, eventMedia := stored.eventMedia } := by
  obtain ⟨_, _, hprocess⟩ | ⟨row, _, _, ⟨_, _, hprocess⟩ | ⟨_, rfl⟩⟩ := storeEvent_cases h
  · obtain ⟨_, rfl⟩ | ⟨_, _, hprocessed⟩ := processEvent_cases hprocess
    · rfl
    · rw [hprocessed]
  · obtain ⟨_, rfl⟩ | ⟨_, _, hprocessed⟩ := processEvent_cases hprocess
    · rfl
    · rw [hprocessed]
  · rfl

@[simp]
theorem userRowId_events (cache : Cache) (mxid : String) :
    (cache.userRowId mxid).events = cache.events := by
  rw [userRowId]
  split_ifs <;> rfl

@[simp]
theorem roomRowId_events (cache : Cache) (roomId : String) :
    (cache.roomRowId roomId).events = cache.events := by
  rw [roomRowId]
  split_ifs <;> rfl

@[simp]
theorem markEncrypted_events (cache : Cache) (room : String) (incoming : IncomingEvent) :
    (cache.markEncrypted room incoming).events = cache.events := by
  rw [markEncrypted]
  split_ifs <;> rfl

@[simp]
theorem logSynced_events (cache : Cache) (user room eventId : String) :
    (cache.logSynced user room eventId).events = cache.events := by
  rw [logSynced]
  split_ifs <;> rfl

@[simp]
theorem userRowId_syncedLog (cache : Cache) (mxid : String) :
    (cache.userRowId mxid).syncedLog = cache.syncedLog := by
  rw [userRowId]
  split_ifs <;> rfl

@[simp]
theorem roomRowId_syncedLog (cache : Cache) (roomId : String) :
    (cache.roomRowId roomId).syncedLog = cache.syncedLog := by
  rw [roomRowId]
  split_ifs <;> rfl

@[simp]
theorem markEncrypted_syncedLog (cache : Cache) (room : String) (incoming : IncomingEvent) :
    (cache.markEncrypted room incoming).syncedLog = cache.syncedLog := by
  rw [markEncrypted]
  split_ifs <;> rfl

theorem upsertEvent_cases {result : Cache × Bool}
    (h : upsertEvent packages user room cache incoming = some result) :
    (storable room incoming = none ∧ result = (cache, false)) ∨
      ∃ eventId sender stored, storable room incoming = some (eventId, sender) ∧
        storeEvent packages room eventId sender incoming (cache.userRowId sender) = some stored ∧
        result = ((stored.markEncrypted room incoming).logSynced user room eventId, true) := by
  rw [upsertEvent] at h
  cases hstorable : storable room incoming with
  | none =>
    rw [hstorable] at h
    cases h
    exact .inl ⟨rfl, rfl⟩
  | some identity =>
    obtain ⟨eventId, sender⟩ := identity
    simp only [hstorable, Option.map_eq_some_iff] at h
    obtain ⟨stored, hstored, rfl⟩ := h
    exact .inr ⟨eventId, sender, stored, rfl, hstored, rfl⟩

variable {events : List IncomingEvent}

theorem upsertAll_cons {result : Cache × Nat × Nat}
    (h : upsertAll packages user room (incoming :: events) cache = some result) :
    ∃ first rest, upsertEvent packages user room cache incoming = some first ∧
      upsertAll packages user room events first.1 = some rest ∧ result.1 = rest.1 ∧
      result.2.2 = if first.2 then rest.2.2 else rest.2.2 + 1 := by
  rw [upsertAll] at h
  cases hone : upsertEvent packages user room cache incoming with
  | none =>
    rw [hone] at h
    cases h
  | some first =>
    simp only [hone, Option.map_eq_some_iff] at h
    obtain ⟨rest, hrest, rfl⟩ := h
    refine ⟨first, rest, rfl, hrest, ?_, ?_⟩ <;> split_ifs <;> rfl

/-- What storing each event of the batch keeps, the batch keeps. -/
theorem upsertAll_induction {motive : Cache → Prop} {result : Cache × Nat × Nat}
    (hone : ∀ incoming ∈ events, ∀ cache first, upsertEvent packages user room cache incoming = some
      first → motive cache → motive first.1)
    (h : upsertAll packages user room events cache = some result) (hcache : motive cache) :
    motive result.1 := by
  induction events generalizing cache result with
  | nil =>
    cases h
    exact hcache
  | cons incoming events ih =>
    obtain ⟨first, rest, hfirst, hrest, hresult, _⟩ := upsertAll_cons h
    rw [hresult]
    exact ih (fun other hother => hone other (List.mem_cons_of_mem _ hother)) hrest
      (hone incoming List.mem_cons_self cache first hfirst hcache)

theorem upsertEvents_induction {motive : Cache → Prop}
    (hone : ∀ incoming ∈ events, ∀ cache first, upsertEvent packages user room cache incoming = some
      first → motive cache → motive first.1)
    (hrows : motive ((cache.userRowId user).roomRowId room)) (hcache : motive cache) :
    motive (cache.upsertEvents packages user room events) := by
  rw [upsertEvents]
  cases hall : cache.upsertEventsCounted packages user room events with
  | none => exact hcache
  | some result => exact upsertAll_induction hone hall hrows

end Storing

end Cache
end WbfMatrixClient
