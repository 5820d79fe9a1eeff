import WbfMatrixClient.EventArrivals
import WbfMatrixClient.EventHistory

/-!
# The order of deliveries does not matter

The events of a room come in batches, in any order, any number of times, and those that
are encrypted may come before their keys. Once all of them have come, the table says the
same of every event, whatever the order was.
-/

namespace WbfMatrixClient
namespace EventConvergence

open EventPointers Cache

/-- An event as the server has it, and what is in its ciphertext if a key for it is ever
there. -/
inductive RoomEvent where
  | plain (event : Json)
  | encrypted (ciphertext : Json) (cleartext : Option Json)

namespace RoomEvent

def json : RoomEvent → Json
  | plain event => event
  | encrypted ciphertext _ => ciphertext

/-- The forms in which the event comes in. -/
inductive Delivers : RoomEvent → IncomingEvent → Prop where
  | plain (event : Json) : Delivers (plain event) (.plain event)
  | undecrypted (ciphertext : Json) (cleartext : Option Json) (reason : String) :
      Delivers (encrypted ciphertext cleartext) (.undecrypted ciphertext reason)
  | decrypted (ciphertext cleartext : Json) :
      Delivers (encrypted ciphertext (some cleartext)) (.decrypted (some ciphertext) cleartext)

def cleartext : RoomEvent → Option Json
  | plain event => some event
  | encrypted _ cleartext => cleartext

/-- The event comes in a form that says all there is. -/
def Tells (e : RoomEvent) (incoming : IncomingEvent) : Prop :=
  e.Delivers incoming ∧ incoming.cleartext = e.cleartext

end RoomEvent

section Forms

variable {e : RoomEvent} {incoming incoming' : IncomingEvent}

theorem envelope_eq (h : e.Delivers incoming) : incoming.envelope = e.json := by cases h <;> rfl

theorem rawEvent_eq (h : e.Delivers incoming) : incoming.rawEvent = some e.json := by
  cases h <;> rfl

/-- A form that can be read says all there is. -/
theorem tells_of_cleartext (h : e.Delivers incoming)
    (hcleartext : incoming.cleartext.isSome = true) : e.Tells incoming := by
  refine ⟨h, ?_⟩
  cases h with
  | plain event | decrypted ciphertext cleartext => rfl
  | undecrypted ciphertext cleartext reason => cases hcleartext

theorem storable_eq (room : String) (h : e.Delivers incoming) (h' : e.Delivers incoming') :
    storable room incoming = storable room incoming' := by
  rw [storable, storable, IncomingEvent.storableIdentity,
    IncomingEvent.storableIdentity, IncomingEvent.findEventId, IncomingEvent.findEventId,
    envelope_eq h, envelope_eq h']

theorem originServerTs_eq (h : e.Delivers incoming) (h' : e.Delivers incoming') :
    incoming.originServerTs = incoming'.originServerTs := by
  rw [IncomingEvent.originServerTs, IncomingEvent.originServerTs, envelope_eq h, envelope_eq h']

/-- Two forms that can both be read, or both not, make the same row. -/
theorem newRow_eq (h : e.Delivers incoming) (h' : e.Delivers incoming')
    (hsame : incoming.cleartext = incoming'.cleartext) (room eventId sender : String) :
    newRow room eventId sender incoming = newRow room eventId sender incoming' := by
  cases h with
  | plain event =>
    cases h'
    rfl
  | undecrypted ciphertext cleartext reason =>
    cases h' with
    | undecrypted _ _ reason' => rfl
    | decrypted _ cleartext => cases hsame
  | decrypted ciphertext cleartext =>
    cases h' with
    | undecrypted _ _ reason => cases hsame
    | decrypted _ _ => rfl

end Forms

/-- The events of a room: no two have one id, the server has redacted none of them itself,
and none is from before the beginning of time. -/
structure RoomEvents (events : List RoomEvent) : Prop where
  unique : ∀ a ∈ events, ∀ b ∈ events, ∀ id, a.json.text "event_id" = some id →
    b.json.text "event_id" = some id → a = b
  live : ∀ e ∈ events, ∀ incoming, e.Delivers incoming → incoming.isRedactedByServer = false
  time : ∀ e ∈ events, ∀ incoming, e.Delivers incoming → 0 ≤ incoming.originServerTs

/-- As before, but at any times. -/
structure TimedEvents (events : List RoomEvent) : Prop where
  unique : ∀ a ∈ events, ∀ b ∈ events, ∀ id, a.json.text "event_id" = some id →
    b.json.text "event_id" = some id → a = b
  live : ∀ e ∈ events, ∀ incoming, e.Delivers incoming → incoming.isRedactedByServer = false

theorem RoomEvents.timed {events : List RoomEvent} (h : RoomEvents events) :
    TimedEvents events := ⟨h.unique, h.live⟩

/-- The row is what a delivery of the event has made, with the marks it has got since. -/
def RowOf (room : String) (e : RoomEvent) (incoming : IncomingEvent) (row : EventRow) : Prop :=
  e.Delivers incoming ∧ storable room incoming = some (row.eventId, row.sender) ∧
    Frame (newRow room row.eventId row.sender incoming) row

/-- What the table holds after these deliveries. -/
structure Told (all : List RoomEvent) (room : String) (events : List EventRow)
    (delivered : List IncomingEvent) : Prop where
  settled : Settled events
  sound : Sound Set.univ ∅ events
  rows : ∀ row ∈ events, ∃ e ∈ all, ∃ incoming, RowOf room e incoming row
  heard : ∀ incoming ∈ delivered, ∀ eventId sender,
    storable room incoming = some (eventId, sender) →
      ∃ row ∈ events, row.eventId = eventId ∧
        (incoming.cleartext.isSome = true → row.eventClass ≠ .general)

section Storing

variable {all : List RoomEvent} {room : String} {events : List EventRow}
  {delivered : List IncomingEvent}

variable {e : RoomEvent} {incoming : IncomingEvent} {row : EventRow}

theorem RowOf.room_eq (h : RowOf room e incoming row) :
    row.room = room := h.2.2.room

theorem RowOf.frame {row' : EventRow} (h : RowOf room e incoming row) (hframe : Frame row row') :
    RowOf room e incoming row' := by
  obtain ⟨hdelivers, hstorable, hrow⟩ := h
  have hsender : row'.sender = row.sender := by rw [hframe.rest]
  refine ⟨hdelivers, ?_, ?_⟩
  · rw [hframe.eventId, hsender]
    exact hstorable
  · rw [hframe.eventId, hsender]
    exact hrow.trans hframe

variable {eventId sender : String}

/-- The id that an event is stored under is its own. -/
theorem eventId_of_storable (hdelivers : e.Delivers incoming)
    (h : storable room incoming = some (eventId, sender)) :
    e.json.text "event_id" = some eventId := by
  rw [storable, IncomingEvent.storableIdentity, IncomingEvent.findEventId,
    envelope_eq hdelivers] at h
  cases hsender : e.json.text "sender" with
  | none =>
    rw [hsender] at h
    cases h
  | some found =>
    cases hid : e.json.text "event_id" with
    | none =>
      rw [hsender, hid] at h
      cases h
    | some id =>
      rw [hsender, hid] at h
      dsimp only at h
      split_ifs at h
      cases h
      rfl

/-- A stored row with the id of an event is the row of this event. -/
theorem TimedEvents.rowOf (hall : TimedEvents all)
    (hrows : ∀ row ∈ events, ∃ e ∈ all, ∃ incoming, RowOf room e incoming row) (he : e ∈ all)
    (hdelivers : e.Delivers incoming) (hrow : row ∈ events)
    (hstorable : storable room incoming = some (row.eventId, sender)) :
    sender = row.sender ∧ ∃ incoming', RowOf room e incoming' row := by
  obtain ⟨e', he', incoming', hrowOf⟩ := hrows row hrow
  have hsame := hall.unique e' he' e he row.eventId
    (eventId_of_storable hrowOf.1 hrowOf.2.1) (eventId_of_storable hdelivers hstorable)
  subst hsame
  have hidentity := storable_eq room hdelivers hrowOf.1
  rw [hstorable, hrowOf.2.1] at hidentity
  exact ⟨congrArg Prod.snd (Option.some.inj hidentity), incoming', hrowOf⟩

variable {packages : ContentPackages} {cache : Cache}

theorem processEvent_events {processed : Cache}
    (h : processEvent packages room eventId cache = some processed)
    (hfind : findEvent cache.events room eventId = some row) :
    processed.events = applyRelations room cache.events row := by
  obtain ⟨hnone, _⟩ | ⟨row', hrow', hprocessed⟩ := processEvent_cases h
  · rw [hfind] at hnone
    cases hnone
  · cases hfind.symm.trans hrow'
    rw [hprocessed]

/-- More of an event whose original form is known is nothing but numbers. -/
def fillSeqs (room eventId : String) (incoming : IncomingEvent) (row : EventRow) : EventRow :=
  if row.key = (room, eventId) then
    { row with rSeq := row.rSeq.or incoming.seqs.1, gSeq := row.gSeq.or incoming.seqs.2 }
  else
    row

theorem fillSeqs_unmarked (room eventId : String) (incoming : IncomingEvent) :
    Unmarked (fillSeqs room eventId incoming) := by
  refine ⟨fun row => ?_, fun row => ?_, fun row => ?_, fun row => ?_, fun row => ?_⟩ <;>
    rw [fillSeqs] <;> split_ifs
  · exact ⟨rfl, rfl, id, id, fun _ => rfl, fun _ _ => rfl, fun _ h => h⟩
  · exact .refl row
  all_goals rfl

/-- An edit or a redaction is not processed when its class is learned. -/
theorem classify_unprocessed (incoming : IncomingEvent)
    (hclass : (classify incoming).eventClass = .edit ∨ (classify incoming).eventClass = .redact) :
    decide ((classify incoming).eventClass = .msg ∨ (classify incoming).eventClass = .reaction) =
      false := by
  refine decide_eq_false ?_
  rintro (hmsg | hreaction)
  · rcases hclass with hedit | hredact
    · exact absurd (hmsg.symm.trans hedit) (by decide)
    · exact absurd (hmsg.symm.trans hredact) (by decide)
  · rcases hclass with hedit | hredact
    · exact absurd (hreaction.symm.trans hedit) (by decide)
    · exact absurd (hreaction.symm.trans hredact) (by decide)

/-- A row as it is stored for the first time. -/
theorem comes_new (hkeyed : Table.Keyed EventRow.key events)
    (hfind : findEvent events room eventId = none) :
    Comes events (events ++ [newRow room eventId sender incoming])
      (newRow room eventId sender incoming) := by
  have hnone : ∀ other ∈ events,
      other.key ≠ (newRow room eventId sender incoming).key :=
    Table.find_eq_none_iff.mp hfind
  refine ⟨hkeyed.append hfind, List.mem_append_right _ List.mem_cons_self, ?_, ?_, ?_, ?_, ?_⟩
  · intro other hne
    rw [List.mem_append, List.mem_singleton]
    constructor
    · rintro (hother | heq)
      · exact ⟨hother, hnone other hother⟩
      · exact absurd heq hne
    · exact fun hother => .inl hother.1
  · exact fun old hold hkey => absurd hkey (hnone old hold)
  · exact fun _ => rfl
  · exact classify_unprocessed incoming
  · exact (classify_target incoming).2.2

theorem enters_new (hkeyed : Table.Keyed EventRow.key events)
    (hlive : incoming.isRedactedByServer = false) (hfind : findEvent events room eventId = none) :
    Enters events (events ++ [newRow room eventId sender incoming])
      (newRow room eventId sender incoming) := by
  have h : Comes events (events ++ [newRow room eventId sender incoming])
      (newRow room eventId sender incoming) := comes_new hkeyed hfind
  exact ⟨h.keyed, h.mem, h.others, h.old, fun hnone => ⟨hlive, h.fresh hnone⟩, h.unprocessed,
    h.named⟩

/-- A row that can be read at last. -/
theorem enters_classified (incoming : IncomingEvent) (hkeyed : Table.Keyed EventRow.key events)
    {stored : EventRow} (hfind : findEvent events room eventId = some stored)
    (hgeneral : stored.eventClass = .general) :
    Enters events (updateEvent events room eventId (classifyRow incoming))
      (classifyRow incoming stored) := by
  obtain ⟨hmem, hroom, hid⟩ := mem_of_findEvent hfind
  have hkey : stored.key = (room, eventId) := by rw [EventRow.key, hroom, hid]
  have hsame : ∀ row, (classifyRow incoming row).key = row.key := fun _ => rfl
  have honly : ∀ other ∈ events, other.key = (room, eventId) → other = stored :=
    fun other hother hotherKey => hkeyed.eq_of_key hother hmem (hotherKey.trans hkey.symm)
  refine ⟨hkeyed.update hsame, ?_, ?_, ?_, ?_, ?_, ?_⟩
  · exact Table.mem_update.mpr (.inr ⟨stored, hmem, hkey, rfl⟩)
  · intro other hne
    rw [updateEvent, Table.mem_update, hsame, hkey]
    constructor
    · rintro (hother | ⟨old, hold, holdKey, rfl⟩)
      · exact hother
      · rw [honly old hold holdKey] at hne
        exact absurd rfl hne
    · exact .inl
  · intro old hold holdKey
    rw [hsame, hkey] at holdKey
    rw [honly old hold holdKey]
    exact ⟨hgeneral, rfl, rfl⟩
  · exact fun hnone => absurd (hsame stored).symm (hnone stored hmem)
  · exact classify_unprocessed incoming
  · exact (classify_target incoming).2.2

theorem RowOf.named (h : RowOf room e incoming row) (hclass : row.eventClass = .redact) :
    row.refEventId.isSome = true := by
  have hincoming : (classify incoming).eventClass = .redact :=
    h.2.2.eventClass.symm.trans hclass
  have href : row.refEventId = (classify incoming).refEventId :=
    h.2.2.ref fun hmsg => absurd (hincoming.symm.trans hmsg) (by decide)
  rw [href]
  exact (classify_target incoming).2.1 hincoming

/-- An event has come that was not there, or could not be read. -/
theorem Told.arrives (h : Told all room events delivered) {events' : List EventRow} {row : EventRow}
    (henters : Enters events events' row) {e : RoomEvent} (he : e ∈ all) {incoming : IncomingEvent}
    (hrow : RowOf room e incoming row) :
    Told all room (applyRelations room events' row) (delivered ++ [incoming]) := by
  have hroom := hrow.room_eq
  have hsettled := h.settled.arrives henters hrow.named
  have hsound := h.sound.arrives h.settled.placed henters.comes (fun _ => Set.mem_univ _)
    (fun _ _ _ _ _ _ _ _ _ => Set.mem_univ _)
  rw [hroom] at hsettled hsound
  have hrows : ∀ other ∈ events', ∃ e ∈ all, ∃ incoming, RowOf room e incoming other := by
    intro other hother
    rcases henters.comes.cases hother with rfl | ⟨hold, _⟩
    · exact ⟨e, he, incoming, hrow⟩
    · exact h.rows other hold
  obtain ⟨g, hg, heq⟩ := applyRelations_reframed room events' row
  refine ⟨hsettled, hsound, ?_, ?_⟩
  · rw [heq]
    intro other' hother'
    obtain ⟨other, hother, rfl⟩ := List.mem_map.mp hother'
    obtain ⟨e', he', incoming', hrowOf⟩ := hrows other hother
    exact ⟨e', he', incoming', hrowOf.frame (hg other)⟩
  · rw [heq]
    intro other hother eventId sender hstorable
    suffices hfound : ∃ found ∈ events', found.eventId = eventId ∧
        (other.cleartext.isSome = true → found.eventClass ≠ .general) by
      obtain ⟨found, hmem, hid, hclass⟩ := hfound
      refine ⟨g found, List.mem_map_of_mem hmem, (hg found).eventId.trans hid, fun hopened => ?_⟩
      rw [(hg found).eventClass]
      exact hclass hopened
    rcases List.mem_append.mp hother with hbefore | hnow
    · obtain ⟨old, hold, hid, hclass⟩ := h.heard other hbefore eventId sender hstorable
      by_cases hkey : old.key = row.key
      · -- The row that was there could not be read.
        refine ⟨row, henters.mem, ((key_eq_iff.mp hkey).2).symm.trans hid, fun hopened => ?_⟩
        exact absurd (henters.old old hold hkey).1 (hclass hopened)
      · exact ⟨old, henters.comes.mem_of_ne hold hkey, hid, hclass⟩
    · rw [List.mem_singleton.mp hnow] at hstorable ⊢
      rw [hrow.2.1] at hstorable
      cases hstorable
      refine ⟨row, henters.mem, rfl, fun hopened hgeneral => ?_⟩
      have hclass : (classify incoming).eventClass = .general :=
        hrow.2.2.eventClass.symm.trans hgeneral
      rw [classify_eq_general_iff.mp hclass] at hopened
      cases hopened

/-- More has come of an event that is there. -/
theorem Told.fills (h : Told all room events delivered) {g : EventRow → EventRow}
    (hg : Unmarked g) : Told all room (events.map g) delivered := by
  refine ⟨h.settled.unmarked hg, h.sound.unmarked hg, ?_, ?_⟩
  · intro row' hrow'
    obtain ⟨row, hrow, rfl⟩ := List.mem_map.mp hrow'
    obtain ⟨e, he, incoming, hrowOf⟩ := h.rows row hrow
    exact ⟨e, he, incoming, hrowOf.frame (hg.frame row)⟩
  · intro incoming hincoming eventId sender hstorable
    obtain ⟨row, hrow, hid, hclass⟩ := h.heard incoming hincoming eventId sender hstorable
    refine ⟨g row, List.mem_map_of_mem hrow, (hg.frame row).eventId.trans hid, fun hopened => ?_⟩
    rw [(hg.frame row).eventClass]
    exact hclass hopened

/-- Another delivery of an event that is there already. -/
theorem Told.again (h : Told all room events delivered) (incoming : IncomingEvent)
    (hincoming : ∀ eventId sender, storable room incoming = some (eventId, sender) → ∃ row ∈
      events, row.eventId = eventId ∧ (incoming.cleartext.isSome = true → row.eventClass ≠
      .general)) : Told all room events (delivered ++ [incoming]) := by
  refine ⟨h.settled, h.sound, h.rows, ?_⟩
  intro other hother
  rcases List.mem_append.mp hother with hbefore | hnow
  · exact h.heard other hbefore
  · rw [List.mem_singleton.mp hnow]
    exact hincoming

/-- The row of an event has its original form, so that a delivery adds only numbers. -/
theorem updateEvent_fillRow (hall : TimedEvents all) (h : Told all room events delivered)
    (he : e ∈ all) (hdelivers : e.Delivers incoming)
    (hstorable : storable room incoming = some (eventId, sender)) :
    updateEvent events room eventId (fillRow incoming) =
      events.map (fillSeqs room eventId incoming) := by
  refine List.map_congr_left fun row hrow => ?_
  rw [fillSeqs]
  by_cases hkey : row.key = (room, eventId)
  · rw [if_pos hkey, if_pos hkey]
    have hid : row.eventId = eventId := congrArg Prod.snd hkey
    obtain ⟨_, incoming', hrowOf⟩ := hall.rowOf h.rows he hdelivers hrow (hid ▸ hstorable)
    have hraw : row.rawEvent = some e.json :=
      hrowOf.2.2.raw e.json (rawEvent_eq hrowOf.1)
    rw [fillRow, hall.live e he incoming hdelivers, Bool.or_false, hraw, Option.some_or,
      ← hraw]
  · rw [if_neg hkey, if_neg hkey]

/-- A row that can be read at last is as if it had been stored so. -/
theorem classifyRow_frame (hall : TimedEvents all)
    (hunread : ∀ row ∈ events, row.eventClass = .general → row.isRedacted = false →
      row.modifiedTimestamp = 0) (he : e ∈ all) {incoming' : IncomingEvent}
    (hdelivers : e.Delivers incoming) (hrow : row ∈ events) (hrowOf : RowOf room e incoming' row)
    (hgeneral : row.eventClass = .general) :
    Frame (newRow room row.eventId row.sender incoming) (classifyRow incoming row) := by
  obtain ⟨hdelivers', _, hframe⟩ := hrowOf
  have hraw : row.rawEvent = incoming.rawEvent := by
    rw [rawEvent_eq hdelivers]
    exact hframe.raw e.json (rawEvent_eq hdelivers')
  have hroom : row.room = room := hframe.room
  have htime : row.originServerTs = incoming.originServerTs :=
    hframe.originServerTs.trans (originServerTs_eq hdelivers' hdelivers)
  refine ⟨?_, ?_, id, fun hredacted => ?_, fun _ => rfl, fun _ hlive => ?_, fun json hjson => ?_⟩
  · simp only [classifyRow, newRow, htime, hroom]
  · exact congrArg isStateEvent hraw
  · have hnot := hall.live e he incoming hdelivers
    rw [newRow] at hredacted
    dsimp only at hredacted
    rw [hnot] at hredacted
    cases hredacted
  · exact hunread row hrow hgeneral hlive
  · exact hraw.trans hjson

/-- What a delivery does to the table: the event comes, or nothing but numbers is added. -/
theorem Told.stores_cases (hall : TimedEvents all) {stored : Cache}
    (h : Told all room cache.events delivered) (he : e ∈ all) (hdelivers : e.Delivers incoming)
    (hstorable : storable room incoming = some (eventId, sender))
    (hstored : storeEvent packages room eventId sender incoming cache = some stored) :
    ∃ g, Unmarked g ∧
      ((∃ events' row, Enters (cache.events.map g) events' row ∧ RowOf room e incoming row ∧
          stored.events = applyRelations room events' row) ∨
        (stored.events = cache.events.map g ∧ ∃ row ∈ cache.events.map g, row.eventId = eventId ∧
          (incoming.cleartext.isSome = true → row.eventClass ≠ .general))) := by
  obtain ⟨hfind, _, hprocess⟩ | ⟨row, hfind, _, hstored⟩ := storeEvent_cases hstored
  · have henters : Enters cache.events
        (cache.events ++ [newRow room eventId sender incoming])
        (newRow room eventId sender incoming) :=
      enters_new h.settled.keyed (hall.live e he incoming hdelivers) hfind
    refine ⟨id, unmarked_id, .inl ⟨_, _, ?_, ⟨hdelivers, hstorable, .refl _⟩,
      processEvent_events hprocess (henters.keyed.find_eq_some_iff.mpr ⟨henters.mem, rfl⟩)⟩⟩
    rw [List.map_id]
    exact henters
  · obtain ⟨hmem, hroom, hid⟩ := mem_of_findEvent hfind
    rw [updateEvent_fillRow hall h he hdelivers hstorable] at hstored
    have hfilled := h.fills (fillSeqs_unmarked room eventId incoming)
    have hframe := (fillSeqs_unmarked room eventId incoming).frame row
    have hfindFilled : findEvent (cache.events.map (fillSeqs room eventId incoming)) room
        eventId = some (fillSeqs room eventId incoming row) := by
      rw [findEvent_map (fillSeqs_unmarked room eventId incoming).frame, hfind]
      rfl
    obtain ⟨hmemFilled, hroomFilled, hidFilled⟩ := mem_of_findEvent hfindFilled
    obtain ⟨hsender, incoming', hrowOf⟩ := hall.rowOf hfilled.rows he hdelivers hmemFilled
      (hidFilled.symm ▸ hstorable)
    refine ⟨_, fillSeqs_unmarked room eventId incoming, ?_⟩
    generalize hrow' : fillSeqs room eventId incoming row = row' at *
    generalize cache.events.map (fillSeqs room eventId incoming) = events' at *
    obtain ⟨_, hold, hprocess⟩ | ⟨hopens, rfl⟩ := hstored
    · -- The event can be read now.
      have hgeneral : row'.eventClass = .general := hframe.eventClass.trans hold
      have henters := enters_classified incoming hfilled.settled.keyed hfindFilled
        hgeneral
      have hkey : (classifyRow incoming row').key = (room, eventId) :=
        Prod.ext hroomFilled hidFilled
      have hopened := classifyRow_frame hall hfilled.sound.unread he hdelivers hmemFilled hrowOf
        hgeneral
      refine .inl ⟨_, _, henters, ⟨hdelivers, ?_, hopened⟩,
        processEvent_events hprocess (henters.keyed.find_eq_some_iff.mpr ⟨henters.mem, hkey⟩)⟩
      rw [hstorable]
      exact congrArg some (Prod.ext hidFilled.symm hsender)
    · refine .inr ⟨rfl, row', hmemFilled, hidFilled, fun hopened hgeneral => ?_⟩
      refine hopens (fun hclass => ?_) (hframe.eventClass.symm.trans hgeneral)
      rw [classify_eq_general_iff.mp hclass] at hopened
      cases hopened

theorem Told.stores (hall : TimedEvents all) {stored : Cache}
    (h : Told all room cache.events delivered) (he : e ∈ all) (hdelivers : e.Delivers incoming)
    (hstorable : storable room incoming = some (eventId, sender))
    (hstored : storeEvent packages room eventId sender incoming cache = some stored) :
    Told all room stored.events (delivered ++ [incoming]) := by
  obtain ⟨g, hg, ⟨_, _, henters, hrow, hevents⟩ | ⟨hevents, row, hrow, hid, hclass⟩⟩ :=
    h.stores_cases hall he hdelivers hstorable hstored
  · rw [hevents]
    exact (h.fills hg).arrives henters he hrow
  · rw [hevents]
    refine (h.fills hg).again _ fun otherId otherSender hother => ?_
    rw [hstorable] at hother
    cases hother
    exact ⟨row, hrow, hid, hclass⟩

end Storing

/-- One call, and what has been delivered so far by calls that worked. -/
def deliver (packages : ContentPackages) (room : String) (s : Cache × List IncomingEvent)
    (call : String × List IncomingEvent) : Cache × List IncomingEvent :=
  (s.1.upsertEvents packages call.1 room call.2,
    if (s.1.upsertEventsCounted packages call.1 room call.2).isSome then s.2 ++ call.2 else s.2)

section Run

variable {all : List RoomEvent} {room : String}

theorem told_start : Told all room empty.events [] := by
  refine ⟨⟨?_, ?_, ?_, ?_, ?_⟩, ⟨?_, ?_, ?_, ?_, ?_⟩, ?_, ?_⟩
  · exact List.nodup_nil
  · exact fun _ h => by cases h
  · exact fun _ h => by cases h
  · exact fun _ h => by cases h
  · exact fun _ h => by cases h
  · exact List.nodup_nil
  · exact fun _ h => by cases h
  · exact fun _ h => by cases h
  · exact fun _ h => by cases h
  · exact fun _ h => by cases h
  · exact fun _ h => by cases h
  · exact fun _ h => by cases h

/-- What every delivery keeps, every run of calls keeps. -/
theorem run_delivers {packages : ContentPackages} (inv : List EventRow → List IncomingEvent → Prop)
    (hskip : ∀ events delivered e incoming, e ∈ all → e.Delivers incoming → storable room
      incoming = none → inv events delivered → inv events (delivered ++ [incoming]))
    (hstore : ∀ cache stored delivered e incoming eventId sender, e ∈ all → e.Delivers incoming →
      storable room incoming = some (eventId, sender) → storeEvent packages room eventId
      sender incoming cache = some stored → inv cache.events delivered → inv stored.events
      (delivered ++ [incoming])) (calls : List (String × List IncomingEvent))
    (hcalls : ∀ call ∈ calls, ∀ incoming ∈ call.2, ∃ e ∈ all, e.Delivers incoming)
    (hstart : inv empty.events []) :
    inv (Runs.run (deliver packages room) (empty, []) calls).1.events
      (Runs.run (deliver packages room) (empty, []) calls).2 := by
  have hbatch : ∀ (user : String) (batch delivered : List IncomingEvent) (cache : Cache)
      (result : Cache × Nat × Nat), (∀ incoming ∈ batch, ∃ e ∈ all, e.Delivers incoming) →
        upsertAll packages user room batch cache = some result →
          inv cache.events delivered → inv result.1.events (delivered ++ batch) := by
    intro user batch
    induction batch with
    | nil =>
      intro delivered cache result _ hupsert h
      cases hupsert
      rw [List.append_nil]
      exact h
    | cons incoming batch ih =>
      intro delivered cache result hbatch hupsert h
      obtain ⟨first, rest, hone, hrest, hresult, _⟩ := upsertAll_cons hupsert
      obtain ⟨e, he, hdelivers⟩ := hbatch incoming List.mem_cons_self
      have hfirst : inv first.1.events (delivered ++ [incoming]) := by
        obtain ⟨hstorable, rfl⟩ | ⟨eventId, sender, stored, hstorable, hstored, rfl⟩ :=
          upsertEvent_cases hone
        · exact hskip _ _ e incoming he hdelivers hstorable h
        · rw [logSynced_events, markEncrypted_events]
          refine hstore _ _ _ e incoming eventId sender he hdelivers hstorable hstored ?_
          rw [userRowId_events]
          exact h
      have hall' := ih _ _ _ (fun other hother => hbatch other (List.mem_cons_of_mem _ hother))
        hrest hfirst
      rw [List.append_assoc, List.singleton_append] at hall'
      rw [hresult]
      exact hall'
  refine Runs.run_invariant_of_guard
    (fun call : String × List IncomingEvent => ∀ incoming ∈ call.2, ∃ e ∈ all, e.Delivers incoming)
    (fun s : Cache × List IncomingEvent => inv s.1.events s.2) ?_ calls _ hcalls hstart
  intro s call hcall h
  rw [deliver, upsertEvents]
  cases hcounted : s.1.upsertEventsCounted packages call.1 room call.2 with
  | none => exact h
  | some result =>
    refine hbatch call.1 call.2 s.2 _ result hcall hcounted ?_
    rw [roomRowId_events, userRowId_events]
    exact h

theorem told_run (room : String) (hall : TimedEvents all) (packages : ContentPackages)
    (calls : List (String × List IncomingEvent))
    (hcalls : ∀ call ∈ calls, ∀ incoming ∈ call.2, ∃ e ∈ all, e.Delivers incoming) :
    Told all room (Runs.run (deliver packages room) (empty, []) calls).1.events
      (Runs.run (deliver packages room) (empty, []) calls).2 := by
  refine run_delivers (Told all room) ?_ ?_ calls hcalls told_start
  · intro events delivered e incoming _ _ hstorable h
    refine h.again _ fun eventId sender hother => ?_
    rw [hstorable] at hother
    cases hother
  · intro cache stored delivered e incoming eventId sender he hdelivers hstorable hstored h
    exact h.stores hall he hdelivers hstorable hstored

end Run

section Agreement

variable {all : List RoomEvent} {room : String} {events events' : List EventRow}
  {delivered delivered' : List IncomingEvent}

/-- Every event has come in a form that says all there is. -/
def DeliversAll (all : List RoomEvent) (delivered : List IncomingEvent) : Prop :=
  ∀ e ∈ all, ∃ incoming ∈ delivered, e.Tells incoming

/-- The rows have come from one row by getting marks. -/
def Alike (row row' : EventRow) : Prop :=
  ∃ base, Frame base row ∧ Frame base row'

variable {row row' : EventRow}

theorem Alike.symm (h : Alike row row') : Alike row' row := by
  obtain ⟨base, hbase, hbase'⟩ := h
  exact ⟨base, hbase', hbase⟩

theorem Alike.key {row row' : EventRow} (h : Alike row row') : row'.key = row.key := by
  obtain ⟨base, hbase, hbase'⟩ := h
  rw [hbase'.key, hbase.key]

theorem Alike.eventClass {row row' : EventRow} (h : Alike row row') :
    row'.eventClass = row.eventClass := by
  obtain ⟨base, hbase, hbase'⟩ := h
  rw [hbase'.eventClass, hbase.eventClass]

theorem Alike.contentJson {row row' : EventRow} (h : Alike row row') :
    row'.contentJson = row.contentJson := by
  obtain ⟨base, hbase, hbase'⟩ := h
  rw [hbase'.rest, hbase.rest]

theorem Alike.ref {row row' : EventRow} (h : Alike row row') (hclass : row.eventClass ≠ .msg) :
    row'.refEventId = row.refEventId := by
  obtain ⟨base, hbase, hbase'⟩ := h
  rw [hbase.eventClass] at hclass
  rw [hbase'.ref hclass, hbase.ref hclass]

theorem Alike.stamp {row row' : EventRow} (h : Alike row row') : stamp row' = stamp row := by
  obtain ⟨base, hbase, hbase'⟩ := h
  rw [hbase'.stamp, hbase.stamp]

theorem Alike.replaces {edit edit' target target' : EventRow} (hedit : Alike edit edit')
    (htarget : Alike target target') : edit'.replaces target' = edit.replaces target := by
  obtain ⟨base, hbase, hbase'⟩ := hedit
  obtain ⟨other, hother, hother'⟩ := htarget
  rw [EventRow.replaces, EventRow.replaces, hbase'.replacementSide, hbase.replacementSide,
    hother'.replacementSide, hother.replacementSide]

/-- Whatever form of an event was stored, the row is that of the form that says all. -/
theorem Told.final (h : Told all room events delivered) (hdelivered : DeliversAll all delivered)
    (hrow : row ∈ events) : ∃ e ∈ all, ∀ form, e.Tells form → RowOf room e form row := by
  obtain ⟨e, he, incoming, hrowOf⟩ := h.rows row hrow
  refine ⟨e, he, fun form hform => ?_⟩
  obtain ⟨told, htold, htells⟩ := hdelivered e he
  have hstorable := storable_eq room hrowOf.1 htells.1
  rw [hrowOf.2.1] at hstorable
  obtain ⟨other, hother, hid, hopened⟩ := h.heard told htold row.eventId row.sender
    hstorable.symm
  have hroomOther : other.room = room := by
    obtain ⟨_, _, _, hrowOfOther⟩ := h.rows other hother
    exact hrowOfOther.room_eq
  have hsame : other = row := h.settled.keyed.eq_of_key hother hrow
    (key_eq_iff.mpr ⟨hroomOther.trans hrowOf.room_eq.symm, hid⟩)
  rw [hsame, htells.2] at hopened
  have hcleartext : incoming.cleartext = e.cleartext := by
    cases hincoming : incoming.cleartext with
    | some cleartext =>
      rw [← hincoming]
      exact (tells_of_cleartext hrowOf.1 (by rw [hincoming]; rfl)).2
    | none =>
      cases hevent : e.cleartext with
      | none => rfl
      | some cleartext =>
        refine absurd ?_ (hopened (by rw [hevent]; rfl))
        exact hrowOf.2.2.eventClass.trans (classify_eq_general_iff.mpr hincoming)
  refine ⟨hform.1, ?_, ?_⟩
  · rw [← storable_eq room hrowOf.1 hform.1]
    exact hrowOf.2.1
  · rw [← newRow_eq hrowOf.1 hform.1 (hcleartext.trans hform.2.symm)]
    exact hrowOf.2.2

/-- What is in one table is in the other. -/
theorem Told.matched (hall : TimedEvents all) (h : Told all room events delivered)
    (hdelivered : DeliversAll all delivered) (h' : Told all room events' delivered')
    (hdelivered' : DeliversAll all delivered') (hrow : row ∈ events) :
    ∃ row' ∈ events', Alike row row' := by
  obtain ⟨e, he, hfinal⟩ := h.final hdelivered hrow
  obtain ⟨told, htold, htells⟩ := hdelivered' e he
  have hrowOf := hfinal told htells
  obtain ⟨row', hrow', hid, _⟩ := h'.heard told htold row.eventId row.sender hrowOf.2.1
  obtain ⟨e', he', hfinal'⟩ := h'.final hdelivered' hrow'
  obtain ⟨told', _, htells'⟩ := hdelivered' e' he'
  have hsame : e' = e := hall.unique e' he' e he row.eventId
    (hid ▸ eventId_of_storable htells'.1 (hfinal' told' htells').2.1)
    (eventId_of_storable htells.1 hrowOf.2.1)
  subst hsame
  have hrowOf' := hfinal' told htells
  have hidentity := hrowOf'.2.1
  rw [hrowOf.2.1] at hidentity
  have hsender : row.sender = row'.sender := congrArg Prod.snd (Option.some.inj hidentity)
  have hframe' := hrowOf'.2.2
  rw [hid, ← hsender] at hframe'
  exact ⟨row', hrow', _, hrowOf.2.2, hframe'⟩

theorem Told.redacted (hall : TimedEvents all) (h : Told all room events delivered)
    (hdelivered : DeliversAll all delivered) (h' : Told all room events' delivered')
    (hdelivered' : DeliversAll all delivered') {row row' : EventRow} (hrow : row ∈ events)
    (hrow' : row' ∈ events') (halike : Alike row row') (hredacted : row.isRedacted = true) :
    row'.isRedacted = true := by
  obtain ⟨redaction, hredaction, hclass, hroom, href⟩ := (h.settled.redacted row hrow).mp hredacted
  obtain ⟨redaction', hredaction', hmatch⟩ := h.matched hall hdelivered h' hdelivered' hredaction
  obtain ⟨hroomRow, hidRow⟩ := key_eq_iff.mp halike.key
  refine (h'.settled.redacted row' hrow').mpr ⟨redaction', hredaction', ?_, ?_, ?_⟩
  · rw [hmatch.eventClass, hclass]
  · rw [(key_eq_iff.mp hmatch.key).1, hroom, hroomRow]
  · rw [hmatch.ref (by rw [hclass]; decide), href, hidRow]

theorem Told.isRedacted_eq (hall : TimedEvents all) (h : Told all room events delivered)
    (hdelivered : DeliversAll all delivered) (h' : Told all room events' delivered')
    (hdelivered' : DeliversAll all delivered') (hrow : row ∈ events) (hrow' : row' ∈ events')
    (halike : Alike row row') : row'.isRedacted = row.isRedacted := by
  rw [Bool.eq_iff_iff]
  exact ⟨h'.redacted hall hdelivered' h hdelivered hrow' hrow halike.symm,
    h.redacted hall hdelivered h' hdelivered' hrow hrow' halike⟩

theorem Told.editsOf_subset (hall : TimedEvents all) (h : Told all room events delivered)
    (hdelivered : DeliversAll all delivered) (h' : Told all room events' delivered')
    (hdelivered' : DeliversAll all delivered') (halike : Alike row row') :
    editsOf ∅ events row ⊆ editsOf ∅ events' row' := by
  rintro k ⟨edit, hedit, _, happlies, rfl⟩
  obtain ⟨edit', hedit', hmatch⟩ := h.matched hall hdelivered h' hdelivered' hedit
  have hclass := (replaces_classes happlies.valid).2
  obtain ⟨hroomRow, hidRow⟩ := key_eq_iff.mp halike.key
  refine ⟨edit', hedit', Set.notMem_empty _, ⟨?_, ?_, ?_, ?_⟩, hmatch.stamp⟩
  · rw [(key_eq_iff.mp hmatch.key).1, happlies.room, hroomRow]
  · rw [hmatch.ref (by rw [hclass]; decide), happlies.ref, hidRow]
  · rw [h.isRedacted_eq hall hdelivered h' hdelivered' hedit hedit' hmatch, happlies.live]
  · rw [hmatch.replaces halike, happlies.valid]

/-- A message that is not redacted names the latest of its edits. -/
theorem Told.newest (hall : RoomEvents all) (h : Told all room events delivered)
    (hrow : row ∈ events) (hclass : row.eventClass = .msg) (hlive : row.isRedacted = false) :
    Newest (editsOf ∅ events row) (shownStamp row) := by
  rcases (h.sound.shows row hrow hclass hlive).1 with hnewest | ⟨hnone, hmissed⟩
  · exact hnewest
  · rw [hnone]
    refine Set.eq_empty_iff_forall_notMem.mpr fun k hk => ?_
    have htime := (hmissed k hk).2
    obtain ⟨edit, hedit, _, _, rfl⟩ := hk
    obtain ⟨e, he, incoming, hrowOf⟩ := h.rows edit hedit
    have hpositive := hall.time e he incoming hrowOf.1
    have hsame : edit.originServerTs = incoming.originServerTs := hrowOf.2.2.originServerTs
    rw [← hsame] at hpositive
    exact absurd htime (Int.not_lt.mpr hpositive)

/-- The current edit of a message that is not redacted. -/
def pointer (row : EventRow) : Option String :=
  if row.eventClass = .msg ∧ row.isRedacted = false then row.refEventId else none

theorem Told.pointer_eq (hall : RoomEvents all) (h : Told all room events delivered)
    (hdelivered : DeliversAll all delivered) (h' : Told all room events' delivered')
    (hdelivered' : DeliversAll all delivered') (hrow : row ∈ events) (hrow' : row' ∈ events')
    (halike : Alike row row') : pointer row' = pointer row := by
  have hredacted := h.isRedacted_eq hall.timed hdelivered h' hdelivered' hrow hrow' halike
  rw [pointer, pointer, hredacted, halike.eventClass]
  split_ifs with hshown
  · obtain ⟨hclass, hlive⟩ := hshown
    have hedits : editsOf ∅ events row = editsOf ∅ events' row' :=
      (h.editsOf_subset hall.timed hdelivered h' hdelivered' halike).antisymm
        (h'.editsOf_subset hall.timed hdelivered' h hdelivered halike.symm)
    have hnewest := h.newest hall hrow hclass hlive
    have hnewest' := h'.newest hall hrow' (halike.eventClass.trans hclass) (hredacted.trans hlive)
    rw [hedits] at hnewest
    have hstamps := hnewest'.unique hnewest
    rw [shownStamp, shownStamp] at hstamps
    cases hnew : row'.refEventId with
    | none =>
      cases hold : row.refEventId with
      | none => rfl
      | some id =>
        rw [hnew, hold] at hstamps
        cases hstamps
    | some id' =>
      cases hold : row.refEventId with
      | none =>
        rw [hnew, hold] at hstamps
        cases hstamps
      | some id =>
        rw [hnew, hold] at hstamps
        exact congrArg (fun k : Int ×ₗ String => some (ofLex k).2) (Option.some.inj hstamps)
  · rfl

/-- The message names no edit when none of those that are stored and not redacted may
replace it, and else the latest of them. -/
def NamesLatest (events : List EventRow) (row : EventRow) : Prop :=
  match row.refEventId with
  | none => ∀ edit ∈ events, ¬Applies edit row
  | some editId => ∃ edit ∈ events, Applies edit row ∧ edit.eventId = editId ∧
      ∀ other ∈ events, Applies other row → EventPointers.stamp other ≤ EventPointers.stamp edit

theorem Told.namesLatest (hall : RoomEvents all) (h : Told all room events delivered)
    (hrow : row ∈ events) (hclass : row.eventClass = .msg) (hlive : row.isRedacted = false) :
    NamesLatest events row := by
  have hnewest := h.newest hall hrow hclass hlive
  rw [NamesLatest]
  rw [shownStamp] at hnewest
  cases href : row.refEventId with
  | none =>
    rw [href] at hnewest
    intro edit hedit happlies
    exact Set.eq_empty_iff_forall_notMem.mp hnewest (EventPointers.stamp edit)
      ⟨edit, hedit, Set.notMem_empty _, happlies, rfl⟩
  | some editId =>
    rw [href] at hnewest
    obtain ⟨⟨edit, hedit, _, happlies, hstamp⟩, hgreatest⟩ := hnewest
    refine ⟨edit, hedit, happlies, ?_, fun other hother happliesOther => ?_⟩
    · exact congrArg (fun k : Int ×ₗ String => (ofLex k).2) hstamp
    · rw [hstamp]
      exact hgreatest ⟨other, hother, Set.notMem_empty _, happliesOther, rfl⟩

/-- What is compared of an event. -/
def facts (row : EventRow) : EventClass × Option Json × Bool × Option String :=
  (row.eventClass, row.contentJson, row.isRedacted, pointer row)

theorem Told.facts_eq (hall : RoomEvents all) (h : Told all room events delivered)
    (hdelivered : DeliversAll all delivered) (h' : Told all room events' delivered')
    (hdelivered' : DeliversAll all delivered') {eventId : String}
    (hfind : findEvent events room eventId = some row) :
    (findEvent events' room eventId).map facts = some (facts row) := by
  obtain ⟨hrow, hroom, hid⟩ := mem_of_findEvent hfind
  obtain ⟨row', hrow', halike⟩ := h.matched hall.timed hdelivered h' hdelivered' hrow
  have hkey : row'.key = (room, eventId) := by rw [halike.key, EventRow.key, hroom, hid]
  have hfind' : findEvent events' room eventId = some row' :=
    h'.settled.keyed.find_eq_some_iff.mpr ⟨hrow', hkey⟩
  rw [hfind', Option.map_some, facts, facts, halike.eventClass, halike.contentJson,
    h.isRedacted_eq hall.timed hdelivered h' hdelivered' hrow hrow' halike,
    h.pointer_eq hall hdelivered h' hdelivered' hrow hrow' halike]

end Agreement

/-- Any two sequences of calls that deliver all events of a room, in any order and any
number of times, agree on every event, and every message that is not redacted names the
latest of its edits. -/
theorem deliveries_converge (packages : ContentPackages) (room : String) (all : List RoomEvent)
    (calls calls' : List (String × List IncomingEvent)) (hall : RoomEvents all)
    (hcalls : ∀ call ∈ calls, ∀ incoming ∈ call.2, ∃ e ∈ all, e.Delivers incoming)
    (hcalls' : ∀ call ∈ calls', ∀ incoming ∈ call.2, ∃ e ∈ all, e.Delivers incoming)
    (hdelivered : DeliversAll all (Runs.run (deliver packages room) (Cache.empty, []) calls).2)
    (hdelivered' : DeliversAll all (Runs.run (deliver packages room) (Cache.empty, []) calls').2) :
    let cache := (Runs.run (deliver packages room) (Cache.empty, []) calls).1
    let cache' := (Runs.run (deliver packages room) (Cache.empty, []) calls').1
    (∀ eventId, (findEvent cache.events room eventId).map facts =
      (findEvent cache'.events room eventId).map facts) ∧
    ∀ row ∈ cache.events, row.eventClass = .msg → row.isRedacted = false →
      NamesLatest cache.events row := by
  intro cache cache'
  have htold := told_run room hall.timed packages calls hcalls
  have htold' := told_run room hall.timed packages calls' hcalls'
  refine ⟨fun eventId => ?_, fun row hrow hclass hlive => htold.namesLatest hall hrow hclass hlive⟩
  cases hfind : findEvent cache.events room eventId with
  | some row =>
      rw [htold.facts_eq hall hdelivered htold' hdelivered' hfind]
      rfl
  | none =>
      cases hfind' : findEvent cache'.events room eventId with
      | none => rfl
      | some row' =>
          have hback := htold'.facts_eq hall hdelivered' htold hdelivered hfind'
          rw [hfind] at hback
          cases hback

theorem delivered_of_isSome {packages : ContentPackages} {user room : String}
    {batch : List IncomingEvent}
    (h : (empty.upsertEventsCounted packages user room batch).isSome = true) :
    (Runs.run (deliver packages room) (empty, []) [(user, batch)]).2 = batch := by
  rw [Runs.run_cons, Runs.run_nil, deliver]
  exact if_pos h

/-- An edit that comes before its message and before its key, or after both. -/
theorem deliveries_converge_edit_first :
    let packages : ContentPackages := { blockFromJson := fun _ => .error "", quoted := id }
    let message : Json := .object [("event_id", .string "$m"), ("sender", .string "@b"),
      ("type", .string "m.room.message"), ("content", .object [("body", .string "hello")])]
    let ciphertext : Json := .object [("event_id", .string "$e"), ("sender", .string "@b"),
      ("type", .string "m.room.encrypted")]
    let cleartext : Json := .object [("type", .string "m.room.message"),
      ("content", .object
        [("m.new_content", .object [("body", .string "goodbye")]),
          ("m.relates_to", .object
            [("rel_type", .string "m.replace"), ("event_id", .string "$m")])])]
    let calls : List (String × List IncomingEvent) :=
      [("@a", [.undecrypted ciphertext "no key", .plain message,
        .decrypted (some ciphertext) cleartext])]
    let calls' : List (String × List IncomingEvent) :=
      [("@a", [.plain message, .decrypted (some ciphertext) cleartext])]
    let cache := (Runs.run (deliver packages "!r") (Cache.empty, []) calls).1
    let cache' := (Runs.run (deliver packages "!r") (Cache.empty, []) calls').1
    (findEvent cache.events "!r" "$m").map facts =
      (findEvent cache'.events "!r" "$m").map facts := by
  intro packages message ciphertext cleartext calls calls' cache cache'
  let all : List RoomEvent := [.plain message, .encrypted ciphertext (some cleartext)]
  have hmessage : RoomEvent.plain message ∈ all := List.mem_cons_self
  have hedit : RoomEvent.encrypted ciphertext (some cleartext) ∈ all :=
    List.mem_cons_of_mem _ List.mem_cons_self
  have hall : RoomEvents all := by
    refine ⟨?_, ?_, ?_⟩
    · intro a ha b hb id hid hid'
      simp only [all, List.mem_cons, List.not_mem_nil, or_false] at ha hb
      rcases ha with rfl | rfl <;> rcases hb with rfl | rfl
      · rfl
      · exact absurd (hid.trans hid'.symm) (by decide +kernel)
      · exact absurd (hid.trans hid'.symm) (by decide +kernel)
      · rfl
    · intro e he incoming hdelivers
      rw [IncomingEvent.isRedactedByServer, envelope_eq hdelivers]
      simp only [all, List.mem_cons, List.not_mem_nil, or_false] at he
      rcases he with rfl | rfl <;> decide +kernel
    · intro e he incoming hdelivers
      rw [IncomingEvent.originServerTs, envelope_eq hdelivers]
      simp only [all, List.mem_cons, List.not_mem_nil, or_false] at he
      rcases he with rfl | rfl <;> decide +kernel
  have hforms : ∀ incoming ∈ [IncomingEvent.undecrypted ciphertext "no key", .plain message,
      .decrypted (some ciphertext) cleartext], ∃ e ∈ all, e.Delivers incoming := by
    intro incoming hincoming
    simp only [List.mem_cons, List.not_mem_nil, or_false] at hincoming
    rcases hincoming with rfl | rfl | rfl
    · exact ⟨_, hedit, .undecrypted _ _ _⟩
    · exact ⟨_, hmessage, .plain _⟩
    · exact ⟨_, hedit, .decrypted _ _⟩
  have htells : ∀ delivered : List IncomingEvent, .plain message ∈ delivered →
      .decrypted (some ciphertext) cleartext ∈ delivered → DeliversAll all delivered := by
    intro delivered hplain hdecrypted e he
    simp only [all, List.mem_cons, List.not_mem_nil, or_false] at he
    rcases he with rfl | rfl
    · exact ⟨_, hplain, .plain _, rfl⟩
    · exact ⟨_, hdecrypted, .decrypted _ _, rfl⟩
  have hcame : (Runs.run (deliver packages "!r") (Cache.empty, []) calls).2 =
      [.undecrypted ciphertext "no key", .plain message,
        .decrypted (some ciphertext) cleartext] := delivered_of_isSome (by decide +kernel)
  have hcame' : (Runs.run (deliver packages "!r") (Cache.empty, []) calls').2 =
      [.plain message, .decrypted (some ciphertext) cleartext] :=
    delivered_of_isSome (by decide +kernel)
  refine (deliveries_converge packages "!r" all calls calls' hall ?_ ?_ ?_ ?_).1 "$m"
  · intro call hcall
    rw [List.mem_singleton.mp hcall]
    exact hforms
  · intro call hcall
    rw [List.mem_singleton.mp hcall]
    exact fun incoming hincoming => hforms incoming (List.mem_cons_of_mem _ hincoming)
  · rw [hcame]
    exact htells _ (by simp) (by simp)
  · rw [hcame']
    exact htells _ (by simp) (by simp)

end EventConvergence
end WbfMatrixClient
