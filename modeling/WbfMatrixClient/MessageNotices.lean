import WbfMatrixClient.StoredDecryptionRuns

/-!
# The last notice of a message

A line that has stored an event tells the clients what it has stored. The rooms line may
be held up between its write and its notice: by then the keys line has decrypted the
event and has told so, and the last word is that the message cannot be read. A relation
that was opened together with its target is folded into it and is not told at all.

Where neither happens, a client that keeps the last notice sees what is stored.
-/

namespace WbfMatrixClient
namespace StoredDecryption

open EventHistory EventPointers RecentMarks Function Cache

section Rows

variable {packages : ContentPackages} {me room eventId inRoom id sender : String} {raw : Json}
  {incoming : IncomingEvent}

/-- The row of the event, if there is one, is not read yet. -/
def Unread (room eventId : String) (cache : Cache) : Prop :=
  ∀ row, findEvent cache.events room eventId = some row → row.eventClass = .general

variable {cache : Cache}

theorem unread_iff (h : CacheOk me room eventId raw cache) :
    Unread room eventId cache ↔ ¬Opened room eventId cache := by
  constructor
  · rintro hunread ⟨row, hfind, hdecrypted⟩
    rw [(h.sealed hfind).undecrypted (hunread row hfind)] at hdecrypted
    cases hdecrypted
  · intro hclosed row hfind
    by_contra hclass
    exact hclosed ⟨row, hfind, (h.sealed hfind).decrypted hclass⟩

theorem processEvent_unread {processed : Cache}
    (h : processEvent packages inRoom id cache = some processed)
    (hunread : Unread room eventId cache) : Unread room eventId processed := by
  obtain ⟨⟨g, hg, hevents⟩, _⟩ := processEvent_reframed h
  intro row hfind
  rw [hevents, findEvent, Table.find_map fun row => (hg row).key] at hfind
  obtain ⟨old, hold, rfl⟩ := Option.map_eq_some_iff.mp hfind
  have hclass : (g old).eventClass = old.eventClass := by rw [(hg old).rest]
  rw [hclass]
  exact hunread old hold

theorem updateEvent_unread {f : EventRow → EventRow} (hkey : ∀ row, (f row).key = row.key)
    (hunread : Unread room eventId cache)
    (hf : (inRoom, id) = (room, eventId) → ∀ row, row.eventClass = .general → (f row).eventClass =
      .general) :
    Unread room eventId { cache with events := updateEvent cache.events inRoom id f } := by
  intro row hfind
  simp only [findEvent, updateEvent] at hfind
  by_cases hat : (inRoom, id) = (room, eventId)
  · rw [hat, Table.find_update_self hkey] at hfind
    obtain ⟨old, hold, rfl⟩ := Option.map_eq_some_iff.mp hfind
    exact hf hat old (hunread old hold)
  · rw [Table.find_update_ne hkey (Ne.symm hat)] at hfind
    exact hunread row hfind

/-- Only a readable form of the event makes its row read. -/
theorem storeEvent_unread {stored : Cache}
    (hstore : storeEvent packages inRoom id sender incoming cache = some stored)
    (hother : (inRoom, id) = (room, eventId) → (classify incoming).eventClass = .general)
    (hunread : Unread room eventId cache) : Unread room eventId stored := by
  obtain ⟨_, _, hprocess⟩ | ⟨found, _, _, hstored⟩ := storeEvent_cases hstore
  · refine processEvent_unread hprocess fun row hrow => ?_
    simp only [findEvent] at hrow
    rw [Table.find_append] at hrow
    rcases Option.or_eq_some_iff.mp hrow with hold | ⟨_, hnew⟩
    · exact hunread row hold
    · split_ifs at hnew with hkey
      cases hnew
      exact hother hkey
  · have hfill : Unread room eventId
        { cache with events := updateEvent cache.events inRoom id (fillRow incoming) } :=
      updateEvent_unread (fun _ => rfl) hunread fun _ _ hrow => hrow
    obtain ⟨_, _, hprocess⟩ | ⟨_, rfl⟩ := hstored
    · have hkey : ∀ row, (classifyRow incoming row).key = row.key := fun _ => rfl
      exact processEvent_unread hprocess
        (updateEvent_unread hkey hfill fun hat _ _ => hother hat)
    · exact hfill

theorem upsertEvent_unread {result : Cache × Bool}
    (h : upsertEvent packages me inRoom cache incoming = some result)
    (hother : inRoom = room → incoming.findEventId = some eventId → (classify incoming).eventClass =
      .general) (hunread : Unread room eventId cache) : Unread room eventId result.1 := by
  obtain ⟨_, rfl⟩ | ⟨id, by_, stored, hstorable, hstored, rfl⟩ := upsertEvent_cases h
  · exact hunread
  · have hdone : Unread room eventId stored := by
      refine storeEvent_unread hstored (fun hkey => ?_) ?_
      · obtain ⟨hroom, hname⟩ := Prod.mk.inj hkey
        exact hother hroom (by rw [findEventId_of_storable hstorable, hname])
      · rw [Unread, userRowId_events]
        exact hunread
    rw [Unread, logSynced_events, markEncrypted_events]
    exact hdone

theorem upsertEventsCounted_unread {events : List IncomingEvent} {result : Cache × Nat × Nat}
    (h : cache.upsertEventsCounted packages me inRoom events = some result)
    (hother : inRoom = room → ∀ incoming ∈ events, incoming.findEventId = some eventId → (classify
      incoming).eventClass = .general) (hunread : Unread room eventId cache) :
    Unread room eventId result.1 := by
  refine upsertAll_induction (fun incoming hincoming _ _ hone =>
    upsertEvent_unread hone fun hroom => hother hroom incoming hincoming) h ?_
  rw [Unread, roomRowId_events, userRowId_events]
  exact hunread

theorem storeRooms_unread (groups : ByRoom IncomingEvent)
    (hother : ∀ group ∈ groups, group.1 = room → ∀ incoming ∈ group.2, incoming.findEventId = some
      eventId → (classify incoming).eventClass = .general) (hunread : Unread room eventId cache) :
    Unread room eventId (storeRooms packages me groups cache).cache := by
  induction groups generalizing cache with
  | nil => exact hunread
  | cons first groups ih =>
    obtain ⟨inRoom, events⟩ := first
    rw [storeRooms]
    cases hall : cache.upsertEventsCounted packages me inRoom events with
    | none => exact hunread
    | some result =>
      refine ih (fun group hin => hother group (List.mem_cons_of_mem _ hin)) ?_
      exact upsertEventsCounted_unread hall (hother _ List.mem_cons_self) hunread

end Rows

section Notices

variable (room eventId : String)

/-- The notice that the event can be read. -/
def readable : Notice := { roomId := room, eventId := eventId, decrypted := some true }

/-- What a client that keeps the last notice of the event has. -/
def lastNotice (notices : List Notice) : Option Notice :=
  (notices.filter fun notice => notice.roomId = room ∧ notice.eventId = eventId).getLast?

/-- The last word is that the event cannot be read. -/
def SaysUnread (notices : List Notice) : Prop :=
  ∃ notice, lastNotice room eventId notices = some notice ∧ notice.decrypted ≠ some true

/-- The task still has to tell that the event can be read. -/
def WillTell : Task → Prop
  | .emitting _ notices _ => readable room eventId ∈ notices
  | _ => False

end Notices

section Notices

variable {room eventId : String}

theorem of_lastNotice {notices : List Notice} {notice : Notice}
    (h : lastNotice room eventId notices = some notice) :
    notice ∈ notices ∧ notice.roomId = room ∧ notice.eventId = eventId := by
  have hmem := List.mem_of_getLast? h
  rw [List.mem_filter] at hmem
  exact ⟨hmem.1, of_decide_eq_true hmem.2⟩

/-- Only a notice of the event is a new last word. -/
theorem lastNotice_append (notices : List Notice) (notice : Notice) :
    lastNotice room eventId (notices ++ [notice]) =
      if notice.roomId = room ∧ notice.eventId = eventId then some notice
      else lastNotice room eventId notices := by
  rw [lastNotice, List.filter_append]
  split_ifs with habout
  · rw [List.filter_cons_of_pos (by simp [habout]), List.filter_nil, List.getLast?_concat]
  · rw [List.filter_cons_of_neg (by simpa using habout), List.filter_nil, List.append_nil]
    rfl

/-- What a page tells of the event is what one of its forms says. -/
theorem mem_messagesFromIncoming {conversation : String} {page : List IncomingEvent}
    {notice : Notice} (h : notice ∈ messagesFromIncoming conversation page) :
    notice.roomId = conversation ∧ ∃ incoming ∈ page,
      notice.eventId = noticeId incoming ∧ notice.decrypted = incoming.decryptedFlag := by
  obtain ⟨incoming, hin, rfl⟩ := List.mem_map.mp h
  exact ⟨rfl, incoming, List.mem_of_mem_filter hin, rfl, rfl⟩

theorem readable_mem_messagesFromIncoming {page : List IncomingEvent} {incoming : IncomingEvent}
    (hin : incoming ∈ page) (hid : incoming.findEventId = some eventId)
    (hform : isDecryptedForm incoming = true) (hunfolded : isFolded page incoming = false) :
    readable room eventId ∈ messagesFromIncoming room page := by
  refine List.mem_map.mpr ⟨incoming, List.mem_filter.mpr ⟨hin, by rw [hunfolded]; rfl⟩, ?_⟩
  rw [noticeId, hid]
  cases incoming with
  | decrypted ciphertext cleartext => rfl
  | plain | undecrypted => cases hform

end Notices

/-- What a task tells of has an id, and it tells of everything it opens. -/
def Telling : Task → Prop
  | .trying _ tried => ∀ group ∈ tried, ∀ incoming ∈ group.2, incoming.findEventId.isSome
  | .storing tried => ∀ group ∈ tried, ∀ incoming ∈ group.2, incoming.findEventId.isSome
  | .fetching _ => False
  | .decrypting announce _ => announce = true
  | .opening announce _ todo opened _ =>
      announce = true ∧ (∀ event ∈ todo, (event.text "event_id").isSome) ∧
        ∀ incoming ∈ opened, incoming.findEventId.isSome
  | .storingOpened announce _ opened _ =>
      announce = true ∧ ∀ incoming ∈ opened, incoming.findEventId.isSome
  | .emitting announce _ _ => announce = true
  | .done => True

namespace State

section Event

variable (packages : ContentPackages) (me room eventId : String) (raw : Json)

/-- Some task still has to tell that the event can be read. -/
def WillBeTold (s : State) : Prop :=
  ∃ id task, s.tasks id = some task ∧ WillTell room eventId task

/-- What opens the event while the last word is that it cannot be read is not folded into
another event of its page. -/
def Unfolded (s : State) (page : List IncomingEvent) : Prop :=
  SaysUnread room eventId s.notices → ∀ incoming ∈ page, incoming.findEventId = some eventId →
    isDecryptedForm incoming = true → isFolded page incoming = false

/-- Only the rooms line and the keys line are at work, the writes of the cache go through
and every delivery of the event is the same ciphertext. What opens the event is told, and
that it cannot be read is told only while that is so, or while the better news is still
to come. -/
def TellsInOrder (s : State) : Action → Prop
  | .recent _ => False
  | .push _ events => Same room eventId raw events
  | .next id =>
      (∀ tried, s.tasks id = some (.storing tried) →
        (storeRooms packages me tried s.cache).ok = true ∧
          ∀ group ∈ tried, group.1 = room → s.Unfolded room eventId group.2) ∧
      (∀ announce inRoom opened jobs,
        s.tasks id = some (.storingOpened announce inRoom opened jobs) →
          (s.cache.upsertEventsCounted packages me inRoom opened).isSome ∧
            (inRoom = room → s.Unfolded room eventId opened)) ∧
      ∀ announce notice notices jobs,
        s.tasks id = some (.emitting announce (notice :: notices) jobs) →
          notice.roomId = room → notice.eventId = eventId → notice.decrypted ≠ some true →
            Opened room eventId s.cache → s.WillBeTold room eventId
  | _ => True

/-- What tells that the event can be read tells the truth, and when the last word is that
it cannot, although it can, the news is still to come. -/
structure Told (s : State) : Prop where
  cache : CacheOk me room eventId raw s.cache
  tasks : ∀ id task, s.tasks id = some task → TaskOk room eventId raw task ∧ Telling task
  said : readable room eventId ∈ s.notices → Opened room eventId s.cache
  pending : s.WillBeTold room eventId → Opened room eventId s.cache
  told : Opened room eventId s.cache → SaysUnread room eventId s.notices →
    s.WillBeTold room eventId

theorem told_start : Told me room eventId raw .start where
  cache := ⟨fun row hrow => absurd hrow List.not_mem_nil, fun row hrow => absurd hrow List.not_mem_nil⟩
  tasks := fun id task htask => by cases htask
  said := fun h => absurd h List.not_mem_nil
  pending := by
    rintro ⟨id, task, htask, _⟩
    cases htask
  told := by
    rintro ⟨row, hfind, _⟩
    cases hfind

end Event

variable {packages : ContentPackages} {me room eventId sender : String} {raw : Json}
  {decrypt : Decrypt} {s s' : State}

variable {id : Nat}

/-- One task goes on and tells nothing yet. -/
theorem Told.move (h : Told me room eventId raw s) {task : Task}
    (htasks : s'.tasks = update s.tasks id (some task)) (hnotices : s'.notices = s.notices)
    (hcache : CacheOk me room eventId raw s'.cache) (hlater : Later s.cache s'.cache)
    (hok : TaskOk room eventId raw task ∧ Telling task)
    (hold : ∀ old, s.tasks id = some old → ¬WillTell room eventId old)
    (hpending : WillTell room eventId task → Opened room eventId s'.cache)
    (htold : Opened room eventId s'.cache → ¬Opened room eventId s.cache → SaysUnread room eventId
      s.notices → WillTell room eventId task) : Told me room eventId raw s' := by
  have hself : s'.tasks id = some task := by rw [htasks, update_self]
  have hother : ∀ {other : Nat}, other ≠ id → s'.tasks other = s.tasks other := by
    intro other hne
    rw [htasks, update_of_ne hne]
  have hstays : Opened room eventId s.cache → Opened room eventId s'.cache :=
    fun hopened => hopened.later h.cache hcache hlater
  constructor
  case cache => exact hcache
  case tasks =>
    intro other found hfound
    by_cases hsame : other = id
    · subst hsame
      rw [hself] at hfound
      cases hfound
      exact hok
    · rw [hother hsame] at hfound
      exact h.tasks other found hfound
  case said =>
    rw [hnotices]
    exact fun hsaid => hstays (h.said hsaid)
  case pending =>
    rintro ⟨other, found, hfound, hwill⟩
    by_cases hsame : other = id
    · subst hsame
      rw [hself] at hfound
      cases hfound
      exact hpending hwill
    · rw [hother hsame] at hfound
      exact hstays (h.pending ⟨other, found, hfound, hwill⟩)
  case told =>
    intro hopened hsays
    rw [hnotices] at hsays
    by_cases hbefore : Opened room eventId s.cache
    · obtain ⟨other, found, hfound, hwill⟩ := h.told hbefore hsays
      have hne : other ≠ id := by
        rintro rfl
        exact hold found hfound hwill
      exact ⟨other, found, by rw [hother hne]; exact hfound, hwill⟩
    · exact ⟨id, task, hself, htold hopened hbefore hsays⟩

/-- A step that touches nothing but its task. -/
theorem Told.setTask (h : Told me room eventId raw s) {id : Nat} {task : Task}
    (hok : TaskOk room eventId raw task ∧ Telling task)
    (hold : ∀ old, s.tasks id = some old → ¬WillTell room eventId old)
    (hnew : ¬WillTell room eventId task) :
    Told me room eventId raw (s.setTask id task) :=
  h.move rfl rfl h.cache (Later.refl _) hok hold (fun hwill => absurd hwill hnew)
    fun hopened hclosed => absurd hopened hclosed

/-- A task that stands where it tells nothing. -/
theorem not_willTell_of_eq {tasks : Nat → Option Task} {task : Task} (hold : tasks id = some task)
    (h : ¬WillTell room eventId task) :
    ∀ old, tasks id = some old → ¬WillTell room eventId old := by
  intro old hfound
  rw [hold] at hfound
  cases hfound
  exact h

theorem telling_tryNext {event : Json} {todo : List Json} {tried : ByRoom IncomingEvent}
    (h : Telling (.trying (event :: todo) tried)) (inRoom : Option String)
    (incoming : IncomingEvent) : Telling (.trying todo (addTried tried inRoom incoming)) := by
  cases inRoom with
  | none => exact h
  | some inRoom =>
    intro group hgroup y hy
    simp only [addTried] at hgroup
    split_ifs at hgroup with hstorable
    · rcases of_mem_addToRoom hgroup hy with ⟨_, rfl⟩ | ⟨old, hold, _, hin⟩
      · rw [IncomingEvent.storableIdentity] at hstorable
        cases hid : y.findEventId with
        | some _ => rfl
        | none => simp [hid] at hstorable
      · exact h old hold y hin
    · exact h group hgroup y hy

/-- What the notices of a page say of the event, when it has an id. -/
theorem exists_decrypted_of_readable {conversation : String} {page : List IncomingEvent}
    (hnamed : ∀ incoming ∈ page, incoming.findEventId.isSome)
    (h : readable room eventId ∈ messagesFromIncoming conversation page) :
    conversation = room ∧ ∃ incoming ∈ page,
      incoming.findEventId = some eventId ∧ isDecryptedForm incoming = true := by
  obtain ⟨hroom, incoming, hin, hid, hflag⟩ := mem_messagesFromIncoming h
  refine ⟨hroom.symm, incoming, hin, ?_, ?_⟩
  · obtain ⟨found, hfound⟩ := Option.isSome_iff_exists.mp (hnamed incoming hin)
    rw [noticeId, hfound] at hid
    rw [hfound]
    exact congrArg some hid.symm
  · cases incoming with
    | decrypted ciphertext cleartext => rfl
    | plain | undecrypted => cases hflag

theorem Told.storeTried (h : Told me room eventId raw s)
    (hencrypted : Encrypted room eventId sender raw) {id : Nat} {tried : ByRoom IncomingEvent}
    (hold : s.tasks id = some (.storing tried))
    (hwrites : (storeRooms packages me tried s.cache).ok = true)
    (hunfolded : ∀ group ∈ tried, group.1 = room → s.Unfolded room eventId group.2) :
    Told me room eventId raw (s.storeTried packages me id tried) := by
  obtain ⟨hgroups, hnamed⟩ := h.tasks id _ hold
  obtain ⟨hcache, hstored⟩ := @storeRooms_ok packages _ _ _ _ _ _ hencrypted tried hgroups h.cache
  rw [State.storeTried]
  simp only [if_pos hwrites]
  refine h.move rfl rfl hcache (storeRooms_later tried s.cache) ⟨trivial, rfl⟩
    (not_willTell_of_eq hold fun hwill => hwill.elim) ?_ ?_
  · intro hwill
    obtain ⟨group, hgroup, hin⟩ := List.mem_flatMap.mp hwill
    obtain ⟨hroom, incoming, hincoming, hid, hform⟩ :=
      exists_decrypted_of_readable (hnamed group hgroup) hin
    exact (hstored hwrites group hgroup hroom incoming hincoming
      ((hgroups group hgroup incoming hincoming).form hroom hid)).2 (isDecryptedForm_of_class hform)
  · intro hopened hclosed hsays
    -- a write that opens the event has a readable form of it
    by_contra hsilent
    refine (unread_iff hcache).mp (storeRooms_unread tried ?_ ((unread_iff h.cache).mpr hclosed))
      hopened
    intro group hgroup hroom incoming hincoming hid
    by_contra hclass
    have hform : isDecryptedForm incoming = true := by
      rcases (hgroups group hgroup incoming hincoming).form hroom hid with
        ⟨reason, rfl⟩ | ⟨cleartext, rfl⟩
      · exact absurd rfl hclass
      · rfl
    refine hsilent (List.mem_flatMap.mpr ⟨group, hgroup, ?_⟩)
    rw [hroom]
    exact readable_mem_messagesFromIncoming hincoming hid hform
      (hunfolded group hgroup hroom hsays incoming hincoming hid hform)

variable {jobs : Jobs}

theorem telling_listed {cache : Cache} {inRoom : String} {which : StoredToDecrypt}
    (h : CacheOk me room eventId raw cache) :
    Telling (.opening true inRoom (cache.listUndecryptedCiphertexts me inRoom which) [] jobs) := by
  refine ⟨rfl, fun event hevent => ?_, fun _ hin => absurd hin List.not_mem_nil⟩
  obtain ⟨row, hrow, _, hraw⟩ := exists_row_of_listed hevent
  obtain ⟨json, hjson, hname⟩ := (h.rows row hrow).named
  rw [hraw, Option.some.injEq] at hjson
  rw [hjson, hname]
  rfl

theorem telling_openNext {keys : List RoomKey} {announce : Bool} {inRoom : String} {event : Json}
    {todo : List Json} {opened : List IncomingEvent}
    (h : Telling (.opening announce inRoom (event :: todo) opened jobs)) :
    Telling (.opening announce inRoom todo
      (if isDecryptedForm (toIncoming decrypt keys inRoom event) then
        opened ++ [toIncoming decrypt keys inRoom event] else opened) jobs) := by
  obtain ⟨hannounce, htodo, hopened⟩ := h
  refine ⟨hannounce, fun e he => htodo e (List.mem_cons_of_mem _ he), ?_⟩
  split_ifs
  · intro incoming hin
    rcases List.mem_append.mp hin with hin | hin
    · exact hopened incoming hin
    · rw [List.mem_singleton.mp hin, findEventId_of_rawEvent (rawEvent_toIncoming inRoom event)]
      exact htodo event List.mem_cons_self
  · exact hopened

section

variable (h : Told me room eventId raw s)

include h

theorem Told.storeOpened (hencrypted : Encrypted room eventId sender raw) {id : Nat}
    {announce : Bool} {inRoom : String} {opened : List IncomingEvent} {jobs : Jobs}
    (hold : s.tasks id = some (.storingOpened announce inRoom opened jobs))
    (hwrites : (s.cache.upsertEventsCounted packages me inRoom opened).isSome)
    (hunfolded : inRoom = room → s.Unfolded room eventId opened) :
    Told me room eventId raw (s.storeOpened packages me id announce inRoom opened jobs) := by
  obtain ⟨hopenedOk, hannounce, hnamed⟩ := h.tasks id _ hold
  have hdeliverable : ∀ incoming ∈ opened, Deliverable room eventId raw inRoom incoming :=
    fun incoming hin => (hopenedOk incoming hin).1
  obtain ⟨result, hall⟩ := Option.isSome_iff_exists.mp hwrites
  obtain ⟨hcache, hlater, hstored⟩ := upsertEventsCounted_ok hencrypted hall hdeliverable h.cache
  rw [State.storeOpened]
  simp only [hall, hannounce, if_true]
  refine h.move rfl rfl hcache hlater ⟨trivial, rfl⟩
    (not_willTell_of_eq hold fun hwill => hwill.elim) ?_ ?_
  · intro hwill
    obtain ⟨hroom, incoming, hincoming, hid, hform⟩ := exists_decrypted_of_readable hnamed hwill
    exact (hstored hroom incoming hincoming ((hdeliverable incoming hincoming).form hroom hid)).2
      (isDecryptedForm_of_class hform)
  · intro hnow hclosed hsays
    by_contra hsilent
    refine (unread_iff hcache).mp (upsertEventsCounted_unread hall ?_
      ((unread_iff h.cache).mpr hclosed)) hnow
    intro hroom incoming hincoming hid
    refine absurd ?_ hsilent
    have hform := (hopenedOk incoming hincoming).2
    rw [hroom]
    exact readable_mem_messagesFromIncoming hincoming hid hform
      (hunfolded hroom hsays incoming hincoming hid hform)

theorem Told.emit {announce : Bool} {notice : Notice} {notices : List Notice}
    (hold : s.tasks id = some (.emitting announce (notice :: notices) jobs))
    (hinOrder : notice.roomId = room → notice.eventId = eventId → notice.decrypted ≠ some true →
      Opened room eventId s.cache → s.WillBeTold room eventId)
    (htasks : s'.tasks = update s.tasks id (some (.emitting announce notices jobs)))
    (hnotices : s'.notices = s.notices ++ [notice]) (hcache : s'.cache = s.cache) :
    Told me room eventId raw s' := by
  have hself : s'.tasks id = some (.emitting announce notices jobs) := by
    rw [htasks, update_self]
  have hother : ∀ {other : Nat}, other ≠ id → s'.tasks other = s.tasks other := by
    intro other hne
    rw [htasks, update_of_ne hne]
  constructor
  case cache =>
    rw [hcache]
    exact h.cache
  case tasks =>
    intro other found hfound
    by_cases hsame : other = id
    · subst hsame
      rw [hself] at hfound
      cases hfound
      exact ⟨trivial, (h.tasks other _ hold).2⟩
    · rw [hother hsame] at hfound
      exact h.tasks other found hfound
  case said =>
    rw [hnotices, hcache]
    intro hsaid
    rcases List.mem_append.mp hsaid with hsaid | hnow
    · exact h.said hsaid
    · refine h.pending ⟨id, _, hold, ?_⟩
      change readable room eventId ∈ notice :: notices
      rw [List.mem_singleton.mp hnow]
      exact List.mem_cons_self
  case pending =>
    rw [hcache]
    rintro ⟨other, found, hfound, hwill⟩
    by_cases hsame : other = id
    · subst hsame
      rw [hself] at hfound
      cases hfound
      exact h.pending ⟨other, _, hold, List.mem_cons_of_mem _ hwill⟩
    · rw [hother hsame] at hfound
      exact h.pending ⟨other, found, hfound, hwill⟩
  case told =>
    rw [hnotices, hcache]
    rintro hopened ⟨last, hlast, hunread⟩
    -- the notice that went out was not the good news
    have htold : notice ≠ readable room eventId ∧ s.WillBeTold room eventId := by
      rw [lastNotice_append] at hlast
      split_ifs at hlast with habout
      · cases hlast
        refine ⟨?_, hinOrder habout.1 habout.2 hunread hopened⟩
        rintro rfl
        exact hunread rfl
      · refine ⟨?_, h.told hopened ⟨last, hlast, hunread⟩⟩
        rintro rfl
        exact habout ⟨rfl, rfl⟩
    obtain ⟨hnews, other, found, hfound, hwill⟩ := htold
    by_cases hsame : other = id
    · subst hsame
      rw [hold] at hfound
      cases hfound
      refine ⟨other, _, hself, ?_⟩
      rcases List.mem_cons.mp hwill with hnow | hlater
      · exact absurd hnow.symm hnews
      · exact hlater
    · exact ⟨other, found, (hother hsame).trans hfound, hwill⟩

theorem Told.advance (hencrypted : Encrypted room eventId sender raw) {id : Nat}
    (hinOrder : s.TellsInOrder packages me room eventId raw (.next id)) {task : Task}
    (hold : s.tasks id = some task) :
    Told me room eventId raw (s.advance packages me decrypt id task) := by
  obtain ⟨hok, htelling⟩ := h.tasks id task hold
  cases task with
  | trying todo tried =>
    have hbefore : ∀ old, s.tasks id = some old → ¬WillTell room eventId old :=
      not_willTell_of_eq hold fun hwill => hwill.elim
    cases todo with
    | nil => exact h.setTask ⟨hok.2, htelling⟩ hbefore fun hwill => hwill.elim
    | cons event todo =>
      exact h.setTask ⟨taskOk_tryNext hencrypted hok, telling_tryNext htelling _ _⟩ hbefore
        fun hwill => hwill.elim
  | storing tried =>
    obtain ⟨hwrites, hunfolded⟩ := hinOrder.1 tried hold
    exact h.storeTried hencrypted hold hwrites hunfolded
  | fetching encrypted | done => exact h
  | decrypting announce jobs =>
    have hbefore : ∀ old, s.tasks id = some old → ¬WillTell room eventId old :=
      not_willTell_of_eq hold fun hwill => hwill.elim
    obtain rfl : announce = true := htelling
    cases jobs with
    | nil => exact h.setTask ⟨trivial, trivial⟩ hbefore fun hwill => hwill.elim
    | cons job jobs =>
      exact h.setTask ⟨taskOk_listed h.cache, telling_listed h.cache⟩ hbefore
        fun hwill => hwill.elim
  | opening announce inRoom todo opened jobs =>
    have hbefore : ∀ old, s.tasks id = some old → ¬WillTell room eventId old :=
      not_willTell_of_eq hold fun hwill => hwill.elim
    cases todo with
    | cons event todo =>
      exact h.setTask ⟨taskOk_openNext hencrypted hok, telling_openNext htelling⟩ hbefore
        fun hwill => hwill.elim
    | nil =>
      obtain ⟨hannounce, _, hnamed⟩ := htelling
      cases opened with
      | nil => exact h.setTask ⟨trivial, hannounce⟩ hbefore fun hwill => hwill.elim
      | cons first opened =>
        exact h.setTask ⟨hok.2, hannounce, hnamed⟩ hbefore fun hwill => hwill.elim
  | storingOpened announce inRoom opened jobs =>
    obtain ⟨hwrites, hunfolded⟩ := hinOrder.2.1 announce inRoom opened jobs hold
    exact h.storeOpened hencrypted hold hwrites hunfolded
  | emitting announce notices jobs =>
    cases notices with
    | nil =>
      refine h.setTask ⟨trivial, htelling⟩ (not_willTell_of_eq hold ?_) fun hwill => hwill.elim
      exact fun hwill => absurd hwill List.not_mem_nil
    | cons notice notices =>
      exact h.emit hold (hinOrder.2.2 announce notice notices jobs hold) rfl rfl rfl

theorem Told.step (hencrypted : Encrypted room eventId sender raw) {action : Action}
    (hinOrder : s.TellsInOrder packages me room eventId raw action) :
    Told me room eventId raw (s.step packages me decrypt action) := by
  have hnone : ∀ {id : Nat}, s.tasks id = none →
      ∀ old, s.tasks id = some old → ¬WillTell room eventId old := by
    intro id htask old hfound
    rw [htask] at hfound
    cases hfound
  cases action with
  | push id events =>
    simp only [State.step]
    cases htask : s.tasks id with
    | some _ => exact h
    | none =>
      have hnew : TaskOk room eventId raw (.trying events []) ∧ Telling (.trying events []) :=
        ⟨⟨hinOrder, fun _ hgroup => absurd hgroup List.not_mem_nil⟩,
          fun _ hgroup => absurd hgroup List.not_mem_nil⟩
      exact h.move rfl rfl h.cache (Later.refl _) hnew (hnone htask)
        (fun hwill => hwill.elim) fun hopened hclosed => absurd hopened hclosed
  | recent id => exact hinOrder.elim
  | batch id raws =>
    simp only [State.step]
    cases htask : s.tasks id with
    | none => exact h
    | some task =>
      cases task with
      | fetching fetched => exact (h.tasks id _ htask).2.elim
      | _ => exact h
  | recentEnds id =>
    simp only [State.step]
    cases htask : s.tasks id with
    | none => exact h
    | some task =>
      cases task with
      | fetching fetched => exact (h.tasks id _ htask).2.elim
      | _ => exact h
  | recentFails id =>
    simp only [State.step]
    cases htask : s.tasks id with
    | none => exact h
    | some task =>
      cases task with
      | fetching fetched => exact (h.tasks id _ htask).2.elim
      | _ => exact h
  | roomKeys id keys =>
    simp only [State.step]
    cases htask : s.tasks id with
    | some _ => exact h
    | none =>
      exact h.move rfl rfl h.cache (Later.refl _) ⟨trivial, rfl⟩
        (hnone htask) (fun hwill => hwill.elim) fun hopened hclosed => absurd hopened hclosed
  | next id =>
    simp only [State.step]
    cases htask : s.tasks id with
    | none => exact h
    | some task => exact h.advance hencrypted hinOrder htask

end

/-- In every run of the two lines in which what opens the event is told, and that it cannot
be read is told only while that is so or while the better news is still to come: when
nothing is under way, the last notice of the event says what is stored. -/
theorem lastNotice_agrees (packages : ContentPackages) (me : String) (decrypt : Decrypt)
    {room eventId sender : String} {raw : Json} (hencrypted : Encrypted room eventId sender raw)
    (actions : List Action)
    (hinOrder : Runs.Along (step packages me decrypt) (TellsInOrder packages me room eventId raw)
      .start actions) :
    let s := Runs.run (step packages me decrypt) .start actions
    s.Idle → ∀ notice, lastNotice room eventId s.notices = some notice →
      (notice.decrypted = some true ↔ Opened room eventId s.cache) := by
  intro s hidle notice hlast
  have h : Told me room eventId raw s :=
    Runs.run_invariant_along (Told me room eventId raw)
      (fun _ _ hstep h => h.step hencrypted hstep) actions _ hinOrder (told_start me room eventId raw)
  obtain ⟨hmem, rfl, rfl⟩ := of_lastNotice hlast
  constructor
  · intro hdecrypted
    refine h.said ?_
    rw [readable, ← hdecrypted]
    exact hmem
  · intro hopened
    by_contra hunread
    obtain ⟨id, task, htask, hwill⟩ := h.told hopened ⟨notice, hlast, hunread⟩
    rw [hidle id task htask] at hwill
    exact hwill.elim

def taskOf : Action → Nat
  | .push id _ | .recent id | .batch id _ | .recentEnds id | .recentFails id | .roomKeys id _ |
    .next id => id

theorem step_tasks (action : Action) :
    ∃ task, (s.step packages me decrypt action).tasks =
      update s.tasks (taskOf action) task := by
  have hsame : s.tasks = update s.tasks (taskOf action) (s.tasks (taskOf action)) :=
    (update_eq_self ..).symm
  cases action with
  | push id events =>
    simp only [State.step]
    cases s.tasks id with
    | some _ => exact ⟨_, hsame⟩
    | none => exact ⟨_, rfl⟩
  | recent id =>
    simp only [State.step]
    cases s.tasks id with
    | some _ => exact ⟨_, hsame⟩
    | none => exact ⟨_, rfl⟩
  | roomKeys id keys =>
    simp only [State.step]
    cases s.tasks id with
    | some _ => exact ⟨_, hsame⟩
    | none => exact ⟨_, rfl⟩
  | batch id raws =>
    simp only [State.step]
    cases s.tasks id with
    | none => exact ⟨_, hsame⟩
    | some task =>
      cases task with
      | fetching fetched => exact ⟨_, rfl⟩
      | _ => exact ⟨_, hsame⟩
  | recentEnds id =>
    simp only [State.step]
    cases s.tasks id with
    | none => exact ⟨_, hsame⟩
    | some task =>
      cases task with
      | fetching fetched => exact ⟨_, rfl⟩
      | _ => exact ⟨_, hsame⟩
  | recentFails id =>
    simp only [State.step]
    cases s.tasks id with
    | none => exact ⟨_, hsame⟩
    | some task =>
      cases task with
      | fetching fetched => exact ⟨_, rfl⟩
      | _ => exact ⟨_, hsame⟩
  | next id =>
    simp only [State.step]
    cases s.tasks id with
    | none => exact ⟨_, hsame⟩
    | some task =>
      cases task with
      | trying todo tried => cases todo <;> exact ⟨_, rfl⟩
      | storing tried => exact ⟨_, rfl⟩
      | fetching fetched | done => exact ⟨_, hsame⟩
      | decrypting announce jobs => cases jobs <;> exact ⟨_, rfl⟩
      | opening announce inRoom todo opened jobs =>
        cases todo with
        | cons event todo => exact ⟨_, rfl⟩
        | nil => cases opened <;> exact ⟨_, rfl⟩
      | storingOpened announce inRoom opened jobs =>
        simp only [State.advance, State.storeOpened]
        cases s.cache.upsertEventsCounted packages me inRoom opened <;> exact ⟨_, rfl⟩
      | emitting announce notices jobs => cases notices <;> exact ⟨_, rfl⟩

theorem run_tasks (actions : List Action) (h : ∀ action ∈ actions, taskOf action ≠ id) :
    (Runs.run (step packages me decrypt) s actions).tasks id = s.tasks id := by
  induction actions generalizing s with
  | nil => rfl
  | cons action actions ih =>
    obtain ⟨task, hstep⟩ := @step_tasks packages me decrypt s action
    refine (ih fun later hlater => h later (List.mem_cons_of_mem _ hlater)).trans ?_
    rw [hstep, update_of_ne (Ne.symm (h action List.mem_cons_self))]

def isDone : Task → Bool
  | .done => true
  | _ => false

/-- Only the tasks of the actions have to be looked at. -/
theorem idle_of_done (actions : List Action)
    (h : actions.all fun action => ((Runs.run (step packages me decrypt) .start actions).tasks
      (taskOf action)).all isDone) : (Runs.run (step packages me decrypt) .start actions).Idle := by
  intro id task htask
  by_cases hnamed : ∃ action ∈ actions, taskOf action = id
  · obtain ⟨action, haction, rfl⟩ := hnamed
    have hdone := List.all_eq_true.mp h action haction
    rw [htask] at hdone
    cases task with
    | done => rfl
    | _ => cases hdone
  · rw [run_tasks actions fun action haction hid => hnamed ⟨action, haction, hid⟩] at htask
    cases htask

/-- The next step of the task tells in order. -/
def tellsNext (packages : ContentPackages) (me : String) (s : State) (id : Nat) : Bool :=
  match s.tasks id with
  | some (.storing tried) =>
      (storeRooms packages me tried s.cache).ok &&
        tried.all fun group => group.2.all fun incoming => !isFolded group.2 incoming
  | some (.storingOpened _ inRoom opened _) =>
      (s.cache.upsertEventsCounted packages me inRoom opened).isSome &&
        opened.all fun incoming => !isFolded opened incoming
  | some (.emitting _ (notice :: _) _) =>
      notice.decrypted = some true ||
        (findEvent s.cache.events notice.roomId notice.eventId).all fun row =>
          row.decrypted ≠ some true
  | _ => true

theorem tellsInOrder_next (h : tellsNext packages me s id = true) :
    s.TellsInOrder packages me room eventId raw (.next id) := by
  refine ⟨fun tried htask => ?_, fun announce inRoom opened jobs htask => ?_,
    fun announce notice notices jobs htask => ?_⟩
  · simp only [tellsNext, htask, Bool.and_eq_true, List.all_eq_true, Bool.not_eq_true'] at h
    exact ⟨h.1, fun group hgroup _ _ incoming hin _ _ => h.2 group hgroup incoming hin⟩
  · simp only [tellsNext, htask, Bool.and_eq_true, List.all_eq_true, Bool.not_eq_true'] at h
    exact ⟨h.1, fun _ _ incoming hin _ _ => h.2 incoming hin⟩
  · rintro rfl rfl hunread ⟨row, hfind, hopened⟩
    simp [tellsNext, htask, hunread, hfind, hopened] at h

theorem lastNotice_agrees_one :
    let s := Runs.run (step RecentMarks.State.examplePackages.content "@me" exampleDecrypt) .start
      exampleActions
    s.Idle → ∀ notice, lastNotice "!a" "$1" s.notices = some notice →
      (notice.decrypted = some true ↔ Opened "!a" "$1" s.cache) := by
  have hsame : Same "!a" "$1" exampleCiphertext [exampleCiphertext] :=
    fun event hevent _ _ => List.mem_singleton.mp hevent
  refine lastNotice_agrees RecentMarks.State.examplePackages.content "@me" exampleDecrypt
    encrypted_exampleCiphertext exampleActions ⟨hsame, ?_⟩
  refine ⟨tellsInOrder_next ?_, tellsInOrder_next ?_, tellsInOrder_next ?_, tellsInOrder_next ?_,
    tellsInOrder_next ?_, tellsInOrder_next ?_, tellsInOrder_next ?_, tellsInOrder_next ?_,
    tellsInOrder_next ?_, trivial, tellsInOrder_next ?_, tellsInOrder_next ?_,
    tellsInOrder_next ?_, tellsInOrder_next ?_, tellsInOrder_next ?_, tellsInOrder_next ?_,
    tellsInOrder_next ?_, trivial⟩ <;>
    decide +kernel

/-- The push has stored the ciphertext and is held up before its notice. -/
def exampleHeldUp : List Action :=
  [.push 0 [exampleCiphertext], .next 0, .next 0, .next 0, .roomKeys 1 [exampleKey], .next 1,
    .next 1, .next 1, .next 1, .next 1, .next 1, .next 1, .next 0, .next 0, .next 0, .next 0,
    .next 0]

theorem lastNotice_disagrees :
    ¬(let s := Runs.run (step RecentMarks.State.examplePackages.content "@me" exampleDecrypt) .start
        exampleHeldUp
      s.Idle → ∀ notice, lastNotice "!a" "$1" s.notices = some notice →
        (notice.decrypted = some true ↔ Opened "!a" "$1" s.cache)) := by
  intro h
  have hlast : lastNotice "!a" "$1" (Runs.run (step RecentMarks.State.examplePackages.content "@me"
      exampleDecrypt) .start exampleHeldUp).notices = some ⟨"!a", "$1", some false⟩ := by
    decide +kernel
  have hstored : (findEvent (Runs.run (step RecentMarks.State.examplePackages.content "@me"
      exampleDecrypt) .start exampleHeldUp).cache.events "!a" "$1").bind EventRow.decrypted =
        some true := by
    decide +kernel
  have hopened := Option.bind_eq_some_iff.mp hstored
  have hidle := @idle_of_done RecentMarks.State.examplePackages.content "@me" exampleDecrypt
    exampleHeldUp (by decide +kernel)
  have hagrees := (h hidle _ hlast).mpr hopened
  cases hagrees

end State

end StoredDecryption
end WbfMatrixClient
