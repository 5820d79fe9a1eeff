import WbfMatrixClient.EventNumbers
import WbfMatrixClient.Lib.MixedOrder
import WbfMatrixClient.MessageView

/-!
# How far an account has read

For every room an account has one mark, the message up to which it has read. Setting it moves it to
a message that comes after it, and what counts as unread comes after it by the same comparison: by
the server's numbers if both messages have one, else by their time and the number of their row.

The two ways to compare need not agree. The comparison is an order on the messages of a room, and
what is shown to an account goes forward only, exactly if no message without a number lies between
two whose numbers are turned against their times.
-/

namespace WbfMatrixClient

structure ReadPositionRow where
  room : String
  user : String
  eventId : String

namespace ReadPositionRow

def key (row : ReadPositionRow) : String × String := (row.room, row.user)

end ReadPositionRow

/-- The cache, with the table of the read positions. -/
structure ReadCache where
  cache : Cache
  readPositions : List ReadPositionRow

structure ReadPosition where
  eventId : String
  rSeq : Option Int

structure Unread where
  count : Nat
  mentions : Nat
  readUpto : Option ReadPosition

namespace Cache

/-- The number of a row; rows are numbered in the order in which they come. -/
def eventNumber (cache : Cache) (row : EventRow) : Nat :=
  cache.events.findIdx fun other => other.key = row.key

def isAfterWatermark (cache : Cache) (e w : EventRow) : Bool :=
  match e.rSeq, w.rSeq with
  | some eSeq, some wSeq => wSeq < eSeq
  | _, _ =>
      w.originServerTs < e.originServerTs ∨
        (w.originServerTs = e.originServerTs ∧ cache.eventNumber w < cache.eventNumber e)

/-- What JSON holds at a path as one value is compared with one. -/
def isOne : Json → Bool
  | .bool b => b
  | .number n => n = 1
  | .decimal text => text = "1.0"
  | _ => false

/-- The values that are listed at a path, one by one. -/
def listed : Json → List Json
  | .array items => items
  | .object fields => fields.map Prod.snd
  | value => [value]

/-- The message is for the whole room or for this account. -/
def mentionsReader (user : String) (row : EventRow) : Bool :=
  match row.contentJson.bind (Json.get "m.mentions") with
  | none => false
  | some mentions =>
      (mentions.get "room").any isOne ||
        (mentions.get "user_ids").any fun ids => (listed ids).any fun id => id.asStr = some user

/-- A message that counts as unread, behind a mark or without one. -/
def isUnread (cache : Cache) (user room : String) (watermark : Option EventRow) (row : EventRow) :
    Bool :=
  row.room = room ∧ cache.readerHidden user row = some false ∧
    (row.eventClass = .msg ∨ row.eventClass = .general) ∧ row.isRedacted = false ∧
    row.sender ≠ user ∧ watermark.all (fun w => cache.isAfterWatermark row w)

end Cache

namespace ReadCache

def findWatermark (s : ReadCache) (user room : String) : Option EventRow :=
  match Table.find ReadPositionRow.key s.readPositions (room, user) with
  | none => none
  | some position => findEvent s.cache.events room position.eventId

def getReadPosition (s : ReadCache) (user room : String) : Option ReadPosition :=
  (s.findWatermark user room).map fun row => { eventId := row.eventId, rSeq := row.rSeq }

/-- The mark goes to the message if there is none or if the message is after it. -/
def setReadPosition (s : ReadCache) (user room eventId : String) :
    ReadCache × Except SdkError Bool :=
  let cache := (s.cache.userRowId user).roomRowId room
  match findEvent cache.events room eventId with
  | none =>
      (s, .error (.usage (eventId ++ " is not in the cache for " ++ user ++
        "; sync it before marking it read")))
  | some event =>
      if cache.hasSynced user event then
        match Table.find ReadPositionRow.key s.readPositions (room, user) with
        | none =>
            ({ cache := cache, readPositions := s.readPositions ++
                [{ room := room, user := user, eventId := eventId }] }, .ok true)
        | some position =>
            let moves := (findEvent cache.events room position.eventId).any fun w =>
              cache.isAfterWatermark event w
            if moves then
              ({ cache := cache
                 readPositions := Table.update ReadPositionRow.key s.readPositions (room, user)
                   fun row => { row with eventId := eventId } }, .ok true)
            else
              ({ s with cache := cache }, .ok false)
      else
        (s, .error (.usage (eventId ++ " is not in the cache for " ++ user ++
          "; sync it before marking it read")))

/-- The mark is read first, and what is counted is behind this very mark. -/
def getUnread (s : ReadCache) (user room : String) : Unread :=
  let watermark := s.findWatermark user room
  let unread := s.cache.events.filter (s.cache.isUnread user room watermark)
  { count := unread.length
    mentions := unread.countP (Cache.mentionsReader user)
    readUpto := s.getReadPosition user room }

end ReadCache

namespace ReadPositions

/-- An account marks a message as read. -/
structure Call where
  user : String
  room : String
  eventId : String

def step (s : ReadCache) (call : Call) : ReadCache :=
  (s.setReadPosition call.user call.room call.eventId).1

/-- What the marks are after a cache without any was told what was read. -/
def read (cache : Cache) (calls : List Call) : ReadCache :=
  Runs.run step { cache := cache, readPositions := [] } calls

/-- The messages of a room. -/
def roomRows (cache : Cache) (room : String) : Set EventRow :=
  {row | row ∈ cache.events ∧ row.room = room}

/-- The messages of a room that an account has synced. -/
def syncedRows (cache : Cache) (user room : String) : Set EventRow :=
  {row | row ∈ roomRows cache room ∧ cache.hasSynced user row = true}

/-- Where a message is, whatever its number. -/
def place (cache : Cache) (row : EventRow) : Int ×ₗ Nat :=
  toLex (row.originServerTs, cache.eventNumber row)

/-- No message without a number is, by time, between two whose numbers are turned. -/
def Straight (cache : Cache) (rows : Set EventRow) : Prop :=
  MixedOrder.Straight EventRow.rSeq (place cache) rows

/-- Reading goes forward: the marks depend only on what was read, they come to the last of it and
never go back, and what is read further leaves no more unread. -/
structure ReadsForward (cache : Cache) (user room : String) : Prop where
  order : ∀ calls calls',
    (∀ eventId, { user := user, room := room, eventId := eventId : Call } ∈ calls ↔
      { user := user, room := room, eventId := eventId : Call } ∈ calls') →
    (read cache calls).findWatermark user room = (read cache calls').findWatermark user room
  last : ∀ calls, ∀ row ∈ syncedRows cache user room,
    { user := user, room := room, eventId := row.eventId : Call } ∈ calls →
    ∃ w, (read cache calls).findWatermark user room = some w ∧
      (w = row ∨ cache.isAfterWatermark w row = true)
  forward : ∀ calls more w, (read cache calls).findWatermark user room = some w →
    ∃ w', (read cache (calls ++ more)).findWatermark user room = some w' ∧
      (w' = w ∨ cache.isAfterWatermark w' w = true)
  unread : ∀ calls more, ((read cache (calls ++ more)).getUnread user room).count ≤
    ((read cache calls).getUnread user room).count

section Order

variable {cache : Cache} {user room : String}

theorem isAfterWatermark_iff (e w : EventRow) :
    cache.isAfterWatermark e w = true ↔ MixedOrder.After EventRow.rSeq (place cache) e w := by
  cases he : e.rSeq with
  | none =>
    rw [MixedOrder.after_of_none_left he, place, place, Prod.Lex.toLex_lt_toLex]
    simp [Cache.isAfterWatermark, he]
  | some s =>
    cases hw : w.rSeq with
    | none =>
      rw [MixedOrder.after_of_none_right hw, place, place, Prod.Lex.toLex_lt_toLex]
      simp [Cache.isAfterWatermark, he, hw]
    | some t =>
      rw [MixedOrder.after_of_seqs he hw]
      simp [Cache.isAfterWatermark, he, hw]

theorem isAfterWatermark_congr {cache' : Cache} (h : cache'.events = cache.events) :
    cache'.isAfterWatermark = cache.isAfterWatermark := by
  have hnumber : cache'.eventNumber = cache.eventNumber := by
    funext row
    rw [Cache.eventNumber, Cache.eventNumber, h]
  funext e w
  rw [Cache.isAfterWatermark, Cache.isAfterWatermark, hnumber]

theorem eventNumber_inj (hkeyed : Table.Keyed EventRow.key cache.events) {a b : EventRow}
    (ha : a ∈ cache.events) (hb : b ∈ cache.events)
    (h : cache.eventNumber a = cache.eventNumber b) : a = b := by
  have hat : ∀ {row : EventRow}, row ∈ cache.events →
      ∃ hlt : cache.eventNumber row < cache.events.length,
        (cache.events[cache.eventNumber row]).key = row.key := by
    intro row hrow
    have hlt : cache.eventNumber row < cache.events.length :=
      List.findIdx_lt_length_of_exists ⟨row, hrow, decide_eq_true rfl⟩
    exact ⟨hlt, of_decide_eq_true (List.findIdx_getElem (w := hlt))⟩
  obtain ⟨hlta, hkeya⟩ := hat ha
  obtain ⟨hltb, hkeyb⟩ := hat hb
  refine hkeyed.eq_of_key ha hb (hkeya.symm.trans (Eq.trans ?_ hkeyb))
  simp only [h]

section

variable (h : EventNumbers.Numbered cache.events)

include h

theorem distinct_roomRows (room : String) :
    MixedOrder.Distinct EventRow.rSeq (place cache) (roomRows cache room) where
  place a ha b hb hplace :=
    eventNumber_inj h.keyed ha.1 hb.1 (Prod.mk.inj (toLex.injective hplace)).2
  seq a ha b hb s hsa hsb := by
    have hroom : a.room = b.room := ha.2.trans hb.2.symm
    exact h.keyed.eq_of_key ha.1 hb.1
      (Prod.ext hroom (h.seqs a ha.1 b hb.1 s hroom hsa hsb))

theorem distinct_syncedRows (user room : String) :
    MixedOrder.Distinct EventRow.rSeq (place cache) (syncedRows cache user room) where
  place := (distinct_roomRows h room).place.mono fun _ hrow => hrow.1
  seq a ha b hb := (distinct_roomRows h room).seq a ha.1 b hb.1

theorem ordered_of_straight (hstraight : Straight cache (syncedRows cache user room)) :
    MixedOrder.Ordered cache.isAfterWatermark (syncedRows cache user room) where
  asymm a b hab hba := by
    rw [isAfterWatermark_iff] at hab hba
    exact hab.asymm hba
  total a ha b hb hne := by
    rw [isAfterWatermark_iff, isAfterWatermark_iff]
    exact MixedOrder.after_or_after (distinct_syncedRows h user room) ha hb hne
  trans a ha b hb c hc hab hbc := by
    rw [isAfterWatermark_iff] at hab hbc ⊢
    exact MixedOrder.After.trans (distinct_syncedRows h user room) hstraight ha hb hc hab hbc

end

end Order

section Runs

variable {cache : Cache} {user room : String}

/-- The message that a call shows to a mark: one that the account has synced. -/
def shownBy (cache : Cache) (user room : String) (call : Call) : Option EventRow :=
  if call.user = user ∧ call.room = room then
    (findEvent cache.events room call.eventId).filter (cache.hasSynced user)
  else
    none

/-- The tables that are read are those of the cache, and every mark is at a message. -/
structure Marked (cache : Cache) (s : ReadCache) : Prop where
  events : s.cache.events = cache.events
  syncedLog : s.cache.syncedLog = cache.syncedLog
  there : ∀ user room position,
    Table.find ReadPositionRow.key s.readPositions (room, user) = some position →
    ∃ row, findEvent cache.events room position.eventId = some row

theorem hasSynced_congr {cache' : Cache} (h : cache'.syncedLog = cache.syncedLog) :
    cache'.hasSynced user = cache.hasSynced user := by
  funext row
  simp only [Cache.hasSynced, Cache.readerHidden, h]

theorem rows_syncedLog (cache : Cache) (user room : String) :
    ((cache.userRowId user).roomRowId room).syncedLog = cache.syncedLog := by
  unfold Cache.roomRowId Cache.userRowId
  split_ifs <;> rfl

/-- The mark that a call sets. -/
def markOf (call : Call) : ReadPositionRow :=
  { room := call.room, user := call.user, eventId := call.eventId }

/-- What a call comes to: it shows nothing and changes nothing, or it shows a message that the mark
stays before, or it sets the mark. -/
theorem step_cases {s : ReadCache} {call : Call} (h : Marked cache s) :
    (shownBy cache call.user call.room call = none ∧ step s call = s) ∨
      ∃ event, shownBy cache call.user call.room call = some event ∧
        findEvent cache.events call.room call.eventId = some event ∧
        (step s call).cache.events = cache.events ∧
        (step s call).cache.syncedLog = cache.syncedLog ∧
        ((∃ w, s.findWatermark call.user call.room = some w ∧
            cache.isAfterWatermark event w = false ∧
            (step s call).readPositions = s.readPositions) ∨
          ((∀ w, s.findWatermark call.user call.room = some w →
              cache.isAfterWatermark event w = true) ∧
            ∀ k, Table.find ReadPositionRow.key (step s call).readPositions k =
              if k = (call.room, call.user) then some (markOf call)
              else Table.find ReadPositionRow.key s.readPositions k)) := by
  have hevents := (EventNumbers.rows_events s.cache call.user call.room).trans h.events
  have hlog := (rows_syncedLog s.cache call.user call.room).trans h.syncedLog
  have hsynced : ((s.cache.userRowId call.user).roomRowId call.room).hasSynced call.user =
      cache.hasSynced call.user := hasSynced_congr hlog
  have hafter := isAfterWatermark_congr hevents
  have hshown : shownBy cache call.user call.room call =
      (findEvent cache.events call.room call.eventId).filter (cache.hasSynced call.user) :=
    if_pos ⟨rfl, rfl⟩
  rw [hshown]
  simp only [step, ReadCache.setReadPosition, hevents, hsynced, hafter]
  cases hfind : findEvent cache.events call.room call.eventId with
  | none => exact .inl ⟨rfl, rfl⟩
  | some event =>
    simp only
    by_cases hseen : cache.hasSynced call.user event = true
    · rw [if_pos hseen, Option.filter_some, if_pos hseen]
      refine .inr ⟨event, rfl, rfl, ?_⟩
      cases hposition : Table.find ReadPositionRow.key s.readPositions (call.room, call.user) with
      | none =>
        refine ⟨hevents, hlog, .inr ⟨fun w hw => ?_, fun k => ?_⟩⟩
        · rw [ReadCache.findWatermark, hposition] at hw
          cases hw
        · simp only [Table.find_append]
          by_cases hk : k = (call.room, call.user)
          · rw [hk, hposition, if_pos rfl]
            exact if_pos rfl
          · have hne : ReadPositionRow.key (markOf call) ≠ k := fun hkey => hk hkey.symm
            rw [if_neg hk]
            simp only [markOf] at hne
            rw [if_neg hne, Option.or_none]
      | some position =>
        obtain ⟨w, hw⟩ := h.there call.user call.room position hposition
        have hmark : s.findWatermark call.user call.room = some w := by
          rw [ReadCache.findWatermark, hposition]
          simp only
          rw [h.events, hw]
        simp only [hw, Option.any_some]
        cases hmoves : cache.isAfterWatermark event w with
        | false => exact ⟨hevents, hlog, .inl ⟨w, hmark, hmoves, rfl⟩⟩
        | true =>
          refine ⟨hevents, hlog, .inr ⟨fun w' hw' => ?_, fun k => ?_⟩⟩
          · rw [hmark] at hw'
            cases hw'
            exact hmoves
          · have hkey : ∀ row : ReadPositionRow,
                ReadPositionRow.key { row with eventId := call.eventId } = row.key :=
              fun _ => rfl
            by_cases hk : k = (call.room, call.user)
            · rw [if_pos hk, hk]
              simp only [if_true]
              rw [Table.find_update_self hkey, hposition]
              obtain ⟨-, hsame⟩ := Table.mem_of_find hposition
              obtain ⟨hroom, huser⟩ := Prod.mk.inj hsame
              rw [Option.map_some, hroom, huser]
              rfl
            · rw [if_neg hk]
              simp only [if_true]
              exact Table.find_update_ne hkey hk
    · rw [if_neg hseen, Option.filter_some, if_neg hseen]
      exact .inl ⟨rfl, rfl⟩

/-- The mark of an account in a room is shown what the calls show it. -/
theorem step_spec {s : ReadCache} {call : Call} (h : Marked cache s) :
    Marked cache (step s call) ∧ ∀ user room,
      (step s call).findWatermark user room =
        match shownBy cache user room call with
        | none => s.findWatermark user room
        | some row =>
          MixedOrder.advance cache.isAfterWatermark (s.findWatermark user room) row := by
  have hother : ∀ user room, (room, user) ≠ (call.room, call.user) →
      shownBy cache user room call = none := fun user room hne =>
    if_neg fun hsame => hne (Prod.ext hsame.2.symm hsame.1.symm)
  rcases step_cases h with ⟨hshown, hstep⟩ |
    ⟨event, hshown, hfind, hevents, hlog, ⟨w, hmark, hbefore, hsame⟩ | ⟨hafter, hset⟩⟩
  · rw [hstep]
    refine ⟨h, fun user room => ?_⟩
    by_cases hk : (room, user) = (call.room, call.user)
    · obtain ⟨rfl, rfl⟩ := Prod.mk.inj hk
      rw [hshown]
    · rw [hother user room hk]
  · refine ⟨⟨hevents, hlog, by rw [hsame]; exact h.there⟩, fun user room => ?_⟩
    have hstill : (step s call).findWatermark user room = s.findWatermark user room := by
      rw [ReadCache.findWatermark, ReadCache.findWatermark, hsame, hevents, h.events]
    rw [hstill]
    by_cases hk : (room, user) = (call.room, call.user)
    · obtain ⟨rfl, rfl⟩ := Prod.mk.inj hk
      rw [hshown, hmark]
      simp [MixedOrder.advance, hbefore]
    · rw [hother user room hk]
  · refine ⟨⟨hevents, hlog, fun user room position hposition => ?_⟩, fun user room => ?_⟩
    · rw [hset] at hposition
      by_cases hk : (room, user) = (call.room, call.user)
      · rw [if_pos hk] at hposition
        cases hposition
        obtain ⟨rfl, rfl⟩ := Prod.mk.inj hk
        exact ⟨event, hfind⟩
      · rw [if_neg hk] at hposition
        exact h.there user room position hposition
    · rw [ReadCache.findWatermark, hset]
      by_cases hk : (room, user) = (call.room, call.user)
      · rw [if_pos hk]
        obtain ⟨rfl, rfl⟩ := Prod.mk.inj hk
        simp only [hevents, markOf, hfind, hshown]
        cases hmark : s.findWatermark call.user call.room with
        | none => rfl
        | some w => simp [MixedOrder.advance, hafter w hmark]
      · rw [if_neg hk, hother user room hk, ReadCache.findWatermark, hevents, h.events]

/-- The messages that calls show to a mark. -/
def shown (cache : Cache) (user room : String) (calls : List Call) : List EventRow :=
  calls.filterMap (shownBy cache user room)

theorem run_spec (user room : String) :
    ∀ (calls : List Call) {s : ReadCache}, Marked cache s →
      Marked cache (Runs.run step s calls) ∧
        (Runs.run step s calls).findWatermark user room =
          MixedOrder.walk cache.isAfterWatermark (s.findWatermark user room)
            (shown cache user room calls) := by
  intro calls
  induction calls with
  | nil =>
    intro s hs
    exact ⟨hs, rfl⟩
  | cons call calls ih =>
    intro s hs
    obtain ⟨hnext, hmark⟩ := step_spec hs
    obtain ⟨hall, hwalk⟩ := ih hnext
    refine ⟨hall, ?_⟩
    rw [Runs.run_cons, hwalk, hmark user room]
    simp only [shown, List.filterMap_cons]
    cases shownBy cache user room call <;> rfl

theorem marked_start (cache : Cache) :
    Marked cache { cache := cache, readPositions := [] } := ⟨rfl, rfl, fun _ _ _ h => by cases h⟩

theorem marked_read (cache : Cache) (calls : List Call) :
    Marked cache (read cache calls) := (run_spec "" "" calls (marked_start cache)).1

theorem findWatermark_read (cache : Cache) (user room : String) (calls : List Call) :
    (read cache calls).findWatermark user room =
      MixedOrder.walk cache.isAfterWatermark none (shown cache user room calls) :=
  (run_spec user room calls (marked_start cache)).2

theorem shown_append (calls more : List Call) :
    shown cache user room (calls ++ more) =
      shown cache user room calls ++ shown cache user room more := List.filterMap_append

/-- What is shown are messages that the account has synced, each by a call that names it. -/
theorem mem_shown_iff (hkeyed : Table.Keyed EventRow.key cache.events) {calls : List Call}
    {row : EventRow} :
    row ∈ shown cache user room calls ↔ row ∈ syncedRows cache user room ∧
      { user := user, room := room, eventId := row.eventId : Call } ∈ calls := by
  rw [shown, List.mem_filterMap]
  constructor
  · rintro ⟨call, hcall, hshown⟩
    unfold shownBy at hshown
    split_ifs at hshown with hsame
    obtain ⟨hfind, hseen⟩ := Option.filter_eq_some_iff.mp hshown
    obtain ⟨hrow, hkey⟩ := Table.mem_of_find hfind
    obtain ⟨hroom, hid⟩ := Prod.mk.inj hkey
    refine ⟨⟨⟨hrow, hroom⟩, hseen⟩, ?_⟩
    rw [hid, ← hsame.1, ← hsame.2]
    exact hcall
  · rintro ⟨⟨⟨hrow, hroom⟩, hseen⟩, hcall⟩
    refine ⟨_, hcall, ?_⟩
    have hfind : findEvent cache.events room row.eventId = some row :=
      hkeyed.find_eq_some_iff.mpr ⟨hrow, Prod.ext hroom rfl⟩
    rw [shownBy, if_pos ⟨rfl, rfl⟩, hfind]
    exact Option.filter_eq_some_iff.mpr ⟨rfl, hseen⟩

theorem shown_synced (hkeyed : Table.Keyed EventRow.key cache.events) (calls : List Call) :
    ∀ row ∈ shown cache user room calls, row ∈ syncedRows cache user room :=
  fun _ hrow => ((mem_shown_iff hkeyed).mp hrow).1

end Runs

section Forward

variable {cache : Cache} {user room : String}

/-- A mark of a run is at a message that the account has synced. -/
theorem synced_of_findWatermark (hkeyed : Table.Keyed EventRow.key cache.events) {calls : List Call}
    {w : EventRow} (h : (read cache calls).findWatermark user room = some w) :
    w ∈ syncedRows cache user room := by
  rw [findWatermark_read] at h
  rcases MixedOrder.mem_of_walk h with hnone | hmem
  · cases hnone
  · exact shown_synced hkeyed calls w hmem

/-- What is behind a later mark is behind the earlier one. -/
theorem isUnread_of_later
    (hordered : MixedOrder.Ordered cache.isAfterWatermark (syncedRows cache user room))
    {mark : Option EventRow} {w' row : EventRow}
    (hmark : ∀ w, mark = some w → w ∈ syncedRows cache user room ∧ MixedOrder.NotBefore
      cache.isAfterWatermark w' w) (hw' : w' ∈ syncedRows cache user room)
    (hrow : row ∈ cache.events) (h : cache.isUnread user room (some w') row = true) :
    cache.isUnread user room mark row = true := by
  obtain ⟨hroom, hseen, hclass, hlive, hsender, hafter⟩ := of_decide_eq_true h
  refine decide_eq_true ⟨hroom, hseen, hclass, hlive, hsender, ?_⟩
  cases mark with
  | none => rfl
  | some w =>
    obtain ⟨hw, hnot⟩ := hmark w rfl
    have hsynced : row ∈ syncedRows cache user room :=
      ⟨⟨hrow, hroom⟩, by rw [Cache.hasSynced, hseen]; rfl⟩
    rcases hnot with rfl | hlater
    · exact hafter
    · exact hordered.trans row hsynced w' hw' w hw hafter hlater

theorem getUnread_read (cache : Cache) (calls : List Call) :
    ((read cache calls).getUnread user room).count =
      (cache.events.filter
        (cache.isUnread user room ((read cache calls).findWatermark user room))).length := by
  have hmarked := marked_read cache calls
  have hunread : (read cache calls).cache.isUnread = cache.isUnread := by
    have hhidden : (read cache calls).cache.readerHidden = cache.readerHidden := by
      funext user row
      rw [Cache.readerHidden, Cache.readerHidden, hmarked.syncedLog]
    funext user room mark row
    rw [Bool.eq_iff_iff]
    simp only [Cache.isUnread, decide_eq_true_eq, hhidden, isAfterWatermark_congr hmarked.events]
  simp only [ReadCache.getUnread, hunread, hmarked.events]

theorem readsForward_of_straight (h : EventNumbers.Numbered cache.events)
    (hstraight : Straight cache (syncedRows cache user room)) : ReadsForward cache user room := by
  have hordered := ordered_of_straight h hstraight
  have hnone : ∀ w, (none : Option EventRow) = some w → w ∈ syncedRows cache user room :=
    fun w hw => by cases hw
  have hfurther : ∀ calls more w, (read cache calls).findWatermark user room = some w →
      ∃ w' ∈ syncedRows cache user room,
        (read cache (calls ++ more)).findWatermark user room = some w' ∧
          MixedOrder.NotBefore cache.isAfterWatermark w' w := by
    intro calls more w hw
    have hsynced := synced_of_findWatermark h.keyed hw
    rw [findWatermark_read] at hw ⊢
    rw [shown_append, MixedOrder.walk_append, hw]
    have hmark : ∀ x, some w = some x → x ∈ syncedRows cache user room :=
      fun x hx => Option.some.inj hx ▸ hsynced
    obtain ⟨w', hw', hwalk, hforward, -⟩ := hordered.walk_spec hmark (shown_synced h.keyed more)
      (.inl (Option.some_ne_none w))
    exact ⟨w', hw', hwalk, hforward w rfl⟩
  constructor
  · intro calls calls' hsame
    rw [findWatermark_read, findWatermark_read]
    refine hordered.walk_eq hnone (shown_synced h.keyed calls) fun row => ?_
    rw [mem_shown_iff h.keyed, mem_shown_iff h.keyed, hsame row.eventId]
  · intro calls row hrow hcall
    have hmem : row ∈ shown cache user room calls := (mem_shown_iff h.keyed).mpr ⟨hrow, hcall⟩
    obtain ⟨w, -, hwalk, -, hall⟩ := hordered.walk_spec hnone (shown_synced h.keyed calls)
      (.inr (List.ne_nil_of_mem hmem))
    rw [findWatermark_read]
    exact ⟨w, hwalk, hall row hmem⟩
  · intro calls more w hw
    obtain ⟨w', -, hmark, hnot⟩ := hfurther calls more w hw
    exact ⟨w', hmark, hnot⟩
  · intro calls more
    rw [getUnread_read, getUnread_read, ← List.countP_eq_length_filter,
      ← List.countP_eq_length_filter]
    refine List.countP_mono_left fun row hrow hunread => ?_
    cases hlater : (read cache (calls ++ more)).findWatermark user room with
    | none =>
      cases hw : (read cache calls).findWatermark user room with
      | none =>
        rw [hlater] at hunread
        exact hunread
      | some w =>
        obtain ⟨w', -, hmark, -⟩ := hfurther calls more w hw
        rw [hlater] at hmark
        cases hmark
    | some w' =>
      rw [hlater] at hunread
      refine isUnread_of_later hordered (fun w hw => ?_)
        (synced_of_findWatermark h.keyed hlater) hrow hunread
      obtain ⟨later, -, hmark, hnot⟩ := hfurther calls more w hw
      rw [hlater] at hmark
      cases hmark
      exact ⟨synced_of_findWatermark h.keyed hw, hnot⟩

/-- Around a circle the mark comes to where it was shown last. -/
theorem not_readsForward_of_circle (h : EventNumbers.Numbered cache.events)
    (hnot : ¬Straight cache (syncedRows cache user room)) : ¬ReadsForward cache user room := by
  intro hforward
  obtain ⟨a, ha, b, hb, c, hc, hba, hcb, hac⟩ :=
    MixedOrder.exists_circle (distinct_syncedRows h user room) hnot
  rw [← isAfterWatermark_iff] at hba hcb hac
  let call (row : EventRow) : Call := { user := user, room := room, eventId := row.eventId }
  have hshown : ∀ {row : EventRow}, row ∈ syncedRows cache user room →
      shownBy cache user room (call row) = some row := by
    rintro row ⟨⟨hrow, hroom⟩, hseen⟩
    have hfind : findEvent cache.events room row.eventId = some row :=
      h.keyed.find_eq_some_iff.mpr ⟨hrow, Prod.ext hroom rfl⟩
    rw [shownBy, if_pos ⟨rfl, rfl⟩, hfind]
    exact Option.filter_eq_some_iff.mpr ⟨rfl, hseen⟩
  obtain ⟨hfirst, hsecond⟩ := MixedOrder.walk_circle hba hcb hac
  have hsame := hforward.order [call a, call b, call c] [call b, call c, call a] fun eventId => by
    simp only [List.mem_cons, List.not_mem_nil, or_false]
    exact ⟨fun h => or_assoc.mp (or_comm.mp h), fun h => or_comm.mp (or_assoc.mpr h)⟩
  rw [findWatermark_read, findWatermark_read] at hsame
  simp only [shown, List.filterMap_cons, List.filterMap_nil, hshown ha, hshown hb, hshown hc,
    hfirst, hsecond, Option.some.injEq] at hsame
  rw [hsame, isAfterWatermark_iff] at hac
  exact MixedOrder.After.irrefl a hac

end Forward

/-- In every cache that can be reached: the comparison orders the messages of a room exactly if they
are straight, and what an account reads there goes forward exactly if those are that it has synced. -/
theorem read_marks_order_iff (packages : CachePackages) (operations : List Operation)
    (room : String) :
    let cache := Runs.run (Cache.step packages) Cache.empty operations
    (IsStrictTotalOrder {row // row ∈ roomRows cache room}
        (fun e w => cache.isAfterWatermark e.1 w.1 = true) ↔ Straight cache (roomRows cache room)) ∧
      ∀ user, ReadsForward cache user room ↔ Straight cache (syncedRows cache user room) := by
  intro cache
  have hnumbered : EventNumbers.Numbered cache.events :=
    EventNumbers.run_numbered packages operations
  constructor
  · simp only [isAfterWatermark_iff]
    exact MixedOrder.isStrictTotalOrder_iff (distinct_roomRows hnumbered room)
  · intro user
    constructor
    · intro hforward
      by_contra hnot
      exact not_readsForward_of_circle hnumbered hnot hforward
    · exact readsForward_of_straight hnumbered

/-- A text that the server has numbered or not. -/
def textEvent (eventId : String) (seq : Option Int) (ts : Int) : IncomingEvent :=
  .plain (.object
    [("event_id", .string eventId), ("sender", .string "@bob:example.org"),
      ("type", .string "m.room.message"), ("origin_server_ts", .number ts),
      ("content", .object [("msgtype", .string "m.text"), ("body", .string "hello")]),
      ("unsigned", .object (seq.toList.map fun n => ("org.wbftw.wbfuwunel.r_seq", .number n)))])

/-- The clocks of two numbered messages are turned, and one without a number is between them. -/
def turnedOperations : List Operation :=
  [.upsertEvents "@alice:example.org" "!room:example.org"
    [textEvent "$a" (some 2) 10, textEvent "$b" none 20, textEvent "$c" (some 1) 30]]

def exampleCachePackages : CachePackages where
  content := { blockFromJson := fun _ => .error "", quoted := id }
  number := { parseU64 := fun _ => none, parseI64 := fun _ => none }

theorem turned_rows :
    (Runs.run (Cache.step exampleCachePackages) Cache.empty turnedOperations).events.map
        (fun row => (row.room, row.rSeq, row.originServerTs)) =
      [("!room:example.org", some 2, 10), ("!room:example.org", none, 20),
        ("!room:example.org", some 1, 30)] := by decide +kernel

theorem read_marks_circle :
    ¬∀ (packages : CachePackages) (operations : List Operation) (room user : String),
      let cache := Runs.run (Cache.step packages) Cache.empty operations
      IsStrictTotalOrder {row // row ∈ roomRows cache room}
          (fun e w => cache.isAfterWatermark e.1 w.1 = true) ∧
        ReadsForward cache user room := by
  intro h
  have horder := (h exampleCachePackages turnedOperations "!room:example.org"
    "@alice:example.org").1
  have hrows := turned_rows
  generalize Runs.run (Cache.step exampleCachePackages) Cache.empty turnedOperations = cache
    at horder hrows
  obtain ⟨a, rest, hevents, ha, hrest⟩ := List.map_eq_cons_iff.mp hrows
  obtain ⟨b, rest', rfl, hb, hrest'⟩ := List.map_eq_cons_iff.mp hrest
  obtain ⟨c, rest'', rfl, hc, -⟩ := List.map_eq_cons_iff.mp hrest'
  simp only [Prod.mk.injEq] at ha hb hc
  have hin : a ∈ cache.events ∧ b ∈ cache.events ∧ c ∈ cache.events := by
    rw [hevents]
    simp
  have hba : cache.isAfterWatermark b a = true := by simp [Cache.isAfterWatermark, ha, hb]
  have hcb : cache.isAfterWatermark c b = true := by simp [Cache.isAfterWatermark, hb, hc]
  have hca : ¬cache.isAfterWatermark c a = true := by simp [Cache.isAfterWatermark, ha, hc]
  exact hca (horder.trans (⟨c, hin.2.2, hc.1⟩ : {row // row ∈ roomRows cache "!room:example.org"})
    ⟨b, hin.2.1, hb.1⟩ ⟨a, hin.1, ha.1⟩ hcb hba)

end ReadPositions
end WbfMatrixClient
