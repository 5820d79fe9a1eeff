import WbfMatrixClient.EventConvergence

/-!
# No event and no number twice

An event is stored once, and in a room the server's number of an event is given once: a delivery
that would give it again fails. What marks rows gives no numbers, and what forgets only takes rows
away, so this holds of every cache that its operations come to.
-/

namespace WbfMatrixClient
namespace EventNumbers

open EventPointers

structure Numbered (events : List EventRow) : Prop where
  keyed : Table.Keyed EventRow.key events
  seqs : ∀ a ∈ events, ∀ b ∈ events, ∀ s, a.room = b.room → a.rSeq = some s → b.rSeq = some s →
    a.eventId = b.eventId

/-- What the number of an event is given to. -/
def numbers (row : EventRow) : (String × String) × Option Int :=
  (row.key, row.rSeq)

theorem Numbered.eq_of_rSeq {events : List EventRow} (h : Numbered events) {a b : EventRow}
    (ha : a ∈ events) (hb : b ∈ events) (hroom : a.room = b.room) (hsome : a.rSeq.isSome = true)
    (hsame : a.rSeq = b.rSeq) : a = b := by
  obtain ⟨number, hnumber⟩ := Option.isSome_iff_exists.mp hsome
  have hid := h.seqs a ha b hb number hroom hnumber (hsame.symm.trans hnumber)
  exact h.keyed.eq_of_key ha hb (Prod.ext hroom hid)

def SameNumbers (events events' : List EventRow) : Prop :=
  events'.map numbers = events.map numbers

theorem updateEvent_sameNumbers {f : EventRow → EventRow} (events : List EventRow)
    (room eventId : String) (hf : ∀ row, numbers (f row) = numbers row) :
    SameNumbers events (updateEvent events room eventId f) := by
  rw [SameNumbers, updateEvent, Table.update, List.map_map]
  refine List.map_congr_left fun row _ => ?_
  simp only [Function.comp]
  split_ifs
  · exact hf row
  · rfl

theorem sameNumbers_marking :
    Marking SameNumbers where
  refl _ := rfl
  trans h h' := h'.trans h
  setProcessed events room eventId := updateEvent_sameNumbers events room eventId fun _ => rfl
  setRedacted events room eventId _ := updateEvent_sameNumbers events room eventId fun _ => rfl
  setCurrentEdit events room target _ _ :=
    updateEvent_sameNumbers events room target fun row => by split_ifs <;> rfl

namespace Numbered

variable {events events' : List EventRow}

theorem of_sameNumbers (h : Numbered events) (hsame : SameNumbers events events') :
    Numbered events' := by
  have hback : ∀ row' ∈ events', ∃ row ∈ events, numbers row = numbers row' := by
    intro row' hrow'
    have hmem : numbers row' ∈ events.map numbers := hsame ▸ List.mem_map_of_mem hrow'
    exact List.mem_map.mp hmem
  constructor
  · have hkeys := congrArg (List.map Prod.fst) hsame
    rw [List.map_map, List.map_map] at hkeys
    have hmap : events'.map EventRow.key = events.map EventRow.key := hkeys
    rw [Table.Keyed, hmap]
    exact h.keyed
  · intro a' ha' b' hb' s hroom hsa hsb
    obtain ⟨a, ha, hna⟩ := hback a' ha'
    obtain ⟨b, hb, hnb⟩ := hback b' hb'
    simp only [numbers, EventRow.key, Prod.mk.injEq] at hna hnb
    obtain ⟨⟨hra, hia⟩, hqa⟩ := hna
    obtain ⟨⟨hrb, hib⟩, hqb⟩ := hnb
    rw [← hia, ← hib]
    exact h.seqs a ha b hb s (hra.trans (hroom.trans hrb.symm)) (hqa.trans hsa) (hqb.trans hsb)

theorem filter (h : Numbered events) (p : EventRow → Bool) :
    Numbered (events.filter p) :=
  ⟨h.keyed.filter p, fun a ha b hb =>
    h.seqs a (List.mem_of_mem_filter ha) b (List.mem_of_mem_filter hb)⟩

/-- Nobody else in the room has the number. -/
theorem free_of_not_seqTaken {room eventId : String} {seq : Option Int}
    (h : Cache.seqTaken events room eventId seq = false) {row : EventRow} (hrow : row ∈ events)
    (hroom : row.room = room) {s : Int} (hseq : seq = some s) (hs : row.rSeq = some s) :
    row.eventId = eventId := by
  by_contra hne
  rw [Cache.seqTaken, List.any_eq_false] at h
  exact h row hrow (decide_eq_true ⟨hroom, hne, by rw [hs]; rfl, by rw [hs, hseq]⟩)

theorem append (h : Numbered events) {row : EventRow}
    (hnew : findEvent events row.room row.eventId = none)
    (hfree : Cache.seqTaken events row.room row.eventId row.rSeq = false) :
    Numbered (events ++ [row]) := by
  refine ⟨h.keyed.append hnew, fun a ha b hb s hroom hsa hsb => ?_⟩
  rcases List.mem_append.mp ha with ha | ha
  · rcases List.mem_append.mp hb with hb | hb
    · exact h.seqs a ha b hb s hroom hsa hsb
    · rw [List.mem_singleton.mp hb] at hroom hsb ⊢
      exact free_of_not_seqTaken hfree ha hroom hsb hsa
  · rw [List.mem_singleton.mp ha] at hroom hsa ⊢
    rcases List.mem_append.mp hb with hb | hb
    · exact (free_of_not_seqTaken hfree hb hroom.symm hsa hsb).symm
    · rw [List.mem_singleton.mp hb]

/-- A number is filled in only where there is none and nobody else has it. -/
theorem fillRow (h : Numbered events) {room eventId : String} {stored : EventRow}
    {incoming : IncomingEvent} (hstored : findEvent events room eventId = some stored)
    (hfree : stored.rSeq = none → Cache.seqTaken events room eventId incoming.seqs.1 = false) :
    Numbered (updateEvent events room eventId (Cache.fillRow incoming)) := by
  obtain ⟨hmem, hkey⟩ := Table.mem_of_find hstored
  refine ⟨h.keyed.update fun _ => rfl, fun a ha b hb s hroom hsa hsb => ?_⟩
  -- a row that is filled is the stored one
  have hfilled : ∀ row ∈ events, row.key = (room, eventId) → row = stored := fun row hrow hk =>
    h.keyed.eq_of_key hrow hmem (hk.trans hkey.symm)
  have hold : ∀ row ∈ events, row.room = room → row.rSeq = some s →
      (Cache.fillRow incoming stored).rSeq = some s → row.eventId = eventId := by
    intro row hrow hrowRoom hseq hfill
    cases hnone : stored.rSeq with
    | none =>
      rw [Cache.fillRow, hnone, Option.none_or] at hfill
      exact free_of_not_seqTaken (hfree hnone) hrow hrowRoom hfill hseq
    | some s' =>
      rw [Cache.fillRow, hnone, Option.some_or] at hfill
      have hstoredRoom : stored.room = room := congrArg Prod.fst hkey
      rw [h.seqs row hrow stored hmem s (hrowRoom.trans hstoredRoom.symm) hseq
        (hnone.trans hfill)]
      exact congrArg Prod.snd hkey
  rcases Table.mem_update.mp ha with ⟨hina, -⟩ | ⟨a, hina, hka, rfl⟩
  · rcases Table.mem_update.mp hb with ⟨hinb, -⟩ | ⟨b, hinb, hkb, rfl⟩
    · exact h.seqs a hina b hinb s hroom hsa hsb
    · have hsame : b = stored := hfilled b hinb hkb
      rw [hsame] at hsb hkb hroom ⊢
      have hroom' : a.room = room := hroom.trans (congrArg Prod.fst hkb)
      exact (hold a hina hroom' hsa hsb).trans (congrArg Prod.snd hkb).symm
  · have hsame : a = stored := hfilled a hina hka
    rw [hsame] at hsa hka hroom ⊢
    rcases Table.mem_update.mp hb with ⟨hinb, -⟩ | ⟨b, hinb, hkb, rfl⟩
    · have hroom' : b.room = room := hroom.symm.trans (congrArg Prod.fst hka)
      exact (congrArg Prod.snd hka).trans (hold b hinb hroom' hsb hsa).symm
    · exact (congrArg Prod.snd hka).trans (congrArg Prod.snd hkb).symm

end Numbered

/-- What the operations of a cache keep. -/
def Keeps (a b : Cache) : Prop :=
  Numbered a.events → Numbered b.events

theorem Keeps.of_events {a b : Cache} (h : b.events = a.events) : Keeps a b := by
  intro hnumbered
  rw [h]
  exact hnumbered

section Storing

variable {packages : ContentPackages} {room eventId : String}

variable {cache : Cache}

theorem processEvent_keeps {processed : Cache}
    (h : Cache.processEvent packages room eventId cache = some processed) :
    Keeps cache processed := by
  obtain ⟨_, rfl⟩ | ⟨row, _, hprocessed⟩ := Cache.processEvent_cases h
  · exact id
  · intro hnumbered
    rw [hprocessed]
    exact hnumbered.of_sameNumbers (sameNumbers_marking.applyRelations room cache.events row)

theorem storeEvent_keeps {sender : String} {incoming : IncomingEvent} {stored : Cache}
    (h : Cache.storeEvent packages room eventId sender incoming cache = some stored) :
    Keeps cache stored := by
  intro hnumbered
  obtain ⟨hfind, htaken, hprocess⟩ | ⟨row, hfind, htaken, hstored⟩ := Cache.storeEvent_cases h
  · exact processEvent_keeps hprocess (hnumbered.append hfind htaken)
  · have hfilled := hnumbered.fillRow hfind htaken
    obtain ⟨_, _, hprocess⟩ | ⟨_, rfl⟩ := hstored
    · exact processEvent_keeps hprocess
        (hfilled.of_sameNumbers (updateEvent_sameNumbers _ room eventId fun _ => rfl))
    · exact hfilled

theorem upsertEvent_keeps {user : String} {incoming : IncomingEvent} {result : Cache × Bool}
    (h : Cache.upsertEvent packages user room cache incoming = some result) :
    Keeps cache result.1 := by
  intro hnumbered
  obtain ⟨_, rfl⟩ | ⟨id, sender, stored, _, hstored, rfl⟩ := Cache.upsertEvent_cases h
  · exact hnumbered
  · rw [Cache.logSynced_events, Cache.markEncrypted_events]
    refine storeEvent_keeps hstored ?_
    rw [Cache.userRowId_events]
    exact hnumbered

theorem upsertEvents_keeps (user : String) (cache : Cache) (events : List IncomingEvent) :
    Keeps cache (Cache.upsertEvents packages user room cache events) := by
  intro hnumbered
  refine Cache.upsertEvents_induction (motive := fun reached => Numbered reached.events)
    (fun _ _ _ _ hone => upsertEvent_keeps hone) ?_ hnumbered
  rw [Cache.roomRowId_events, Cache.userRowId_events]
  exact hnumbered

end Storing

theorem forgetAccount_keeps (cache : Cache) (user : String) :
    Keeps cache (cache.forgetAccount user).1 := by
  intro hnumbered
  rw [Cache.forgetAccount]
  split_ifs
  · exact hnumbered.filter _
  · exact hnumbered

theorem forgetRoom_keeps (cache : Cache) (user room : String) :
    Keeps cache (cache.forgetRoom user room).1 := by
  intro hnumbered
  rw [Cache.forgetRoom]
  dsimp only
  split_ifs
  all_goals first
    | exact hnumbered
    | exact hnumbered.filter _

theorem foldl_events {ι : Type} {f : Cache → ι → Cache}
    (hf : ∀ cache i, (f cache i).events = cache.events) :
    ∀ (items : List ι) (cache : Cache), (items.foldl f cache).events = cache.events :=
  fun items cache =>
    List.foldlRecOn (motive := fun reached => reached.events = cache.events) items f rfl
      fun reached hreached i _ => (hf reached i).trans hreached

theorem rows_events (cache : Cache) (user roomId : String) :
    ((cache.userRowId user).roomRowId roomId).events = cache.events := by
  rw [Cache.roomRowId_events, Cache.userRowId_events]

theorem recordWrittenState_events (packages : NumberPackages) (cache : Cache) (user roomId : String)
    (written : Json) :
    (cache.recordWrittenState packages user roomId written).1.events = cache.events := by
  rw [Cache.recordWrittenState]
  split <;> split_ifs <;> exact rows_events cache user roomId

theorem applyInviteRound_events (cache : Cache) (user : String) (round : List (Nat × InviteItem))
    (touched : List (String × Nat)) (departed : List (String × Membership)) :
    (cache.applyInviteRound user round touched departed).events = cache.events := by
  refine (foldl_events ?_ round _).trans (Cache.userRowId_events cache user)
  rintro cache ⟨count, invite⟩
  simp only
  split_ifs
  · rfl
  · exact rows_events cache user invite.roomId

theorem step_keeps (packages : CachePackages) (cache : Cache) (operation : Operation) :
    Keeps cache (cache.step packages operation) := by
  have hmedia (h : operation.onMedia = true) : Keeps cache (cache.step packages operation) :=
    Keeps.of_events (congrArg Cache.events (Cache.step_onMedia packages cache h) :)
  cases operation with
  | upsertEvents user room events => exact upsertEvents_keeps user cache events
  | hideMessage user room eventId => exact Keeps.of_events rfl
  | mediaBegin mxc description | mediaRememberSource manifest sourceUri => exact hmedia rfl
  | mediaProgress mxc segmentsWritten chunkSize => exact hmedia rfl
  | mediaFinish mxc poolFile segmentsWritten fileSize bytesOnDisk verified => exact hmedia rfl
  | mediaReset mxc | mediaLinkEvent user room eventId | mediaDelete mxc => exact hmedia rfl
  | upsertConversations user conversations =>
    refine Keeps.of_events ((foldl_events (fun cache conversation => ?_) conversations _).trans
      (Cache.userRowId_events cache user))
    exact Cache.roomRowId_events cache conversation.id
  | recordJoinedRooms user roomIds =>
    refine Keeps.of_events ((foldl_events (fun cache roomId => ?_) roomIds _).trans
      (Cache.userRowId_events cache user))
    exact Cache.roomRowId_events cache roomId
  | recordRoomEncryption roomId encrypted =>
    exact Keeps.of_events (Cache.roomRowId_events cache roomId)
  | recordMembership user roomId membership onlyIfNow =>
    refine Keeps.of_events ?_
    cases onlyIfNow <;> exact rows_events cache user roomId
  | recordInvite user invite => exact Keeps.of_events (rows_events cache user invite.roomId)
  | applyInviteRound user round touched departed =>
    exact Keeps.of_events (applyInviteRound_events cache user round touched departed)
  | recordWrittenState user roomId written =>
    exact Keeps.of_events (recordWrittenState_events packages.number cache user roomId written)
  | forgetAccount user => exact forgetAccount_keeps cache user
  | forgetRoom user room => exact forgetRoom_keeps cache user room

theorem run_numbered (packages : CachePackages) (operations : List Operation) :
    Numbered (Runs.run (Cache.step packages) Cache.empty operations).events := by
  refine Runs.run_invariant (fun cache => Numbered cache.events)
    (fun cache operation h => step_keeps packages cache operation h) operations Cache.empty
    ⟨?_, fun a ha => (by cases ha)⟩
  simp [Table.Keyed, Cache.empty]

section Refusals

variable {packages : ContentPackages} {user room : String} {cache : Cache}

/-- What an event says of its media is always taken. -/
theorem processEvent_isSome (eventId : String) :
    (Cache.processEvent packages room eventId cache).isSome = true := by
  rw [Cache.processEvent]
  cases findEvent cache.events room eventId with
  | none => rfl
  | some row =>
    simp only [Option.isSome_map]
    split_ifs
    · rw [Cache.linkMediaOf]
      cases hmedia : mediaOf packages row.eventType row.contentJson with
      | none => rfl
      | some found =>
        obtain ⟨mxc, description⟩ := found
        simp only [mediaRowId, mediaOf_isValid hmedia, if_true]
        cases Table.find MediaRow.mxc cache.media mxc <;> rfl
    · rfl

/-- The number that is delivered is the number of another event, and the event has none yet. -/
def Refuses (room : String) (cache : Cache) (incoming : IncomingEvent) : Prop :=
  ∃ eventId sender, Cache.storable room incoming = some (eventId, sender) ∧
    Cache.seqTaken cache.events room eventId incoming.seqs.1 = true ∧
    ∀ stored, findEvent cache.events room eventId = some stored → stored.rSeq = none

theorem storeEvent_eq_none_iff {eventId sender : String} {incoming : IncomingEvent} :
    Cache.storeEvent packages room eventId sender incoming cache = none ↔
      Cache.seqTaken cache.events room eventId incoming.seqs.1 = true ∧
        ∀ stored, findEvent cache.events room eventId = some stored → stored.rSeq = none := by
  have hprocess : ∀ reached : Cache,
      Cache.processEvent packages room eventId reached ≠ none := fun reached hnone => by
    have hsome : (Cache.processEvent packages room eventId reached).isSome = true :=
      processEvent_isSome eventId
    rw [hnone] at hsome
    cases hsome
  rw [Cache.storeEvent]
  cases findEvent cache.events room eventId with
  | none =>
    simp only
    split_ifs with htaken
    · exact iff_of_true rfl ⟨htaken, fun _ hnone => by cases hnone⟩
    · exact iff_of_false (hprocess _) fun hboth => htaken hboth.1
  | some stored =>
    simp only
    split_ifs with htaken
    · refine iff_of_true rfl ⟨htaken.2, fun _ hsame => ?_⟩
      cases hsame
      exact htaken.1
    · exact iff_of_false (hprocess _) fun hboth => htaken ⟨hboth.2 stored rfl, hboth.1⟩
    · exact iff_of_false id fun hboth => htaken ⟨hboth.2 stored rfl, hboth.1⟩

theorem upsertEvent_eq_none_iff {incoming : IncomingEvent} :
    Cache.upsertEvent packages user room cache incoming = none ↔ Refuses room cache incoming := by
  rw [Cache.upsertEvent, Refuses]
  cases Cache.storable room incoming with
  | none =>
    refine iff_of_false (Option.some_ne_none _) ?_
    rintro ⟨_, _, hnone, _⟩
    cases hnone
  | some identity =>
    obtain ⟨eventId, sender⟩ := identity
    simp only [Option.map_eq_none_iff, storeEvent_eq_none_iff, Cache.userRowId_events]
    constructor
    · exact fun hrefused => ⟨eventId, sender, rfl, hrefused⟩
    · rintro ⟨_, _, hsame, hrefused⟩
      cases hsame
      exact hrefused

theorem upsertAll_cons_fst {incoming : IncomingEvent} {result : Cache × Bool}
    (hone : Cache.upsertEvent packages user room cache incoming = some result)
    (events : List IncomingEvent) :
    (Cache.upsertAll packages user room (incoming :: events) cache).map Prod.fst =
      (Cache.upsertAll packages user room events result.1).map Prod.fst := by
  rw [Cache.upsertAll, hone]
  simp only [Option.map_map]
  congr 1
  funext rest
  simp only [Function.comp]
  split_ifs <;> rfl

end Refusals

end EventNumbers
end WbfMatrixClient
