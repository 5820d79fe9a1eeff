import WbfMatrixClient.MessageView

/-!
# Accounts do not see each other's content

Two caches that differ only in the content of events that an account has not synced show
this account the same messages, but for one text: the reason of a redaction is looked up
among all events. Where the redactions that are looked up have been synced, nothing is
shown of what others have synced.
-/

namespace WbfMatrixClient

/-- The rows differ at most in what they contain, and not at all if the account has synced
the event. -/
structure AlikeRows (cache : Cache) (user : String) (row row' : EventRow) : Prop where
  same : row' = { row with contentJson := row'.contentJson, rawEvent := row'.rawEvent }
  synced : cache.hasSynced user row = true → row' = row

/-- The caches differ only in the content of events that the account has not synced. -/
structure DiffersUnseen (user : String) (cache cache' : Cache) : Prop where
  tables : cache' = { cache with events := cache'.events }
  events : List.Forall₂ (AlikeRows cache user) cache.events cache'.events

/-- The message is shown as deleted, and this is the event that has been redacted. -/
def ShownDeleted (cache : Cache) (user : String) (row target : EventRow) : Prop :=
  (row.isRedacted = true ∧ target = row) ∨
    (row.isRedacted = false ∧ row.eventClass = .msg ∧ row.eventType.isSome = true ∧
      row.contentJson.isSome = true ∧ cache.findPointedEdit row = some target ∧
      cache.readerHidden user target = some false ∧ target.isRedacted = true)

/-- Of every message that is shown to the account as deleted, the first stored redaction
has been synced by the account. -/
def ReasonsSynced (cache : Cache) (user : String) : Prop :=
  ∀ row ∈ cache.events, row.eventClass = .msg ∨ row.eventClass = .general →
    cache.hasSynced user row = true → ∀ target, ShownDeleted cache user row target →
      ∀ redaction, cache.findRedaction target.room target.eventId = some redaction →
        cache.hasSynced user redaction = true

section Views

variable {packages : ContentPackages} {cache cache' : Cache} {user : String}

theorem AlikeRows.refl (row : EventRow) :
    AlikeRows cache user row row := ⟨rfl, fun _ => rfl⟩

/-- What can be looked up by everything but the content is found in both. -/
theorem DiffersUnseen.find (h : DiffersUnseen user cache cache') {p : EventRow → Bool}
    (hp : ∀ row row', AlikeRows cache user row row' → p row' = p row) :
    Option.Rel (AlikeRows cache user) (cache.events.find? p) (cache'.events.find? p) := by
  have hevents := h.events
  generalize cache.events = rows at hevents
  generalize cache'.events = rows' at hevents
  induction hevents with
  | nil => exact .none
  | @cons row row' rows rows' halike _ ih =>
    have hsame := hp row row' halike
    cases hrow : p row with
    | true =>
      rw [List.find?_cons_of_pos hrow, List.find?_cons_of_pos (hsame.trans hrow)]
      exact .some halike
    | false =>
      rw [List.find?_cons_of_neg (by rw [hrow]; exact Bool.false_ne_true),
        List.find?_cons_of_neg (by rw [hsame, hrow]; exact Bool.false_ne_true)]
      exact ih

/-- What only has synced events is the same in both. -/
theorem DiffersUnseen.filter (h : DiffersUnseen user cache cache') {p : EventRow → Bool}
    (hp : ∀ row row', AlikeRows cache user row row' → p row' = p row)
    (hsynced : ∀ row, p row = true → cache.hasSynced user row = true) :
    cache'.events.filter p = cache.events.filter p := by
  have hevents := h.events
  generalize cache.events = rows at hevents
  generalize cache'.events = rows' at hevents
  induction hevents with
  | nil => rfl
  | @cons row row' rows rows' halike _ ih =>
    have hsame := hp row row' halike
    cases hrow : p row with
    | true =>
      rw [List.filter_cons_of_pos hrow, List.filter_cons_of_pos (hsame.trans hrow), ih,
        halike.synced (hsynced row hrow)]
    | false =>
      rw [List.filter_cons_of_neg (by rw [hsame, hrow]; exact Bool.false_ne_true),
        List.filter_cons_of_neg (by rw [hrow]; exact Bool.false_ne_true), ih]

variable {row : EventRow}

theorem DiffersUnseen.mem (h : DiffersUnseen user cache cache') (hrow : row ∈ cache.events)
    (hsynced : cache.hasSynced user row = true) : row ∈ cache'.events := by
  have hevents := h.events
  generalize cache.events = rows at hevents hrow
  generalize cache'.events = rows' at hevents
  induction hevents with
  | nil => cases hrow
  | cons halike _ ih =>
    rcases List.mem_cons.mp hrow with rfl | hrow
    · rw [halike.synced hsynced]
      exact List.mem_cons_self
    · exact List.mem_cons_of_mem _ (ih hrow)

theorem DiffersUnseen.readerHidden (h : DiffersUnseen user cache cache') {row row' : EventRow}
    (halike : AlikeRows cache user row row') :
    cache'.readerHidden user row' = cache.readerHidden user row := by
  rw [h.tables, halike.same]
  rfl

theorem hasSynced_of_readerHidden {hidden : Bool} (h : cache.readerHidden user row = some hidden) :
    cache.hasSynced user row = true := by
  rw [Cache.hasSynced, h]
  rfl

section

variable (h : DiffersUnseen user cache cache')

include h

/-- The reactions that are listed have been synced. -/
theorem DiffersUnseen.listReactions (row : EventRow) :
    cache'.listReactions user row = cache.listReactions user row := by
  have hsame : ∀ reaction, cache'.readerHidden user reaction = cache.readerHidden user reaction :=
    fun reaction => h.readerHidden (.refl reaction)
  rw [Cache.listReactions, Cache.listReactions]
  simp only [hsame]
  rw [h.filter]
  · intro reaction reaction' halike
    have hhidden := h.readerHidden halike
    rw [hsame] at hhidden
    rw [hhidden, halike.same]
  · intro reaction hreaction
    exact hasSynced_of_readerHidden (of_decide_eq_true hreaction).2.2.2.2

theorem DiffersUnseen.findRedaction (room eventId : String) :
    Option.Rel (AlikeRows cache user) (cache.findRedaction room eventId)
      (cache'.findRedaction room eventId) := h.find fun row row' halike => by rw [halike.same]

theorem DiffersUnseen.findPointedEdit (row : EventRow) :
    Option.Rel (AlikeRows cache user) (cache.findPointedEdit row) (cache'.findPointedEdit row) := by
  rw [Cache.findPointedEdit, Cache.findPointedEdit]
  cases row.refEventId with
  | none => exact .none
  | some editEventId => exact h.find fun edit edit' halike => by rw [halike.same]

/-- A reason is the same if its redaction has been synced. -/
theorem DiffersUnseen.findRedactionReason {room eventId : String}
    (hsynced : ∀ redaction, cache.findRedaction room eventId = some redaction → cache.hasSynced user
      redaction = true) (rawEvent : Option Json) :
    cache'.findRedactionReason room eventId rawEvent =
      cache.findRedactionReason room eventId rawEvent := by
  have hfound := h.findRedaction room eventId
  rw [Cache.findRedactionReason, Cache.findRedactionReason]
  cases hold : cache.findRedaction room eventId with
  | none =>
    rw [hold] at hfound
    cases hnew : cache'.findRedaction room eventId with
    | none => rfl
    | some redaction =>
      rw [hnew] at hfound
      cases hfound
  | some redaction =>
    rw [hold] at hfound
    cases hnew : cache'.findRedaction room eventId with
    | none =>
      rw [hnew] at hfound
      cases hfound
    | some redaction' =>
      rw [hnew] at hfound
      cases hfound with
      | some halike => rw [halike.synced (hsynced redaction hold)]

/-- The edit that is shown is the same, if the reason of its redaction is. -/
theorem DiffersUnseen.findCurrentEdit {row : EventRow}
    (hsynced : ∀ edit, cache.findPointedEdit row = some edit → cache.readerHidden user edit = some
      false → edit.isRedacted = true → ∀ redaction, cache.findRedaction row.room edit.eventId = some
      redaction → cache.hasSynced user redaction = true) :
    cache'.findCurrentEdit user row = cache.findCurrentEdit user row := by
  have hfound := h.findPointedEdit row
  rw [Cache.findCurrentEdit, Cache.findCurrentEdit]
  cases hold : cache.findPointedEdit row with
  | none =>
    rw [hold] at hfound
    cases hnew : cache'.findPointedEdit row with
    | none => rfl
    | some edit =>
      rw [hnew] at hfound
      cases hfound
  | some edit =>
    rw [hold] at hfound
    cases hnew : cache'.findPointedEdit row with
    | none =>
      rw [hnew] at hfound
      cases hfound
    | some edit' =>
      rw [hnew] at hfound
      cases hfound with
      | some halike =>
        dsimp only
        rw [h.readerHidden halike]
        cases hhidden : cache.readerHidden user edit with
        | none => rfl
        | some hidden =>
          cases hidden with
          | true => rfl
          | false =>
            -- The account has synced the edit, so it is the same in both.
            rw [halike.synced (hasSynced_of_readerHidden hhidden)]
            cases hredacted : edit.isRedacted with
            | false => rfl
            | true =>
              dsimp only
              rw [if_pos rfl, if_pos rfl,
                h.findRedactionReason (hsynced edit hold hhidden hredacted)]

end

theorem room_of_findPointedEdit {edit : EventRow} (h : cache.findPointedEdit row = some edit) :
    edit.room = row.room := by
  rw [Cache.findPointedEdit] at h
  cases href : row.refEventId with
  | none =>
    rw [href] at h
    cases h
  | some editEventId =>
    rw [href] at h
    dsimp only at h
    have hmatches := List.find?_some h
    exact (of_decide_eq_true hmatches).1

/-- Where the reasons have been synced, the message is the same in both caches. -/
theorem DiffersUnseen.toMessage (h : DiffersUnseen user cache cache') {row : EventRow}
    (hreasons : ∀ target, ShownDeleted cache user row target → ∀ redaction, cache.findRedaction
      target.room target.eventId = some redaction → cache.hasSynced user redaction = true) :
    cache'.toMessage packages user row = cache.toMessage packages user row := by
  rw [Cache.toMessage, Cache.toMessage]
  by_cases hredacted : row.isRedacted = true
  · rw [if_pos hredacted, if_pos hredacted,
      h.findRedactionReason (hreasons row (.inl ⟨hredacted, rfl⟩))]
  rw [if_neg hredacted, if_neg hredacted]
  by_cases hclass : row.eventClass ≠ .msg
  · rw [if_pos hclass, if_pos hclass]
  rw [if_neg hclass, if_neg hclass]
  cases htype : row.eventType with
  | none => rfl
  | some eventType =>
    cases hcontent : row.contentJson with
    | none => rfl
    | some ownContent =>
      have hcurrent : cache'.findCurrentEdit user row = cache.findCurrentEdit user row := by
        refine h.findCurrentEdit fun edit hedit hhidden hedited redaction hfound => ?_
        refine hreasons edit (.inr ⟨Bool.not_eq_true _ ▸ hredacted, not_not.mp hclass, ?_, ?_,
          hedit, hhidden, hedited⟩) redaction ?_
        · rw [htype]
          rfl
        · rw [hcontent]
          rfl
        · rw [room_of_findPointedEdit hedit]
          exact hfound
      dsimp only
      rw [hcurrent]
      simp only [Cache.showContent, h.listReactions]

/-- A message that is shown as deleted gives the reason of the event that was redacted. -/
theorem toMessage_of_shownDeleted {target : EventRow} (h : ShownDeleted cache user row target) :
    cache.toMessage packages user row = some { Cache.blankMessage row with
      kind := .deleted
        (cache.findRedactionReason target.room target.eventId target.rawEvent) } := by
  rw [Cache.toMessage]
  rcases h with ⟨hredacted, rfl⟩ | ⟨hlive, hclass, htype, hcontent, hedit, hhidden, hredacted⟩
  · rw [if_pos hredacted]
  · obtain ⟨eventType, htype⟩ := Option.isSome_iff_exists.mp htype
    obtain ⟨ownContent, hcontent⟩ := Option.isSome_iff_exists.mp hcontent
    rw [if_neg (by rw [hlive]; exact Bool.false_ne_true), if_neg (not_not.mpr hclass), htype,
      hcontent]
    dsimp only
    rw [Cache.findCurrentEdit, hedit]
    dsimp only
    rw [hhidden]
    dsimp only
    rw [if_pos hredacted, room_of_findPointedEdit hedit]

theorem DiffersUnseen.shownDeleted (h : DiffersUnseen user cache cache') {target : EventRow}
    (hshown : ShownDeleted cache user row target) : ShownDeleted cache' user row target := by
  rcases hshown with hredacted | ⟨hlive, hclass, htype, hcontent, hedit, hhidden, hredacted⟩
  · exact .inl hredacted
  · have hfound := h.findPointedEdit row
    rw [hedit] at hfound
    refine .inr ⟨hlive, hclass, htype, hcontent, ?_, ?_, hredacted⟩
    · cases hnew : cache'.findPointedEdit row with
      | none =>
        rw [hnew] at hfound
        cases hfound
      | some edit =>
        rw [hnew] at hfound
        cases hfound with
        | some halike => rw [halike.synced (hasSynced_of_readerHidden hhidden)]
    · rw [h.readerHidden (.refl target), hhidden]

/-- The redaction gives another reason. -/
def Cache.withReason (cache : Cache) (redaction : EventRow) (reason : String) : Cache :=
  { cache with events := cache.events.map fun row =>
      if row.key = redaction.key then
        { row with contentJson := some (.object [("reason", .string reason)]) }
      else row }

theorem withReason_differsUnseen {redaction : EventRow}
    (hunsynced : cache.hasSynced user redaction = false) (reason : String) :
    DiffersUnseen user cache (cache.withReason redaction reason) := by
  refine ⟨rfl, ?_⟩
  rw [Cache.withReason, List.forall₂_map_right_iff]
  refine List.forall₂_same.mpr fun row _ => ?_
  by_cases hkey : row.key = redaction.key
  · rw [if_pos hkey]
    refine ⟨rfl, fun hsynced => ?_⟩
    have hsame : cache.hasSynced user row = cache.hasSynced user redaction := by
      rw [Cache.hasSynced, Cache.hasSynced, Cache.readerHidden, Cache.readerHidden,
        show row.room = redaction.room from congrArg Prod.fst hkey,
        show row.eventId = redaction.eventId from congrArg Prod.snd hkey]
    rw [hsame, hunsynced] at hsynced
    cases hsynced
  · rw [if_neg hkey]
    exact .refl row

theorem findRedactionReason_withReason {redaction : EventRow} {room eventId : String}
    (hfound : cache.findRedaction room eventId = some redaction) (reason : String)
    (rawEvent : Option Json) :
    (cache.withReason redaction reason).findRedactionReason room eventId rawEvent =
      some reason := by
  have hnew : (cache.withReason redaction reason).findRedaction room eventId =
      some { redaction with contentJson := some (.object [("reason", .string reason)]) } := by
    rw [Cache.findRedaction, Cache.withReason, List.find?_map]
    have hsame : ((fun row : EventRow => decide (row.room = room ∧ row.refEventId = some eventId ∧
          row.eventClass = .redact)) ∘ fun row : EventRow =>
        if row.key = redaction.key then
          { row with contentJson := some (.object [("reason", .string reason)]) }
        else row) = fun row : EventRow => decide (row.room = room ∧
          row.refEventId = some eventId ∧ row.eventClass = .redact) := by
      funext row
      rw [Function.comp_apply]
      split_ifs <;> rfl
    rw [Cache.findRedaction] at hfound
    rw [hsame, hfound, Option.map_some, if_pos rfl]
  rw [Cache.findRedactionReason, hnew]
  rfl

theorem exists_other_reason (found : Option String) : ∃ reason, some reason ≠ found := by
  cases found with
  | none => exact ⟨"", Option.some_ne_none _⟩
  | some text =>
    refine ⟨text ++ "a", fun heq => ?_⟩
    have hlength := congrArg String.length (Option.some.inj heq)
    rw [String.length_append] at hlength
    exact absurd hlength (Nat.succ_ne_self _)

/-- What the account sees is the same in every cache that differs only in what it has not
synced, exactly if the redactions whose reasons it sees have been synced by it. -/
theorem messages_isolated_iff (packages : ContentPackages) (cache : Cache) (user : String) :
    (∀ cache', DiffersUnseen user cache cache' →
      ∀ row ∈ cache.events, row.eventClass = .msg ∨ row.eventClass = .general →
        cache.hasSynced user row = true →
        row ∈ cache'.events ∧
          cache'.toMessage packages user row = cache.toMessage packages user row) ↔
      ReasonsSynced cache user := by
  constructor
  · intro hisolated row hrow hclass hsynced target hshown redaction hfound
    by_contra hunsynced
    obtain ⟨reason, hother⟩ := exists_other_reason
      (cache.findRedactionReason target.room target.eventId target.rawEvent)
    have hdiffers := withReason_differsUnseen (Bool.not_eq_true _ ▸ hunsynced) reason
    obtain ⟨_, hsame⟩ := hisolated _ hdiffers row hrow hclass hsynced
    rw [toMessage_of_shownDeleted (hdiffers.shownDeleted hshown), toMessage_of_shownDeleted hshown,
      findRedactionReason_withReason hfound] at hsame
    exact hother (MessageKind.deleted.inj (congrArg Message.kind (Option.some.inj hsame)))
  · intro hreasons cache' h row hrow hclass hsynced
    exact ⟨h.mem hrow hsynced, h.toMessage (hreasons row hrow hclass hsynced)⟩

end Views

/-- The reason of a redaction that only another account has synced is shown. -/
theorem redaction_reason_shown :
    let packages : CachePackages :=
      { content := { blockFromJson := fun _ => .error "", quoted := id }
        number := { parseU64 := fun _ => none, parseI64 := fun _ => none } }
    let message : Json := .object
      [("event_id", .string "$m"), ("sender", .string "@b"), ("type", .string "m.room.message"),
        ("content", .object [("body", .string "hello")])]
    let removal (reason : String) : Json :=
      .object [("redacts", .string "$m"), ("reason", .string reason)]
    let redaction (reason : String) : Json := .object
      [("event_id", .string "$r"), ("sender", .string "@b"),
        ("type", .string "m.room.redaction"), ("content", removal reason)]
    let cache (reason : String) := Runs.run (Cache.step packages) Cache.empty
      [.upsertEvents "@a" "!r" [.plain message],
        .upsertEvents "@b" "!r" [.plain (redaction reason)]]
    DiffersUnseen "@a" (cache "one") (cache "two") ∧
      ∃ row ∈ (cache "one").events, row.eventClass = .msg ∧
        (cache "one").hasSynced "@a" row = true ∧
        (cache "two").toMessage packages.content "@a" row ≠
          (cache "one").toMessage packages.content "@a" row := by
  intro packages message removal redaction cache
  let deleted : EventRow :=
    { room := "!r", eventId := "$m", sender := "@b", rSeq := none, gSeq := none,
      originServerTs := 0, decrypted := none, rawEvent := some message,
      eventType := some "m.room.message", contentJson := message.get "content",
      isProcessed := true, isRedacted := true, eventClass := .msg, refEventId := none,
      modifiedTimestamp := 0, isState := false }
  let deleting (reason : String) : EventRow :=
    { room := "!r", eventId := "$r", sender := "@b", rSeq := none, gSeq := none,
      originServerTs := 0, decrypted := none, rawEvent := some (redaction reason),
      eventType := some "m.room.redaction", contentJson := some (removal reason),
      isProcessed := true, isRedacted := false, eventClass := .redact, refEventId := some "$m",
      modifiedTimestamp := 0, isState := false }
  let shared (reason : String) : Cache :=
    { Cache.empty with
      users := ["@a", "@b"]
      rooms := [{ roomId := "!r", encrypted := none }]
      events := [deleted, deleting reason]
      syncedLog := [{ room := "!r", eventId := "$m", user := "@a", hidden := false },
        { room := "!r", eventId := "$r", user := "@b", hidden := false }] }
  have hcache : ∀ reason, cache reason = shared reason := by
    intro reason
    simp [cache, shared, deleted, deleting, message, redaction, removal, Runs.run, Cache.step,
      Cache.empty, Cache.upsertEvents, Cache.upsertEventsCounted, Cache.upsertAll,
      Cache.upsertEvent, Cache.storable, Cache.userRowId, Cache.roomRowId, Cache.storeEvent,
      Cache.seqTaken, Cache.newRow, Cache.processEvent, Cache.linkMediaOf, Cache.markEncrypted,
      Cache.showsEncryption, Cache.logSynced, IncomingEvent.storableIdentity,
      IncomingEvent.findEventId, IncomingEvent.envelope, IncomingEvent.cleartext,
      IncomingEvent.seqs, IncomingEvent.originServerTs, IncomingEvent.decryptedFlag,
      IncomingEvent.rawEvent, IncomingEvent.isRedactedByServer, classify, classifyCleartext,
      findEvent, updateEvent, Table.find, Table.update, EventRow.key, mediaOf, attachmentOf,
      matrixAttachmentOf, kindFromContent, kindOfMessage, fileMsgtype, applyRelations,
      listWaitingRelations, applyRedaction, setProcessed, setRedacted, nonemptyText, Json.text,
      Json.get, Json.asStr, List.lookup_cons, List.lookup_nil]
  have hshown : ∀ reason, ((shared reason).toMessage packages.content "@a" deleted).map
      Message.kind = some (.deleted (some reason)) := fun _ => rfl
  rw [hcache, hcache]
  constructor
  · refine ⟨rfl, .cons (.refl deleted) (.cons ⟨rfl, fun hsynced => ?_⟩ .nil)⟩
    cases hsynced
  · refine ⟨deleted, List.mem_cons_self, rfl, rfl, fun hsame => ?_⟩
    have hkinds := congrArg (Option.map Message.kind) hsame
    rw [hshown, hshown] at hkinds
    exact absurd (Option.some.inj (MessageKind.deleted.inj (Option.some.inj hkinds))) (by decide)

end WbfMatrixClient
