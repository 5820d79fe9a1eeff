import WbfMatrixClient.EventStoring
import WbfMatrixClient.Lib.Runs

/-!
# Which edit a message shows

A message row names the edit that is shown for it. Applying an edit compares it
with the one that is named, and redacting the one that is named selects anew
among all that remain. Both keep the row at the latest of the edits that may be
shown, except that a row that names none passes over edits with a time before
zero.

Applying relations only ever touches four fields of a row. What has waited for
an event is applied when it comes, so between two deliveries an edit that has
not been applied has no target that could be read.
-/

namespace WbfMatrixClient
namespace EventPointers

/-- The row with other marks, which only rise, and perhaps with more of what was
delivered. The reference changes for a message only, and the time of a row that
is not redacted as well. -/
structure Frame (a b : EventRow) : Prop where
  rest : b = { a with
    rSeq := b.rSeq
    gSeq := b.gSeq
    rawEvent := b.rawEvent
    isProcessed := b.isProcessed
    isRedacted := b.isRedacted
    refEventId := b.refEventId
    modifiedTimestamp := b.modifiedTimestamp }
  state : isStateEvent b.rawEvent = isStateEvent a.rawEvent
  processed : a.isProcessed = true → b.isProcessed = true
  redacted : a.isRedacted = true → b.isRedacted = true
  ref : a.eventClass ≠ .msg → b.refEventId = a.refEventId
  modified : a.eventClass ≠ .msg → b.isRedacted = false →
    b.modifiedTimestamp = a.modifiedTimestamp
  raw : ∀ json, a.rawEvent = some json → b.rawEvent = some json

namespace Frame

variable {a b c : EventRow}

theorem refl (a : EventRow) : Frame a a :=
  ⟨rfl, rfl, id, id, fun _ => rfl, fun _ _ => rfl,
      fun _ hjson => hjson⟩

section

variable (h : Frame a b)

include h

theorem room : b.room = a.room := by rw [h.rest]

theorem eventId : b.eventId = a.eventId := by rw [h.rest]

theorem key : b.key = a.key := by rw [EventRow.key, h.room, h.eventId, EventRow.key]

theorem eventClass : b.eventClass = a.eventClass := by rw [h.rest]

theorem originServerTs : b.originServerTs = a.originServerTs := by rw [h.rest]

theorem replacementSide : b.replacementSide = a.replacementSide := by
  rw [EventRow.replacementSide, h.state, h.rest]
  rfl

theorem live (hb : b.isRedacted = false) : a.isRedacted = false := by
  by_contra ha
  rw [h.redacted (by simpa using ha)] at hb
  cases hb

theorem trans (h' : Frame b c) : Frame a c := by
  refine ⟨?_, h'.state.trans h.state, h'.processed ∘ h.processed, h'.redacted ∘ h.redacted,
    fun hclass => ?_, fun hclass hlive => ?_, fun json hjson => h'.raw json (h.raw json hjson)⟩
  · rw [h'.rest, h.rest]
  · rw [h'.ref (by rw [h.eventClass]; exact hclass), h.ref hclass]
  · rw [h'.modified (by rw [h.eventClass]; exact hclass) hlive,
      h.modified hclass (h'.live hlive)]

end

end Frame

/-- The rows stay where they are, with other marks. -/
def Reframed (events events' : List EventRow) : Prop :=
  ∃ g : EventRow → EventRow, (∀ row, Frame row (g row)) ∧ events' = events.map g

namespace Reframed

variable {events events' events'' : List EventRow}

theorem refl (events : List EventRow) : Reframed events events := ⟨id, Frame.refl, by simp⟩

section

variable (h : Reframed events events')

include h

theorem trans (h' : Reframed events' events'') : Reframed events events'' := by
  obtain ⟨g, hg, rfl⟩ := h
  obtain ⟨g', hg', rfl⟩ := h'
  exact ⟨g' ∘ g, fun row => (hg row).trans (hg' (g row)), by rw [List.map_map]⟩

theorem map_key : events'.map EventRow.key = events.map EventRow.key := by
  obtain ⟨g, hg, rfl⟩ := h
  rw [List.map_map]
  exact List.map_congr_left fun row _ => (hg row).key

theorem keyed (hkeyed : Table.Keyed EventRow.key events) : Table.Keyed EventRow.key events' := by
  rw [Table.Keyed, h.map_key]
  exact hkeyed

theorem mem {row' : EventRow} (hrow' : row' ∈ events') : ∃ row ∈ events, Frame row row' := by
  obtain ⟨g, hg, rfl⟩ := h
  obtain ⟨row, hrow, rfl⟩ := List.mem_map.mp hrow'
  exact ⟨row, hrow, hg row⟩

end

end Reframed

/-- A row is found where it was. -/
theorem findEvent_map {events : List EventRow} {g : EventRow → EventRow}
    (hg : ∀ row, Frame row (g row)) (room eventId : String) :
    findEvent (events.map g) room eventId = (findEvent events room eventId).map g :=
  Table.find_map fun row => (hg row).key

theorem updateEvent_reframed {f : EventRow → EventRow} (events : List EventRow)
    (room eventId : String) (hf : ∀ row, Frame row (f row)) :
    Reframed events (updateEvent events room eventId f) := by
  refine ⟨fun row => if row.key = (room, eventId) then f row else row, fun row => ?_, rfl⟩
  simp only
  split_ifs
  · exact hf row
  · exact Frame.refl row

theorem setProcessed_reframed (events : List EventRow) (room eventId : String) :
    Reframed events (setProcessed events room eventId) :=
  updateEvent_reframed events room eventId fun _ =>
    ⟨rfl, rfl, fun _ => rfl, id, fun _ => rfl, fun _ _ => rfl,
      fun _ hjson => hjson⟩

theorem setRedacted_reframed (events : List EventRow) (room eventId : String)
    (modifiedTimestamp : Int) :
    Reframed events (setRedacted events room eventId modifiedTimestamp) :=
  updateEvent_reframed events room eventId fun _ =>
    ⟨rfl, rfl, id, fun _ => rfl, fun _ => rfl, fun _ h => (by cases h),
      fun _ hjson => hjson⟩

theorem setCurrentEdit_reframed (events : List EventRow) (room target : String)
    (edit : Option String) (modifiedTimestamp : Int) :
    Reframed events (setCurrentEdit events room target edit modifiedTimestamp) := by
  refine updateEvent_reframed events room target fun row => ?_
  split_ifs with hclass
  · exact ⟨rfl, rfl, id, id, fun hne => absurd hclass hne, fun hne => absurd hclass hne,
      fun _ hjson => hjson⟩
  · exact Frame.refl row

/-- What marking a row keeps, applying relations keeps. -/
structure Marking (R : List EventRow → List EventRow → Prop) : Prop where
  refl : ∀ events, R events events
  trans : ∀ {events events' events''}, R events events' → R events' events'' → R events events''
  setProcessed : ∀ events room eventId, R events (setProcessed events room eventId)
  setRedacted : ∀ events room eventId modifiedTimestamp,
    R events (setRedacted events room eventId modifiedTimestamp)
  setCurrentEdit : ∀ events room target edit modifiedTimestamp,
    R events (setCurrentEdit events room target edit modifiedTimestamp)

namespace Marking

variable {R : List EventRow → List EventRow → Prop}

theorem applyEdit (h : Marking R) (room : String) (events : List EventRow) (editId : String) :
    R events (applyEdit room events editId) := by
  have hprocessed := h.setProcessed events room editId
  rw [WbfMatrixClient.applyEdit]
  cases findEvent events room editId with
  | none => exact h.refl events
  | some edit =>
    simp only
    split_ifs
    · exact h.refl events
    · cases edit.refEventId with
      | none => exact hprocessed
      | some targetId =>
        simp only
        cases findEvent events room targetId with
        | none => exact h.refl events
        | some target =>
          simp only
          split_ifs
          · exact h.refl events
          · exact hprocessed
          · exact h.trans (h.setCurrentEdit events room targetId (some editId)
              edit.originServerTs) (h.setProcessed _ room editId)
          · exact hprocessed

theorem reselect (h : Marking R) (room : String) (events : List EventRow) (edited : EventRow) :
    R events (reselect room events edited) := by
  rw [WbfMatrixClient.reselect]
  split <;> exact h.setCurrentEdit _ _ _ _ _

theorem applyRedaction (h : Marking R) (room : String) (events : List EventRow)
    (redactionId : String) : R events (applyRedaction room events redactionId) := by
  rw [WbfMatrixClient.applyRedaction]
  cases findEvent events room redactionId with
  | none => exact h.refl events
  | some redaction =>
    simp only
    split_ifs
    · exact h.refl events
    · cases redaction.refEventId with
      | none => exact h.setProcessed events room redactionId
      | some targetId =>
        simp only
        cases findEvent events room targetId with
        | none => exact h.refl events
        | some target =>
          have hmarked := h.trans (h.setRedacted events room targetId
            redaction.originServerTs) (h.setProcessed _ room redactionId)
          simp only
          split_ifs
          · exact hmarked
          · cases target.refEventId with
            | none => exact hmarked
            | some editedId =>
              simp only
              cases findEvent (WbfMatrixClient.setProcessed (WbfMatrixClient.setRedacted
                  events room targetId redaction.originServerTs) room redactionId)
                  room editedId with
              | none => exact hmarked
              | some edited =>
                simp only
                split_ifs
                · exact h.trans hmarked (h.reselect room _ edited)
                · exact hmarked

theorem foldl (h : Marking R) {apply : List EventRow → String → List EventRow}
    (happly : ∀ events id, R events (apply events id)) :
    ∀ (ids : List String) (events : List EventRow), R events (ids.foldl apply events) :=
  fun ids events =>
    List.foldlRecOn ids apply (h.refl events) fun reached hreached id _ =>
      h.trans hreached (happly reached id)

end Marking

/-- The redactions that have waited for an event, applied. -/
def applyWaitingRedactions (room : String) (events : List EventRow) (eventId : String) :
    List EventRow :=
  (listWaitingRelations events room eventId .redact).foldl (applyRedaction room) events

/-- All that has waited for an event, applied. -/
def applyWaiting (room : String) (events : List EventRow) (eventId : String) : List EventRow :=
  let events := applyWaitingRedactions room events eventId
  (listWaitingRelations events room eventId .edit).foldl (applyEdit room) events

theorem applyRelations_eq (room : String) (events : List EventRow) (row : EventRow) :
    applyRelations room events row =
      match row.eventClass with
      | .redact => applyRedaction room (applyWaiting room events row.eventId) row.eventId
      | .edit => applyEdit room (applyWaiting room events row.eventId) row.eventId
      | _ => applyWaiting room events row.eventId := rfl

namespace Marking

variable {R : List EventRow → List EventRow → Prop}

theorem applyWaitingRedactions (h : Marking R) (room : String) (events : List EventRow)
    (eventId : String) :
    R events (applyWaitingRedactions room events eventId) :=
  h.foldl (h.applyRedaction room) _ events

theorem applyWaiting (h : Marking R) (room : String) (events : List EventRow) (eventId : String) :
    R events (applyWaiting room events eventId) :=
  h.trans (h.applyWaitingRedactions room events eventId) (h.foldl (h.applyEdit room) _ _)

theorem applyRelations (h : Marking R) (room : String) (events : List EventRow) (row : EventRow) :
    R events (applyRelations room events row) := by
  have hwaiting := h.applyWaiting room events row.eventId
  rw [applyRelations_eq]
  split
  · exact h.trans hwaiting (h.applyRedaction room _ _)
  · exact h.trans hwaiting (h.applyEdit room _ _)
  · exact hwaiting

end Marking

theorem reframed_marking :
    Marking Reframed where
  refl := Reframed.refl
  trans := Reframed.trans
  setProcessed := setProcessed_reframed
  setRedacted := setRedacted_reframed
  setCurrentEdit := setCurrentEdit_reframed

theorem applyEdit_reframed (room : String) (events : List EventRow) (editId : String) :
    Reframed events (applyEdit room events editId) := reframed_marking.applyEdit room events editId

theorem applyRedaction_reframed (room : String) (events : List EventRow) (redactionId : String) :
    Reframed events (applyRedaction room events redactionId) :=
  reframed_marking.applyRedaction room events redactionId

theorem applyWaitingRedactions_reframed (room : String) (events : List EventRow)
    (eventId : String) :
    Reframed events (applyWaitingRedactions room events eventId) :=
  reframed_marking.applyWaitingRedactions room events eventId

theorem applyWaiting_reframed (room : String) (events : List EventRow) (eventId : String) :
    Reframed events (applyWaiting room events eventId) :=
  reframed_marking.applyWaiting room events eventId

theorem applyRelations_reframed (room : String) (events : List EventRow) (row : EventRow) :
    Reframed events (applyRelations room events row) :=
  reframed_marking.applyRelations room events row

/-- The time and the event id of an edit, in the order in which edits are
compared. -/
def stamp (row : EventRow) : Int ×ₗ String :=
  toLex (row.originServerTs, row.eventId)

/-- The stamp of the edit that a message names. -/
def shownStamp (target : EventRow) : Option (Int ×ₗ String) :=
  target.refEventId.map fun current => toLex (target.modifiedTimestamp, current)

/-- The edit names the message, is valid for it and is not redacted. -/
structure Applies (edit target : EventRow) : Prop where
  room : edit.room = target.room
  ref : edit.refEventId = some target.eventId
  live : edit.isRedacted = false
  valid : edit.replaces target = true

/-- The edits of a message, without those that are still to be applied. -/
def editsOf (pending : Set (String × String)) (events : List EventRow) (target : EventRow) :
    Set (Int ×ₗ String) :=
  {k | ∃ edit ∈ events, edit.key ∉ pending ∧ Applies edit target ∧ stamp edit = k}

/-- As before, or the message is one of those that may have missed their edits,
all of them have a time before zero, and none is named. -/
def Shows (late : Set (String × String)) (edits : Set (Int ×ₗ String)) (target : EventRow) :
    Prop :=
  NewestOrMissed (fun k => target.key ∈ late ∧ (ofLex k).1 < 0) edits (shownStamp target) ∧
    (target.refEventId = none → target.modifiedTimestamp = 0)

variable {edit target : EventRow}

theorem replaces_classes (h : edit.replaces target = true) :
    target.eventClass = .msg ∧ edit.eventClass = .edit := by
  rw [EventRow.replaces] at h
  cases hcheck : checkReplacement target.replacementSide edit.replacementSide with
  | error e =>
    rw [hcheck] at h
    cases h
  | ok u =>
    obtain ⟨hmsg, hedit, _⟩ := checkReplacement_ok hcheck
    exact ⟨hmsg, hedit⟩

theorem Frame.replaces {edit edit' target target' : EventRow} (hedit : Frame edit edit')
    (htarget : Frame target target') : edit'.replaces target' = edit.replaces target := by
  rw [EventRow.replaces, EventRow.replaces, hedit.replacementSide, htarget.replacementSide]

theorem Frame.stamp {row row' : EventRow} (h : Frame row row') :
    stamp row' = EventPointers.stamp row := by
  rw [EventPointers.stamp, EventPointers.stamp, h.originServerTs, h.eventId]

/-- Marking rows does not make an edit apply, and stops only a redacted one. -/
theorem applies_iff {edit' target' : EventRow} (hedit : Frame edit edit')
    (htarget : Frame target target') :
    Applies edit' target' ↔ Applies edit target ∧ edit'.isRedacted = false := by
  constructor
  · rintro ⟨hroom, href, hlive, hvalid⟩
    rw [hedit.replaces htarget] at hvalid
    have hclass : edit.eventClass ≠ .msg := by
      rw [(replaces_classes hvalid).2]
      decide
    rw [hedit.ref hclass, htarget.eventId] at href
    rw [hedit.room, htarget.room] at hroom
    exact ⟨⟨hroom, href, hedit.live hlive, hvalid⟩, hlive⟩
  · rintro ⟨⟨hroom, href, _, hvalid⟩, hlive⟩
    have hclass : edit.eventClass ≠ .msg := by
      rw [(replaces_classes hvalid).2]
      decide
    refine ⟨?_, ?_, hlive, ?_⟩
    · rw [hedit.room, htarget.room]
      exact hroom
    · rw [hedit.ref hclass, htarget.eventId]
      exact href
    · rw [hedit.replaces htarget]
      exact hvalid

/-- The comparison with what a message names. -/
theorem isNewer_iff :
    isNewer edit target = true ↔
      (∀ k, shownStamp target = some k → k < stamp edit) ∧
        (target.refEventId = none → target.modifiedTimestamp ≤ edit.originServerTs) := by
  rw [isNewer, shownStamp]
  cases hcurrent : target.refEventId with
  | none => simp
  | some current =>
    simp only [Option.map_some, Option.some.injEq, forall_eq', stamp, reduceCtorEq,
      IsEmpty.forall_iff, and_true, Prod.Lex.toLex_lt_toLex, decide_eq_true_eq]

theorem Shows.newer {late : Set (String × String)} {edits : Set (Int ×ₗ String)}
    {target' : EventRow} (h : Shows late edits target) (hnewer : isNewer edit target = true)
    (hshown : shownStamp target' = some (stamp edit)) :
    Shows late (insert (stamp edit) edits) target' := by
  obtain ⟨hbefore, hfirst⟩ := isNewer_iff.mp hnewer
  refine ⟨.inl ?_, fun hnone => ?_⟩
  · rw [hshown]
    rcases h.1 with hnewest | ⟨hnone, hmissed⟩
    · exact hnewest.insert_newer fun k hk => (hbefore k hk).le
    · have href : target.refEventId = none := by
        simpa [shownStamp] using hnone
      have hzero : 0 ≤ edit.originServerTs := by
        rw [← h.2 href]
        exact hfirst href
      refine ⟨Set.mem_insert _ _, ?_⟩
      rintro k (rfl | hk)
      · exact le_rfl
      · have hlt : (ofLex k).1 < (ofLex (stamp edit)).1 := lt_of_lt_of_le (hmissed k hk).2 hzero
        exact (Prod.Lex.lt_iff.mpr (.inl hlt)).le
  · rw [shownStamp, hnone] at hshown
    cases hshown

/-- An edit that is not newer is passed over, wrongly only if it is the first and
has a time before zero. -/
theorem Shows.older {late : Set (String × String)} {edits : Set (Int ×ₗ String)}
    (h : Shows late edits target)
    (hlate : target.refEventId = none → edit.originServerTs < 0 → target.key ∈ late)
    (hnewer : isNewer edit target = false) : Shows late (insert (stamp edit) edits) target := by
  refine ⟨?_, h.2⟩
  cases hshown : shownStamp target with
  | none =>
    have href : target.refEventId = none := by simpa [shownStamp] using hshown
    have hneg : edit.originServerTs < 0 := by
      rw [← h.2 href, ← not_le]
      intro hle
      have hyes : isNewer edit target = true :=
        isNewer_iff.mpr ⟨by simp [hshown], fun _ => hle⟩
      rw [hnewer] at hyes
      cases hyes
    refine .inr ⟨rfl, ?_⟩
    rintro k (rfl | hk)
    · exact ⟨hlate href hneg, hneg⟩
    · rcases h.1 with hnewest | ⟨_, hmissed⟩
      · rw [hshown] at hnewest
        rw [show edits = ∅ from hnewest] at hk
        exact hk.elim
      · exact hmissed k hk
  | some k =>
    rcases h.1 with hnewest | ⟨hnone, _⟩
    · rw [hshown] at hnewest
      refine .inl (hnewest.insert_older ?_)
      rw [← not_lt]
      intro hlt
      have href : target.refEventId ≠ none := by
        intro hnone
        rw [shownStamp, hnone] at hshown
        cases hshown
      have hyes : isNewer edit target = true := by
        refine isNewer_iff.mpr ⟨?_, fun hnone => absurd hnone href⟩
        intro k' hk'
        rw [hshown] at hk'
        cases hk'
        exact hlt
      rw [hnewer] at hyes
      cases hyes
    · rw [hshown] at hnone
      cases hnone

/-- Every message shows what it should of the edits that have been applied, and
an edit that has not been applied, and is not about to be, has no target that
could be read. -/
structure Sound (late pending : Set (String × String)) (events : List EventRow) : Prop where
  keyed : Table.Keyed EventRow.key events
  unapplied : ∀ edit ∈ events, edit.key ∈ pending →
    edit.eventClass = .edit ∧ edit.isProcessed = false
  waiting : ∀ edit ∈ events, edit.eventClass = .edit → edit.isProcessed = false →
    edit.key ∉ pending → ∀ target ∈ events, target.room = edit.room →
      edit.refEventId = some target.eventId → target.eventClass = .general
  shows : ∀ target ∈ events, target.eventClass = .msg → target.isRedacted = false →
    Shows late (editsOf pending events target) target
  unread : ∀ row ∈ events, row.eventClass = .general → row.isRedacted = false →
    row.modifiedTimestamp = 0

theorem mem_of_findEvent {events : List EventRow} {room eventId : String} {row : EventRow}
    (h : findEvent events room eventId = some row) :
    row ∈ events ∧ row.room = room ∧ row.eventId = eventId := by
  obtain ⟨hmem, hkey⟩ := Table.mem_of_find h
  exact ⟨hmem, congrArg Prod.fst hkey, congrArg Prod.snd hkey⟩

theorem not_mem_of_findEvent {events : List EventRow} {room eventId : String} {row : EventRow}
    (h : findEvent events room eventId = none) (hrow : row ∈ events) :
    ¬(row.room = room ∧ row.eventId = eventId) := by
  rintro ⟨rfl, rfl⟩
  exact Table.find_eq_none_iff.mp h row hrow rfl

section Steps

variable {late pending pending' : Set (String × String)} {events : List EventRow}

variable {g : EventRow → EventRow}

theorem Sound.unread_map (h : Sound late pending events) (hg : ∀ row, Frame row (g row)) :
    ∀ row ∈ events.map g, row.eventClass = .general → row.isRedacted = false →
      row.modifiedTimestamp = 0 := by
  intro row hrow hclass hlive
  obtain ⟨old, hold, rfl⟩ := List.mem_map.mp hrow
  rw [(hg old).eventClass] at hclass
  rw [(hg old).modified (by rw [hclass]; decide) hlive]
  exact h.unread old hold hclass ((hg old).live hlive)

/-- The edits of a message among marked rows. -/
theorem editsOf_map (hg : ∀ row, Frame row (g row)) (target : EventRow) :
    editsOf pending (events.map g) (g target) =
      {k | ∃ edit ∈ events, edit.key ∉ pending ∧ Applies edit target ∧
        (g edit).isRedacted = false ∧ stamp edit = k} := by
  ext k
  constructor
  · rintro ⟨row, hrow, hpending, happlies, rfl⟩
    obtain ⟨edit, hedit, rfl⟩ := List.mem_map.mp hrow
    rw [(hg edit).key] at hpending
    obtain ⟨hbefore, hlive⟩ := (applies_iff (hg edit) (hg target)).mp happlies
    exact ⟨edit, hedit, hpending, hbefore, hlive, ((hg edit).stamp).symm⟩
  · rintro ⟨edit, hedit, hpending, happlies, hlive, rfl⟩
    refine ⟨g edit, List.mem_map_of_mem hedit, ?_, ?_, (hg edit).stamp⟩
    · rw [(hg edit).key]
      exact hpending
    · exact (applies_iff (hg edit) (hg target)).mpr ⟨happlies, hlive⟩

/-- As long as no edit is redacted, marking rows leaves a message its edits. -/
theorem editsOf_map_of_live (hg : ∀ row, Frame row (g row))
    (hlive : ∀ row ∈ events, (g row).isRedacted = row.isRedacted) (target : EventRow) :
    editsOf pending (events.map g) (g target) = editsOf pending events target := by
  rw [editsOf_map hg]
  ext k
  constructor
  · rintro ⟨edit, hedit, hpending, happlies, _, hk⟩
    exact ⟨edit, hedit, hpending, happlies, hk⟩
  · rintro ⟨edit, hedit, hpending, happlies, hk⟩
    exact ⟨edit, hedit, hpending, happlies, by rw [hlive edit hedit]; exact happlies.live, hk⟩

variable {edit : EventRow}

/-- An edit that is no longer pending counts for the message it applies to. -/
theorem editsOf_drop (hkeyed : Table.Keyed EventRow.key events) (hedit : edit ∈ events)
    (target : EventRow) :
    editsOf (pending \ {edit.key}) events target =
      editsOf pending events target ∪ {k | Applies edit target ∧ stamp edit = k} := by
  ext k
  constructor
  · rintro ⟨other, hother, hpending, happlies, rfl⟩
    by_cases hkey : other.key = edit.key
    · obtain rfl := hkeyed.eq_of_key hother hedit hkey
      exact .inr ⟨happlies, rfl⟩
    · exact .inl ⟨other, hother, fun h => hpending ⟨h, hkey⟩, happlies, rfl⟩
  · rintro (⟨other, hother, hpending, happlies, rfl⟩ | ⟨happlies, rfl⟩)
    · exact ⟨other, hother, fun h => hpending h.1, happlies, rfl⟩
    · exact ⟨edit, hedit, fun h => h.2 rfl, happlies, rfl⟩

/-- Marking the edit that has been dealt with. -/
theorem Sound.processed (h : Sound late pending events) (hedit : edit ∈ events)
    (hg : ∀ row, Frame row (g row)) (hlive : ∀ row ∈ events, (g row).isRedacted = row.isRedacted)
    (hother : ∀ row, row.key ≠ edit.key → (g row).isProcessed = row.isProcessed)
    (hprocessed : edit.eventClass = .edit → (g edit).isProcessed = false → ∀ target ∈ events,
      target.room = edit.room → edit.refEventId = some target.eventId → target.eventClass =
      .general)
    (hshows : ∀ target ∈ events, target.eventClass = .msg → target.isRedacted = false → Shows late
      (editsOf (pending \ {edit.key}) events target) (g target)) :
    Sound late (pending \ {edit.key}) (events.map g) := by
  refine ⟨Reframed.keyed ⟨g, hg, rfl⟩ h.keyed, ?_, ?_, ?_, h.unread_map hg⟩
  · intro row hrow hpending
    obtain ⟨old, hold, rfl⟩ := List.mem_map.mp hrow
    rw [(hg old).key] at hpending
    rw [(hg old).eventClass, hother old hpending.2]
    exact h.unapplied old hold hpending.1
  · intro row hrow hclass hunprocessed hpending target htarget hroom href
    obtain ⟨old, hold, rfl⟩ := List.mem_map.mp hrow
    obtain ⟨oldTarget, holdTarget, rfl⟩ := List.mem_map.mp htarget
    rw [(hg old).eventClass] at hclass
    rw [(hg old).key] at hpending
    rw [(hg oldTarget).room, (hg old).room] at hroom
    rw [(hg old).ref (by rw [hclass]; decide), (hg oldTarget).eventId] at href
    rw [(hg oldTarget).eventClass]
    by_cases hkey : old.key = edit.key
    · obtain rfl := h.keyed.eq_of_key hold hedit hkey
      exact hprocessed hclass hunprocessed oldTarget holdTarget hroom href
    · rw [hother old hkey] at hunprocessed
      exact h.waiting old hold hclass hunprocessed (fun hmem => hpending ⟨hmem, hkey⟩)
        oldTarget holdTarget hroom href
  · intro row hrow hclass hredacted
    obtain ⟨old, hold, rfl⟩ := List.mem_map.mp hrow
    rw [(hg old).eventClass] at hclass
    rw [hlive old hold] at hredacted
    rw [editsOf_map_of_live hg hlive]
    exact hshows old hold hclass hredacted

variable {target : EventRow}

/-- An edit that applies to no message counts for none. -/
theorem editsOf_drop_of_not_applies (hkeyed : Table.Keyed EventRow.key events)
    (hedit : edit ∈ events) (hnot : ¬Applies edit target) :
    editsOf (pending \ {edit.key}) events target = editsOf pending events target := by
  rw [editsOf_drop hkeyed hedit]
  ext k
  simp [hnot]

/-- An edit that cannot be shown is marked, or waits on. -/
theorem Sound.skipped (h : Sound late pending events) (hedit : edit ∈ events)
    (hg : ∀ row, Frame row (g row))
    (hsame : ∀ row, g row = { row with isProcessed := (g row).isProcessed })
    (hother : ∀ row, row.key ≠ edit.key → (g row).isProcessed = row.isProcessed)
    (hprocessed : edit.eventClass = .edit → (g edit).isProcessed = false → ∀ target ∈ events,
      target.room = edit.room → edit.refEventId = some target.eventId → target.eventClass =
      .general) (hnot : ∀ target ∈ events, target.isRedacted = false → ¬Applies edit target) :
    Sound late (pending \ {edit.key}) (events.map g) := by
  refine h.processed hedit hg (fun row _ => by rw [hsame row]) hother hprocessed ?_
  intro target htarget hclass hredacted
  rw [editsOf_drop_of_not_applies h.keyed hedit (hnot target htarget hredacted), hsame target]
  exact h.shows target htarget hclass hredacted

/-- The row marked as processed. -/
def markProcessed (room eventId : String) (row : EventRow) : EventRow :=
  if row.key = (room, eventId) then { row with isProcessed := true } else row

theorem setProcessed_eq_map (room eventId : String) :
    setProcessed events room eventId = events.map (markProcessed room eventId) := rfl

theorem markProcessed_frame (room eventId : String) (row : EventRow) :
    Frame row (markProcessed room eventId row) := by
  rw [markProcessed]
  split_ifs
  · exact ⟨rfl, rfl, fun _ => rfl, id, fun _ => rfl, fun _ _ => rfl,
      fun _ hjson => hjson⟩
  · exact Frame.refl row

variable {room eventId : String}

theorem Sound.skip (h : Sound late pending events)
    (hfind : findEvent events room eventId = some edit)
    (hnot : ∀ target ∈ events, target.isRedacted = false → ¬Applies edit target) :
    Sound late (pending \ {(room, eventId)}) (setProcessed events room eventId) := by
  obtain ⟨hedit, hkey⟩ := Table.mem_of_find hfind
  rw [← hkey]
  refine h.skipped hedit (g := markProcessed room eventId) (markProcessed_frame room eventId)
    ?_ ?_ ?_ hnot
  · intro row
    rw [markProcessed]
    split_ifs <;> rfl
  · intro row hne
    rw [markProcessed, if_neg (by rw [← hkey]; exact hne)]
  · intro _ hunprocessed
    rw [markProcessed, if_pos hkey] at hunprocessed
    cases hunprocessed

/-- An edit that stays as it is. -/
theorem Sound.wait (h : Sound late pending events)
    (hfind : findEvent events room eventId = some edit)
    (hgeneral : ∀ target ∈ events, target.room = edit.room → edit.refEventId = some target.eventId →
      target.eventClass = .general) : Sound late (pending \ {(room, eventId)}) events := by
  obtain ⟨hedit, hkey⟩ := Table.mem_of_find hfind
  rw [← hkey]
  have hsame := h.skipped hedit (g := id) Frame.refl (fun _ => rfl) (fun _ _ => rfl)
    (fun _ _ => hgeneral) ?_
  · rwa [List.map_id] at hsame
  · intro target htarget _ happlies
    have hclass := hgeneral target htarget happlies.room.symm happlies.ref
    rw [(replaces_classes happlies.valid).1] at hclass
    cases hclass

theorem Sound.congr_pending (h : Sound late pending events)
    (hsame : ∀ row ∈ events, row.key ∈ pending' ↔ row.key ∈ pending) :
    Sound late pending' events := by
  refine ⟨h.keyed, ?_, ?_, ?_, h.unread⟩
  · intro edit hedit hpending
    exact h.unapplied edit hedit ((hsame edit hedit).mp hpending)
  · intro edit hedit hclass hunprocessed hpending
    exact h.waiting edit hedit hclass hunprocessed fun hmem =>
      hpending ((hsame edit hedit).mpr hmem)
  · intro target htarget hclass hredacted
    have hedits : editsOf pending' events target = editsOf pending events target := by
      ext k
      constructor
      · rintro ⟨edit, hedit, hpending, hrest⟩
        exact ⟨edit, hedit, fun hmem => hpending ((hsame edit hedit).mpr hmem), hrest⟩
      · rintro ⟨edit, hedit, hpending, hrest⟩
        exact ⟨edit, hedit, fun hmem => hpending ((hsame edit hedit).mp hmem), hrest⟩
    rw [hedits]
    exact h.shows target htarget hclass hredacted

variable {targetId : String}

/-- The message that an edit applies to is the one it names. -/
theorem Applies.target_eq (hkeyed : Table.Keyed EventRow.key events) {found : EventRow}
    (hroom : edit.room = room) (href : edit.refEventId = some targetId)
    (hfound : findEvent events room targetId = some found) (htarget : target ∈ events)
    (h : Applies edit target) : target = found := by
  obtain ⟨hmem, hfoundRoom, hfoundId⟩ := mem_of_findEvent hfound
  have hid : target.eventId = targetId := by
    have heq := h.ref.symm.trans href
    simpa using heq
  refine hkeyed.eq_of_key htarget hmem ?_
  rw [EventRow.key, EventRow.key, ← h.room, hroom, hid, hfoundRoom, hfoundId]

/-- The message with another edit named. -/
def markCurrentEdit (room target : String) (edit : Option String) (modifiedTimestamp : Int)
    (row : EventRow) : EventRow :=
  if row.key = (room, target) then
    if row.eventClass = .msg then
      { row with refEventId := edit, modifiedTimestamp := modifiedTimestamp }
    else
      row
  else
    row

theorem markCurrentEdit_frame (room target : String) (edit : Option String)
    (modifiedTimestamp : Int) (row : EventRow) :
    Frame row (markCurrentEdit room target edit modifiedTimestamp row) := by
  rw [markCurrentEdit]
  split_ifs with hkey hclass
  · exact ⟨rfl, rfl, id, id, fun hne => absurd hclass hne, fun hne => absurd hclass hne,
      fun _ hjson => hjson⟩
  · exact Frame.refl row
  · exact Frame.refl row

theorem markCurrentEdit_marks (room target : String) (edit : Option String)
    (modifiedTimestamp : Int) (row : EventRow) :
    (markCurrentEdit room target edit modifiedTimestamp row).isProcessed = row.isProcessed ∧
      (markCurrentEdit room target edit modifiedTimestamp row).isRedacted = row.isRedacted := by
  rw [markCurrentEdit]
  split_ifs <;> exact ⟨rfl, rfl⟩

theorem markProcessed_marks (room eventId : String) (row : EventRow) :
    (markProcessed room eventId row).isRedacted = row.isRedacted ∧
      shownStamp (markProcessed room eventId row) = shownStamp row ∧
      (markProcessed room eventId row).refEventId = row.refEventId ∧
      (markProcessed room eventId row).modifiedTimestamp = row.modifiedTimestamp := by
  rw [markProcessed]
  split_ifs <;> exact ⟨rfl, rfl, rfl, rfl⟩

variable {row : EventRow}

theorem markProcessed_of_ne (h : row.key ≠ (room, eventId)) :
    markProcessed room eventId row = row := if_neg h

/-- Whether a message shows what it should depends on what it names only. -/
theorem Shows.congr {edits : Set (Int ×ₗ String)} {target' : EventRow} (h : Shows late edits target)
    (hkey : target'.key = target.key) (hshown : shownStamp target' = shownStamp target)
    (href : target'.refEventId = target.refEventId)
    (hmodified : target'.modifiedTimestamp = target.modifiedTimestamp) :
    Shows late edits target' := by
  rw [Shows, hkey, hshown, href, hmodified]
  exact h

/-- An edit that applies to a message is shown if it is newer, and passed over
if it is not. -/
theorem Sound.applied (h : Sound late pending events) {editId : String}
    (hedit : findEvent events room editId = some edit) (href : edit.refEventId = some targetId)
    (htarget : findEvent events room targetId = some target) (happlies : Applies edit target)
    (hredacted : target.isRedacted = false)
    (hlate : target.refEventId = none → edit.originServerTs < 0 → target.key ∈ late) :
    Sound late (pending \ {(room, editId)})
      (if isNewer edit target then
        setProcessed (setCurrentEdit events room targetId (some editId) edit.originServerTs)
          room editId
      else
        setProcessed events room editId) := by
  obtain ⟨hmem, hroom, hid⟩ := mem_of_findEvent hedit
  obtain ⟨htargetMem, htargetRoom, htargetId⟩ := mem_of_findEvent htarget
  have hkey : edit.key = (room, editId) := by rw [EventRow.key, hroom, hid]
  have htargetKey : target.key = (room, targetId) := by rw [EventRow.key, htargetRoom, htargetId]
  have hne : target.key ≠ edit.key := by
    intro heq
    have hsame := h.keyed.eq_of_key htargetMem hmem heq
    have hclasses := replaces_classes happlies.valid
    rw [hsame, hclasses.2] at hclasses
    cases hclasses.1
  have hmarked : edit.eventClass = .edit → (markProcessed room editId edit).isProcessed = false →
      ∀ target ∈ events, target.room = edit.room → edit.refEventId = some target.eventId →
        target.eventClass = .general := by
    intro _ hunprocessed
    rw [markProcessed, if_pos hkey] at hunprocessed
    cases hunprocessed
  have hbefore := h.shows target htargetMem (replaces_classes happlies.valid).1 hredacted
  have hthis : editsOf (pending \ {edit.key}) events target =
      insert (stamp edit) (editsOf pending events target) := by
    rw [editsOf_drop h.keyed hmem]
    ext k
    simp only [Set.mem_union, Set.mem_ofPred_eq, happlies, true_and, Set.mem_insert_iff]
    rw [or_comm, eq_comm]
  have hothers : ∀ other ∈ events, other ≠ target →
      editsOf (pending \ {edit.key}) events other = editsOf pending events other := by
    intro other hother hneOther
    refine editsOf_drop_of_not_applies h.keyed hmem fun happliesOther => hneOther ?_
    exact happliesOther.target_eq h.keyed hroom href htarget hother
  rw [← hkey]
  split_ifs with hnewer
  · -- Naming the edit and marking it are one change of the rows.
    have hframe : ∀ row, Frame row (markProcessed room editId
        (markCurrentEdit room targetId (some editId) edit.originServerTs row)) := fun row =>
      (markCurrentEdit_frame room targetId (some editId) edit.originServerTs row).trans
        (markProcessed_frame room editId _)
    have hmap : setProcessed (setCurrentEdit events room targetId (some editId)
          edit.originServerTs) room editId =
        events.map fun row => markProcessed room editId
          (markCurrentEdit room targetId (some editId) edit.originServerTs row) := by
      rw [setProcessed_eq_map]
      exact List.map_map
    rw [hmap]
    refine h.processed hmem hframe ?_ ?_ ?_ ?_
    · intro row _
      rw [(markProcessed_marks room editId _).1]
      exact (markCurrentEdit_marks room targetId (some editId) edit.originServerTs row).2
    · intro row hneRow
      rw [markProcessed_of_ne]
      · exact (markCurrentEdit_marks room targetId (some editId) edit.originServerTs row).1
      · rw [(markCurrentEdit_frame room targetId (some editId) edit.originServerTs row).key, ← hkey]
        exact hneRow
    · rw [markCurrentEdit, if_neg (by rw [← htargetKey]; exact hne.symm)]
      exact hmarked
    · intro other hother hclass hotherRedacted
      by_cases hsame : other = target
      · subst hsame
        rw [hthis]
        refine hbefore.newer hnewer ?_
        rw [(markProcessed_marks room editId _).2.1, markCurrentEdit, if_pos htargetKey,
          if_pos hclass, shownStamp, stamp, hid]
        rfl
      · have hkeyNe : other.key ≠ (room, targetId) := by
          intro heq
          exact hsame (h.keyed.eq_of_key hother htargetMem (heq.trans htargetKey.symm))
        rw [hothers other hother hsame, markCurrentEdit, if_neg hkeyNe]
        obtain ⟨_, hshown, hrefSame, hmodified⟩ := markProcessed_marks room editId other
        exact (h.shows other hother hclass hotherRedacted).congr
          (markProcessed_frame room editId other).key hshown hrefSame hmodified
  · rw [setProcessed_eq_map]
    refine h.processed hmem (markProcessed_frame room editId)
      (fun row _ => (markProcessed_marks room editId row).1) ?_ hmarked ?_
    · intro row hneRow
      rw [markProcessed_of_ne (by rw [← hkey]; exact hneRow)]
    · intro other hother hclass hotherRedacted
      obtain ⟨_, hshown, hrefSame, hmodified⟩ := markProcessed_marks room editId other
      refine Shows.congr ?_ (markProcessed_frame room editId other).key hshown hrefSame hmodified
      by_cases hsame : other = target
      · subst hsame
        rw [hthis]
        exact hbefore.older hlate (by simpa using hnewer)
      · rw [hothers other hother hsame]
        exact h.shows other hother hclass hotherRedacted

theorem Sound.applyEdit (h : Sound late pending events) (room editId : String)
    (hlate : ∀ edit ∈ events, edit.key = (room, editId) → ∀ target ∈ events, Applies edit target →
      target.refEventId = none → edit.originServerTs < 0 → target.key ∈ late) :
    Sound late (pending \ {(room, editId)}) (applyEdit room events editId) := by
  rw [WbfMatrixClient.applyEdit]
  cases hfind : findEvent events room editId with
  | none =>
    refine h.congr_pending fun row hrow => ?_
    have hne : row.key ≠ (room, editId) := Table.find_eq_none_iff.mp hfind row hrow
    exact ⟨fun hmem => hmem.1, fun hmem => ⟨hmem, hne⟩⟩
  | some edit =>
    obtain ⟨hmem, hroom, hid⟩ := mem_of_findEvent hfind
    have hkey : edit.key = (room, editId) := by rw [EventRow.key, hroom, hid]
    simp only
    split_ifs with hstop
    · rcases hstop with hclass | hprocessed
      · have hsame := h.skipped hmem (g := id) Frame.refl (fun _ => rfl) (fun _ _ => rfl)
          (fun hedit => absurd hedit hclass)
          (fun _ _ _ happlies => hclass (replaces_classes happlies.valid).2)
        rwa [List.map_id, hkey] at hsame
      · refine h.congr_pending fun row hrow => ⟨fun hmem => hmem.1, fun hpending => ?_⟩
        refine ⟨hpending, fun heq => ?_⟩
        have hsame := h.keyed.eq_of_key hrow hmem (heq.trans hkey.symm)
        have hunapplied := (h.unapplied row hrow hpending).2
        rw [hsame, hprocessed] at hunapplied
        cases hunapplied
    · cases href : edit.refEventId with
      | none =>
        refine h.skip hfind fun target _ _ happlies => ?_
        have hnone := happlies.ref
        rw [href] at hnone
        cases hnone
      | some targetId =>
        simp only
        cases htarget : findEvent events room targetId with
        | none =>
          refine h.wait hfind fun target hmemTarget hroomTarget hrefTarget => ?_
          rw [href, Option.some.injEq] at hrefTarget
          exact absurd ⟨hroomTarget.trans hroom, hrefTarget.symm⟩
            (not_mem_of_findEvent htarget hmemTarget)
        | some target =>
          obtain ⟨htargetMem, htargetRoom, htargetId⟩ := mem_of_findEvent htarget
          simp only
          split_ifs with hgeneral hinvalid hnewer
          · refine h.wait hfind fun other hother hroomOther hrefOther => ?_
            rw [href, Option.some.injEq] at hrefOther
            rw [h.keyed.eq_of_key hother htargetMem]
            · exact hgeneral
            · rw [EventRow.key, EventRow.key, hroomOther, hroom, ← hrefOther, htargetRoom,
                htargetId]
          · refine h.skip hfind fun other hother hotherRedacted happlies => ?_
            obtain rfl := happlies.target_eq h.keyed hroom href htarget hother
            rcases hinvalid with hred | hred | hnot
            · rw [hotherRedacted] at hred
              cases hred
            · rw [happlies.live] at hred
              cases hred
            · rw [happlies.valid] at hnot
              cases hnot
          all_goals
            simp only [not_or, Bool.not_eq_true, Bool.not_eq_false] at hinvalid
            obtain ⟨htargetLive, heditLive, hvalid⟩ := hinvalid
            have happlies : Applies edit target :=
              ⟨hroom.trans htargetRoom.symm, by rw [href, htargetId], heditLive, hvalid⟩
            have happlied := h.applied hfind href htarget happlies htargetLive
              (hlate edit hmem hkey target htargetMem happlies)
          · rwa [if_pos hnewer] at happlied
          · rwa [if_neg hnewer] at happlied

/-- Applying several edits accounts for all of them. -/
theorem Sound.applyEdits (room : String) :
    ∀ (editIds : List String) {pending : Set (String × String)} {events : List EventRow},
      Sound late pending events →
      (∀ edit ∈ events, edit.room = room → edit.eventId ∈ editIds → ∀ target ∈ events,
        Applies edit target → edit.originServerTs < 0 → target.key ∈ late) →
        Sound late (pending \ {k | k.1 = room ∧ k.2 ∈ editIds})
          (editIds.foldl (WbfMatrixClient.applyEdit room) events) := by
  intro editIds
  induction editIds with
  | nil =>
    intro pending events h _
    exact h.congr_pending fun row _ => by simp
  | cons editId editIds ih =>
    intro pending events h hlate
    have happlied := h.applyEdit room editId ?_
    · refine (ih happlied ?_).congr_pending fun row _ => ?_
      · intro edit' hedit' hroom hid target' htarget' happlies hneg
        obtain ⟨edit, hedit, hframe⟩ := (applyEdit_reframed room events editId).mem hedit'
        obtain ⟨target, htarget, hframeTarget⟩ :=
          (applyEdit_reframed room events editId).mem htarget'
        rw [hframeTarget.key]
        rw [hframe.room] at hroom
        rw [hframe.eventId] at hid
        rw [hframe.originServerTs] at hneg
        exact hlate edit hedit hroom (List.mem_cons_of_mem _ hid) target htarget
          ((applies_iff hframe hframeTarget).mp happlies).1 hneg
      simp only [Set.mem_sdiff, Set.mem_ofPred_eq, Set.mem_singleton_iff, List.mem_cons]
      constructor
      · rintro ⟨hmem, hnot⟩
        refine ⟨⟨hmem, fun heq => hnot ?_⟩, fun hrest => hnot ⟨hrest.1, .inr hrest.2⟩⟩
        rw [heq]
        exact ⟨rfl, .inl rfl⟩
      · rintro ⟨⟨hmem, hne⟩, hnot⟩
        refine ⟨hmem, ?_⟩
        rintro ⟨hroom, hid | hid⟩
        · exact hne (Prod.ext hroom hid)
        · exact hnot ⟨hroom, hid⟩
    · intro edit hedit hkey target htarget happlies _ hneg
      exact hlate edit hedit (congrArg Prod.fst hkey)
        (by rw [show edit.eventId = editId from congrArg Prod.snd hkey]; simp)
        target htarget happlies hneg

theorem Shows.diff {edits : Set (Int ×ₗ String)} {target : EventRow} {k : Int ×ₗ String}
    (h : Shows late edits target) (hk : shownStamp target ≠ some k) :
    Shows late (edits \ {k}) target := by
  refine ⟨?_, h.2⟩
  rcases h.1 with hnewest | ⟨hnone, hmissed⟩
  · exact .inl (hnewest.diff hk)
  · exact .inr ⟨hnone, fun x hx => hmissed x hx.1⟩

/-- The row marked as redacted. -/
def markRedacted (room eventId : String) (modifiedTimestamp : Int) (row : EventRow) : EventRow :=
  if row.key = (room, eventId) then
    { row with isRedacted := true, modifiedTimestamp := modifiedTimestamp }
  else
    row

theorem markRedacted_frame (room eventId : String) (modifiedTimestamp : Int) (row : EventRow) :
    Frame row (markRedacted room eventId modifiedTimestamp row) := by
  rw [markRedacted]
  split_ifs
  · exact ⟨rfl, rfl, id, fun _ => rfl, fun _ => rfl, fun _ h => (by cases h),
      fun _ hjson => hjson⟩
  · exact Frame.refl row

/-- The table with the target marked as redacted and the redaction as
processed. -/
def markBoth (room targetId redactionId : String) (ts : Int) (row : EventRow) : EventRow :=
  markProcessed room redactionId (markRedacted room targetId ts row)

theorem markBoth_frame (room targetId redactionId : String) (ts : Int) (row : EventRow) :
    Frame row (markBoth room targetId redactionId ts row) :=
  (markRedacted_frame room targetId ts row).trans (markProcessed_frame room redactionId _)

theorem setBoth_eq_map (room targetId redactionId : String) (ts : Int) :
    setProcessed (setRedacted events room targetId ts) room redactionId =
      events.map (markBoth room targetId redactionId ts) := by
  rw [setProcessed_eq_map]
  exact List.map_map

theorem markBoth_isRedacted (room targetId redactionId : String) (ts : Int) (row : EventRow) :
    (markBoth room targetId redactionId ts row).isRedacted =
      (decide (row.key = (room, targetId)) || row.isRedacted) := by
  rw [markBoth, (markProcessed_marks room redactionId _).1, markRedacted]
  split_ifs with hkey <;> simp [hkey]

/-- Only the target and the redaction are marked. -/
theorem markBoth_of_ne (htarget : row.key ≠ (room, targetId)) (redactionId : String) (ts : Int) :
    shownStamp (markBoth room targetId redactionId ts row) = shownStamp row ∧
      (markBoth room targetId redactionId ts row).refEventId = row.refEventId ∧
      (markBoth room targetId redactionId ts row).modifiedTimestamp = row.modifiedTimestamp := by
  rw [markBoth, markRedacted, if_neg htarget]
  exact (markProcessed_marks room redactionId row).2

variable {redactionId : String} {ts : Int} {edited : EventRow}

/-- A message that does not name the redacted edit shows what it should of the
others. -/
theorem Sound.shows_markBoth (h : Sound late pending events)
    (htarget : findEvent events room targetId = some target) (hedited : edited ∈ events)
    (hclass : edited.eventClass = .msg)
    (hlive : (markBoth room targetId redactionId ts edited).isRedacted = false)
    (hnot : ¬(edited.room = room ∧ edited.refEventId = some targetId)) :
    Shows late (editsOf pending (events.map (markBoth room targetId redactionId ts))
        (markBoth room targetId redactionId ts edited))
      (markBoth room targetId redactionId ts edited) := by
  obtain ⟨htargetMem, htargetRoom, htargetId⟩ := mem_of_findEvent htarget
  have htargetKey : target.key = (room, targetId) := by rw [EventRow.key, htargetRoom, htargetId]
  rw [markBoth_isRedacted, Bool.or_eq_false_iff, decide_eq_false_iff_not] at hlive
  obtain ⟨hshown, href, hmodified⟩ := markBoth_of_ne hlive.1 redactionId ts
  refine Shows.congr ?_ (markBoth_frame room targetId redactionId ts edited).key hshown href
    hmodified
  have hbefore := h.shows edited hedited hclass hlive.2
  rw [editsOf_map (markBoth_frame room targetId redactionId ts)]
  by_cases happlies : Applies target edited
  · have hedits : {k | ∃ edit ∈ events, edit.key ∉ pending ∧ Applies edit edited ∧
        (markBoth room targetId redactionId ts edit).isRedacted = false ∧ stamp edit = k} =
        editsOf pending events edited \ {stamp target} := by
      ext k
      constructor
      · rintro ⟨edit, hedit, hpending, hedits, hsame, rfl⟩
        rw [markBoth_isRedacted, Bool.or_eq_false_iff, decide_eq_false_iff_not] at hsame
        refine ⟨⟨edit, hedit, hpending, hedits, rfl⟩, fun heq => hsame.1 ?_⟩
        have hid : edit.eventId = target.eventId := congrArg (fun x => (ofLex x).2) heq
        rw [EventRow.key, hedits.room, ← happlies.room, hid, htargetRoom, htargetId]
      · rintro ⟨⟨edit, hedit, hpending, hedits, rfl⟩, hne⟩
        refine ⟨edit, hedit, hpending, hedits, ?_, rfl⟩
        rw [markBoth_isRedacted, hedits.live, Bool.or_false, decide_eq_false_iff_not]
        intro hkey
        refine hne ?_
        rw [Set.mem_singleton_iff, h.keyed.eq_of_key hedit htargetMem (hkey.trans htargetKey.symm)]
    rw [hedits]
    refine hbefore.diff fun hnames => hnot ⟨?_, ?_⟩
    · rw [← happlies.room, htargetRoom]
    · cases hcurrent : edited.refEventId with
      | none =>
        rw [shownStamp, hcurrent] at hnames
        cases hnames
      | some current =>
        rw [shownStamp, hcurrent, Option.map_some, Option.some.injEq] at hnames
        have hid : current = target.eventId := congrArg (fun x => (ofLex x).2) hnames
        rw [hid, htargetId]
  · have hedits : {k | ∃ edit ∈ events, edit.key ∉ pending ∧ Applies edit edited ∧
        (markBoth room targetId redactionId ts edit).isRedacted = false ∧ stamp edit = k} =
        editsOf pending events edited := by
      ext k
      constructor
      · rintro ⟨edit, hedit, hpending, hedits, _, hk⟩
        exact ⟨edit, hedit, hpending, hedits, hk⟩
      · rintro ⟨edit, hedit, hpending, hedits, hk⟩
        refine ⟨edit, hedit, hpending, hedits, ?_, hk⟩
        rw [markBoth_isRedacted, hedits.live, Bool.or_false, decide_eq_false_iff_not]
        intro hkey
        rw [h.keyed.eq_of_key hedit htargetMem (hkey.trans htargetKey.symm)] at hedits
        exact happlies hedits
    rw [hedits]
    exact hbefore

/-- Marking rows keeps what is not about messages. -/
theorem Sound.of_marked (h : Sound late pending events) (hg : ∀ row, Frame row (g row))
    (hedits : ∀ row ∈ events, row.eventClass = .edit → (g row).isProcessed = row.isProcessed)
    (hshows : ∀ target ∈ events, target.eventClass = .msg → (g target).isRedacted = false → Shows
      late (editsOf pending (events.map g) (g target)) (g target)) :
    Sound late pending (events.map g) := by
  refine ⟨Reframed.keyed ⟨g, hg, rfl⟩ h.keyed, ?_, ?_, ?_, h.unread_map hg⟩
  · intro row hrow hpending
    obtain ⟨old, hold, rfl⟩ := List.mem_map.mp hrow
    rw [(hg old).key] at hpending
    obtain ⟨hclass, hunprocessed⟩ := h.unapplied old hold hpending
    rw [(hg old).eventClass, hedits old hold hclass]
    exact ⟨hclass, hunprocessed⟩
  · intro row hrow hclass hunprocessed hpending target htarget hroom href
    obtain ⟨old, hold, rfl⟩ := List.mem_map.mp hrow
    obtain ⟨oldTarget, holdTarget, rfl⟩ := List.mem_map.mp htarget
    rw [(hg old).eventClass] at hclass
    rw [(hg old).key] at hpending
    rw [(hg oldTarget).room, (hg old).room] at hroom
    rw [(hg old).ref (by rw [hclass]; decide), (hg oldTarget).eventId] at href
    rw [(hg oldTarget).eventClass]
    rw [hedits old hold hclass] at hunprocessed
    exact h.waiting old hold hclass hunprocessed hpending oldTarget holdTarget hroom href
  · intro row hrow hclass hredacted
    obtain ⟨old, hold, rfl⟩ := List.mem_map.mp hrow
    rw [(hg old).eventClass] at hclass
    exact hshows old hold hclass hredacted

theorem isLater_iff {a b : EventRow} : a.isLater b = true ↔ stamp b ≤ stamp a := by
  rw [EventRow.isLater, decide_eq_true_eq, stamp, stamp, Prod.Lex.toLex_le_toLex]
  constructor
  · rintro (hlt | ⟨heq, hle⟩)
    · exact .inl hlt
    · exact .inr ⟨heq.symm, hle⟩
  · rintro (hlt | ⟨heq, hle⟩)
    · exact .inl hlt
    · exact .inr ⟨heq.symm, hle⟩

instance : Std.Total fun a b : EventRow => a.isLater b = true where
  total a b := by
    rw [isLater_iff, isLater_iff]
    exact le_total (stamp b) (stamp a)

instance : IsTrans EventRow fun a b => a.isLater b = true where
  trans a b c hab hbc := by
    rw [isLater_iff] at *
    exact hbc.trans hab

theorem candidates_sorted (events : List EventRow) (room edited : String) :
    (listCandidates events room edited).Pairwise fun a b => stamp b ≤ stamp a := by
  refine (List.pairwise_insertionSort (fun a b : EventRow => a.isLater b = true) _).imp ?_
  intro a b hab
  exact isLater_iff.mp hab

theorem mem_candidates {events : List EventRow} {edited : String} :
    row ∈ listCandidates events room edited ↔
      row ∈ events ∧ row.room = room ∧ row.refEventId = some edited ∧ row.eventClass = .edit ∧
        row.isRedacted = false := by
  rw [listCandidates, List.mem_insertionSort, List.mem_filter, decide_eq_true_eq]

/-- The edit that a message falls back to. -/
def fallback (room : String) (events : List EventRow) (edited : EventRow) : Option EventRow :=
  (listCandidates events room edited.eventId).find? fun edit => edit.replaces edited

theorem reselect_eq_map (room : String) (events : List EventRow) (edited : EventRow) :
    reselect room events edited =
      events.map (markCurrentEdit room edited.eventId
        ((fallback room events edited).map EventRow.eventId)
        (((fallback room events edited).map EventRow.originServerTs).getD 0)) := by
  rw [reselect, fallback]
  cases (listCandidates events room edited.eventId).find? fun edit => edit.replaces edited with
  | none | some previous => rfl

/-- The edit that a message falls back to is the latest of its edits. -/
theorem fallback_newest (hroom : edited.room = room)
    (hpending : ∀ edit ∈ events, Applies edit edited → edit.key ∉ pending) :
    Newest (editsOf pending events edited) ((fallback room events edited).map stamp) := by
  have hnewest := newest_find? (p := fun edit => edit.replaces edited)
    (candidates_sorted events room edited.eventId)
  have hedits : {k | ∃ row ∈ listCandidates events room edited.eventId,
      row.replaces edited = true ∧ stamp row = k} = editsOf pending events edited := by
    ext k
    constructor
    · rintro ⟨row, hrow, hvalid, rfl⟩
      obtain ⟨hmem, hrowRoom, href, _, hlive⟩ := mem_candidates.mp hrow
      have happlies : Applies row edited := ⟨hrowRoom.trans hroom.symm, href, hlive, hvalid⟩
      exact ⟨row, hmem, hpending row hmem happlies, happlies, rfl⟩
    · rintro ⟨row, hmem, _, happlies, rfl⟩
      exact ⟨row, mem_candidates.mpr ⟨hmem, happlies.room.trans hroom, happlies.ref,
        (replaces_classes happlies.valid).2, happlies.live⟩, happlies.valid, rfl⟩
  rw [hedits] at hnewest
  exact hnewest

/-- The message that falls back shows what it should. -/
theorem reselect_shows (hkey : edited.key = (room, edited.eventId))
    (hclass : edited.eventClass = .msg)
    (hpending : ∀ edit ∈ events, Applies edit edited → edit.key ∉ pending) :
    Shows late (editsOf pending events edited)
      (markCurrentEdit room edited.eventId ((fallback room events edited).map EventRow.eventId)
        (((fallback room events edited).map EventRow.originServerTs).getD 0) edited) := by
  have hroom : edited.room = room := congrArg Prod.fst hkey
  have hnewest := fallback_newest hroom hpending
  rw [markCurrentEdit, if_pos hkey, if_pos hclass]
  cases hfallback : fallback room events edited with
  | none =>
    rw [hfallback] at hnewest
    exact ⟨.inl hnewest, fun _ => rfl⟩
  | some previous =>
    rw [hfallback] at hnewest
    refine ⟨.inl hnewest, ?_⟩
    rintro ⟨⟩

/-- What a message names is one of its edits that have been applied. -/
theorem Sound.current (h : Sound late pending events) {edited : EventRow}
    (hedited : edited ∈ events) (hclass : edited.eventClass = .msg)
    (hlive : edited.isRedacted = false) {current : String}
    (href : edited.refEventId = some current) :
    ∃ edit ∈ events, edit.key ∉ pending ∧ Applies edit edited ∧ edit.eventId = current := by
  have hshown : shownStamp edited = some (toLex (edited.modifiedTimestamp, current)) := by
    rw [shownStamp, href]
    rfl
  rcases (h.shows edited hedited hclass hlive).1 with hnewest | ⟨hnone, _⟩
  · rw [hshown] at hnewest
    obtain ⟨edit, hedit, hpending, happlies, hstamp⟩ := hnewest.mem
    exact ⟨edit, hedit, hpending, happlies, congrArg (fun x => (ofLex x).2) hstamp⟩
  · rw [hshown] at hnone
    cases hnone

/-- The messages that name an edit are those it applies to. -/
theorem Sound.applies_of_names (h : Sound late pending events)
    (htarget : findEvent events room targetId = some target) (hedited : edited ∈ events)
    (hclass : edited.eventClass = .msg) (hlive : edited.isRedacted = false)
    (hroom : edited.room = room) (hnames : edited.refEventId = some targetId) :
    Applies target edited := by
  obtain ⟨htargetMem, htargetRoom, htargetId⟩ := mem_of_findEvent htarget
  obtain ⟨edit, hedit, _, happlies, hid⟩ := h.current hedited hclass hlive hnames
  have hsame : edit = target := by
    refine h.keyed.eq_of_key hedit htargetMem ?_
    rw [EventRow.key, EventRow.key, happlies.room, hroom, hid, htargetRoom, htargetId]
  rwa [hsame] at happlies

/-- A target that no message names is marked, and nothing else changes. -/
theorem Sound.redacted (h : Sound late pending events)
    (htarget : findEvent events room targetId = some target)
    (hedits : ∀ row ∈ events, row.eventClass = .edit → (markBoth room targetId redactionId ts
      row).isProcessed = row.isProcessed)
    (hnot : ∀ edited ∈ events, edited.eventClass = .msg → edited.isRedacted = false →
      edited.refEventId = some targetId → ¬Applies target edited) :
    Sound late pending (events.map (markBoth room targetId redactionId ts)) := by
  refine h.of_marked (markBoth_frame room targetId redactionId ts) hedits ?_
  intro edited hedited hclass hlive
  refine h.shows_markBoth htarget hedited hclass hlive ?_
  rintro ⟨hroom, hnames⟩
  rw [markBoth_isRedacted, Bool.or_eq_false_iff] at hlive
  exact hnot edited hedited hclass hlive.2 hnames
    (h.applies_of_names htarget hedited hclass hlive.2 hroom hnames)

/-- No message is to select anew while one of its edits is still to be
applied. -/
def SelectsFreely (pending : Set (String × String)) (events : List EventRow)
    (room redactionId : String) : Prop :=
  ∀ redaction ∈ events, redaction.key = (room, redactionId) → ∀ edited ∈ events,
    edited.room = room → edited.eventClass = .msg → edited.isRedacted = false →
    edited.refEventId = redaction.refEventId →
      ∀ edit ∈ events, Applies edit edited → edit.key ∉ pending

/-- A target that a message names is marked, and the message selects anew. -/
theorem Sound.reselected (h : Sound late pending events) {editedId : String}
    (htarget : findEvent events room targetId = some target)
    (htargetClass : target.eventClass = .edit) (htargetRef : target.refEventId = some editedId)
    (hedited : findEvent events room editedId = some edited) (hclass : edited.eventClass = .msg)
    (hedits : ∀ row ∈ events, row.eventClass = .edit → (markBoth room targetId redactionId ts
      row).isProcessed = row.isProcessed)
    (hfree : edited.isRedacted = false → ∀ edit ∈ events, Applies edit edited → edit.key ∉
      pending) :
    Sound late pending (reselect room (events.map (markBoth room targetId redactionId ts))
      (markBoth room targetId redactionId ts edited)) := by
  obtain ⟨heditedMem, heditedRoom, heditedId⟩ := mem_of_findEvent hedited
  obtain ⟨htargetMem, htargetRoom, htargetId⟩ := mem_of_findEvent htarget
  have hframe := markBoth_frame room targetId redactionId ts
  have heditedKey : edited.key = (room, editedId) := by rw [EventRow.key, heditedRoom, heditedId]
  have htargetKey : target.key = (room, targetId) := by rw [EventRow.key, htargetRoom, htargetId]
  have hne : edited.key ≠ (room, targetId) := by
    intro heq
    rw [h.keyed.eq_of_key heditedMem htargetMem (heq.trans htargetKey.symm), htargetClass] at hclass
    cases hclass
  have hmarkedId : (markBoth room targetId redactionId ts edited).eventId = editedId :=
    (hframe edited).eventId.trans heditedId
  have hmarkedKey : (markBoth room targetId redactionId ts edited).key = (room, editedId) :=
    (hframe edited).key.trans heditedKey
  rw [reselect_eq_map, hmarkedId]
  have hshows := @reselect_shows late pending
    (events.map (markBoth room targetId redactionId ts)) room
    (markBoth room targetId redactionId ts edited) (by rw [hmarkedId]; exact hmarkedKey)
    ((hframe edited).eventClass.trans hclass)
  rw [hmarkedId] at hshows
  generalize (fallback room (events.map (markBoth room targetId redactionId ts))
    (markBoth room targetId redactionId ts edited)).map EventRow.eventId = edit at hshows ⊢
  generalize ((fallback room (events.map (markBoth room targetId redactionId ts))
    (markBoth room targetId redactionId ts edited)).map
      EventRow.originServerTs).getD 0 = modified at hshows ⊢
  have hname := markCurrentEdit_frame room editedId edit modified
  have hlive := fun row => (markCurrentEdit_marks room editedId edit modified row).2
  rw [List.map_map]
  refine h.of_marked (g := markCurrentEdit room editedId edit modified ∘
    markBoth room targetId redactionId ts)
    (fun row => (hframe row).trans (hname _)) ?_ ?_
  · intro row hrow hrowClass
    rw [Function.comp_apply, (markCurrentEdit_marks room editedId edit modified _).1]
    exact hedits row hrow hrowClass
  · intro other hother hotherClass hotherLive
    rw [Function.comp_apply, hlive] at hotherLive
    rw [← List.map_map, Function.comp_apply,
      editsOf_map_of_live hname (fun row _ => hlive row)]
    by_cases hsame : other = edited
    · subst hsame
      rw [markBoth_isRedacted, Bool.or_eq_false_iff] at hotherLive
      refine hshows ?_
      intro row hrow happlies
      obtain ⟨old, hold, rfl⟩ := List.mem_map.mp hrow
      rw [(hframe old).key]
      exact hfree hotherLive.2 old hold ((applies_iff (hframe old) (hframe other)).mp happlies).1
    · have hotherKey : (markBoth room targetId redactionId ts other).key ≠ (room, editedId) := by
        rw [(hframe other).key]
        intro heq
        exact hsame (h.keyed.eq_of_key hother heditedMem (heq.trans heditedKey.symm))
      rw [markCurrentEdit, if_neg hotherKey]
      refine h.shows_markBoth htarget hother hotherClass hotherLive ?_
      rintro ⟨hroom, hnames⟩
      rw [markBoth_isRedacted, Bool.or_eq_false_iff] at hotherLive
      have happlies := h.applies_of_names htarget hother hotherClass hotherLive.2 hroom hnames
      exact hsame (happlies.target_eq h.keyed htargetRoom htargetRef hedited hother)

/-- Redacting an event, and selecting anew if a message names it. -/
theorem Sound.applyRedaction (h : Sound late pending events) (room redactionId : String)
    (hfree : SelectsFreely pending events room redactionId) :
    Sound late pending (applyRedaction room events redactionId) := by
  rw [WbfMatrixClient.applyRedaction]
  cases hfind : findEvent events room redactionId with
  | none => exact h
  | some redaction =>
    obtain ⟨hmem, hroom, hid⟩ := mem_of_findEvent hfind
    have hkey : redaction.key = (room, redactionId) := by rw [EventRow.key, hroom, hid]
    simp only
    split_ifs with hstop
    · exact h
    rw [not_or, not_not] at hstop
    have hother : ∀ row ∈ events, row.eventClass = .edit → row.key ≠ (room, redactionId) := by
      intro row hrow hclass heq
      rw [h.keyed.eq_of_key hrow hmem (heq.trans hkey.symm), hstop.1] at hclass
      cases hclass
    have hedits : ∀ targetId ts, ∀ row ∈ events, row.eventClass = .edit →
        (markBoth room targetId redactionId ts row).isProcessed = row.isProcessed := by
      intro targetId ts row hrow hclass
      rw [markBoth, markProcessed_of_ne (by
        rw [(markRedacted_frame room targetId ts row).key]
        exact hother row hrow hclass), markRedacted]
      split_ifs <;> rfl
    cases href : redaction.refEventId with
    | none =>
      rw [setProcessed_eq_map]
      refine h.of_marked (markProcessed_frame room redactionId) ?_ ?_
      · intro row hrow hclass
        rw [markProcessed_of_ne (hother row hrow hclass)]
      · intro target htarget hclass hlive
        obtain ⟨hsame, hshown, hrefSame, hmodified⟩ :=
          markProcessed_marks room redactionId target
        rw [editsOf_map_of_live (markProcessed_frame room redactionId)
          (fun row _ => (markProcessed_marks room redactionId row).1)]
        rw [hsame] at hlive
        exact (h.shows target htarget hclass hlive).congr
          (markProcessed_frame room redactionId target).key hshown hrefSame hmodified
    | some targetId =>
      simp only
      cases htarget : findEvent events room targetId with
      | none => exact h
      | some target =>
        simp only [setBoth_eq_map]
        split_ifs with hnotEdit
        · exact h.redacted htarget (hedits targetId _) fun _ _ _ _ _ happlies =>
            hnotEdit (replaces_classes happlies.valid).2
        rw [not_not] at hnotEdit
        cases htargetRef : target.refEventId with
        | none =>
          refine h.redacted htarget (hedits targetId _) fun _ _ _ _ _ happlies => ?_
          have hsome := happlies.ref
          rw [htargetRef] at hsome
          cases hsome
        | some editedId =>
          obtain ⟨_, htargetRoom, _⟩ := mem_of_findEvent htarget
          simp only
          rw [findEvent_map (markBoth_frame room targetId redactionId _)]
          cases hedited : findEvent events room editedId with
          | none =>
            refine h.redacted htarget (hedits targetId _) ?_
            intro other hotherMem _ _ _ happlies
            refine not_mem_of_findEvent hedited hotherMem ⟨?_, ?_⟩
            · exact happlies.room.symm.trans htargetRoom
            · have hsome := happlies.ref.symm.trans htargetRef
              simpa using hsome
          | some edited =>
            obtain ⟨heditedMem, heditedRoom, _⟩ := mem_of_findEvent hedited
            obtain ⟨htargetMem, _, htargetId⟩ := mem_of_findEvent htarget
            have hframe := markBoth_frame room targetId redactionId
              redaction.originServerTs edited
            have hrefSame : edited.eventClass = .msg →
                (markBoth room targetId redactionId redaction.originServerTs
                  edited).refEventId = edited.refEventId := by
              intro hclass
              refine (markBoth_of_ne ?_ redactionId _).2.1
              intro heq
              have hsame : edited = target := by
                refine h.keyed.eq_of_key heditedMem htargetMem (heq.trans ?_)
                rw [EventRow.key, htargetRoom, htargetId]
              rw [hsame, hnotEdit] at hclass
              cases hclass
            simp only [Option.map_some]
            rw [hframe.eventClass]
            split_ifs with hnames
            · obtain ⟨hclass, hnames⟩ := hnames
              rw [hrefSame hclass] at hnames
              exact h.reselected htarget hnotEdit htargetRef hedited hclass
                (hedits targetId _) fun hlive => hfree redaction hmem hkey edited
                  heditedMem heditedRoom hclass hlive (hnames.trans href.symm)
            · refine h.redacted htarget (hedits targetId _) ?_
              intro other hotherMem hclass _ hotherNames happlies
              rw [happlies.target_eq h.keyed htargetRoom htargetRef hedited
                hotherMem] at hclass hotherNames
              exact hnames ⟨hclass, by rw [hrefSame hclass, hotherNames]⟩

/-- The redactions that have waited for an event that no message can name
yet. -/
theorem Sound.applyRedactions (room targetId : String) :
    ∀ (redactionIds : List String) {events : List EventRow},
      Sound late pending events →
      (∀ redactionId ∈ redactionIds, ∀ redaction ∈ events,
        redaction.key = (room, redactionId) →
          redaction.eventClass = .redact ∧ redaction.refEventId = some targetId) →
      (∀ target ∈ events, target.key = (room, targetId) → target.eventClass = .edit →
        target.key ∈ pending) →
      Sound late pending (redactionIds.foldl (WbfMatrixClient.applyRedaction room) events) := by
  intro redactionIds
  induction redactionIds with
  | nil =>
    intro events h _ _
    exact h
  | cons redactionId redactionIds ih =>
    intro events h hnames htarget
    have hframed := applyRedaction_reframed room events redactionId
    refine ih (h.applyRedaction room redactionId ?_) ?_ ?_
    · intro redaction hredaction hkey edited hedited hroom hclass hlive hcurrent
      rw [(hnames redactionId (by simp) redaction hredaction hkey).2] at hcurrent
      obtain ⟨edit, hedit, hpending, happlies, hid⟩ :=
        h.current hedited hclass hlive hcurrent
      refine absurd (htarget edit hedit ?_ (replaces_classes happlies.valid).2) hpending
      rw [EventRow.key, happlies.room, hroom, hid]
    · intro other hother redaction' hredaction' hkey
      obtain ⟨redaction, hredaction, hframe⟩ := hframed.mem hredaction'
      obtain ⟨hclass, href⟩ := hnames other (by simp [hother]) redaction hredaction
        (hframe.key.symm.trans hkey)
      refine ⟨hframe.eventClass.trans hclass, ?_⟩
      rw [hframe.ref (by rw [hclass]; decide), href]
    · intro target' htarget' hkey hclass
      obtain ⟨target, hmem, hframe⟩ := hframed.mem htarget'
      rw [hframe.key] at hkey ⊢
      exact htarget target hmem hkey (hframe.eventClass.symm.trans hclass)

theorem mem_listWaitingRelations {target id : String} {eventClass : EventClass} :
    id ∈ listWaitingRelations events room target eventClass ↔
      ∃ row ∈ events, row.room = room ∧ row.refEventId = some target ∧
        row.eventClass = eventClass ∧ row.isProcessed = false ∧ row.eventId = id := by
  simp only [listWaitingRelations, List.mem_map, List.mem_filter, decide_eq_true_eq]
  constructor
  · rintro ⟨row, ⟨hrow, hroom, href, hclass, hprocessed⟩, hid⟩
    exact ⟨row, hrow, hroom, href, hclass, hprocessed, hid⟩
  · rintro ⟨row, hrow, hroom, href, hclass, hprocessed, hid⟩
    exact ⟨row, ⟨hrow, hroom, href, hclass, hprocessed⟩, hid⟩

/-- After what has waited for an event is applied, at most the event itself is
still pending. -/
theorem Sound.applyWaiting (h : Sound late pending events) {room : String} {row : EventRow}
    (hrow : row ∈ events) (hroom : row.room = room)
    (hpending : ∀ edit ∈ events, edit.key ∈ pending → edit.room = room ∧ (edit.refEventId = some
      row.eventId ∨ edit.eventId = row.eventId))
    (hself : row.eventClass = .edit → row.key ∈ pending)
    (hlate : row.eventClass = .msg → row.key ∈ late) :
    ∃ left, Sound late left (applyWaiting room events row.eventId) ∧
      (∀ edit ∈ applyWaiting room events row.eventId, edit.key ∈ left →
        edit.key = row.key ∧ row.eventClass = .edit) ∧
      (row.eventClass = .edit → row.refEventId ≠ some row.eventId → row.key ∈ left) := by
  have hkey : row.key = (room, row.eventId) := by rw [EventRow.key, hroom]
  have hframed := applyWaitingRedactions_reframed room events row.eventId
  have hredacted : Sound late pending (applyWaitingRedactions room events row.eventId) := by
    refine h.applyRedactions room row.eventId _ ?_ ?_
    · intro redactionId hid redaction hredaction hredactionKey
      obtain ⟨waiting, hwaiting, hwaitingRoom, href, hclass, _, rfl⟩ :=
        mem_listWaitingRelations.mp hid
      rw [h.keyed.eq_of_key hredaction hwaiting
        (hredactionKey.trans (by rw [EventRow.key, hwaitingRoom]))]
      exact ⟨hclass, href⟩
    · intro target htarget htargetKey hclass
      have hsame := h.keyed.eq_of_key htarget hrow (htargetKey.trans hkey.symm)
      rw [hsame] at hclass ⊢
      exact hself hclass
  rw [EventPointers.applyWaiting]
  generalize applyWaitingRedactions room events row.eventId = marked at hframed hredacted ⊢
  have hedits := hredacted.applyEdits room (listWaitingRelations marked room row.eventId .edit) ?_
  · refine ⟨_, hedits, ?_, ?_⟩
    · rintro edit hedit ⟨hmem, hnot⟩
      obtain ⟨old, hold, hframe⟩ :=
        (reframed_marking.foldl (applyEdit_reframed room) _ marked).mem hedit
      rw [hframe.key] at hmem hnot ⊢
      -- All that was pending was waiting, except the event itself.
      obtain ⟨hclass, hunprocessed⟩ := hredacted.unapplied old hold hmem
      obtain ⟨first, hfirst, hframe'⟩ := hframed.mem hold
      rw [hframe'.key] at hmem ⊢
      have hfirstClass : first.eventClass = .edit := hframe'.eventClass.symm.trans hclass
      obtain ⟨hfirstRoom, hnames | hid⟩ := hpending first hfirst hmem
      · refine absurd ⟨hframe'.room.trans hfirstRoom, mem_listWaitingRelations.mpr
          ⟨old, hold, hframe'.room.trans hfirstRoom, ?_, hclass, hunprocessed, rfl⟩⟩ hnot
        rw [hframe'.ref (by rw [hfirstClass]; decide), hnames]
      · have hsameKey : first.key = row.key := by
          rw [hkey, EventRow.key, hfirstRoom, hid]
        exact ⟨hsameKey, by rw [← h.keyed.eq_of_key hfirst hrow hsameKey]; exact hfirstClass⟩
    · intro hclass hne
      refine ⟨hself hclass, ?_⟩
      rintro ⟨_, hid⟩
      obtain ⟨old, hold, holdRoom, href, _, _, holdId⟩ := mem_listWaitingRelations.mp hid
      obtain ⟨first, hfirst, hframe⟩ := hframed.mem hold
      have hsame : first = row := by
        refine h.keyed.eq_of_key hfirst hrow ?_
        rw [hkey, ← hframe.key, EventRow.key, holdRoom, holdId]
        rfl
      rw [hframe.ref (by rw [hsame, hclass]; decide), hsame] at href
      exact hne href
  · intro edit' hedit' heditRoom hid target' htarget' happlies hneg
    obtain ⟨waiting, hwaiting, hwaitingRoom, href, _, _, hwaitingId⟩ :=
      mem_listWaitingRelations.mp hid
    have hsame : edit' = waiting := by
      refine hredacted.keyed.eq_of_key hedit' hwaiting ?_
      rw [EventRow.key, EventRow.key, heditRoom, hwaitingRoom, hwaitingId]
    obtain ⟨target, htarget, hframe⟩ := hframed.mem htarget'
    have htargetKey : target'.key = row.key := by
      have hnames := happlies.ref
      rw [hsame, href, Option.some.injEq] at hnames
      rw [hkey, EventRow.key, ← happlies.room, heditRoom, hnames]
    rw [htargetKey]
    refine hlate ?_
    rw [← h.keyed.eq_of_key htarget hrow (hframe.key.symm.trans htargetKey),
      ← hframe.eventClass]
    exact (replaces_classes happlies.valid).1

end Steps

end EventPointers
end WbfMatrixClient
