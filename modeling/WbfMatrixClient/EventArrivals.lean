import WbfMatrixClient.EventMarks

/-!
# Events as they arrive

What the table says after any number of deliveries: which events are redacted, which
relations have been applied, and which edit a message names. An event that is stored, or
that can be read at last, brings with it all that has waited for it.
-/

namespace WbfMatrixClient
namespace EventPointers

/-- The event that a row names is stored and can be read. -/
def Readable (events : List EventRow) (row : EventRow) : Prop :=
  ∀ targetId, row.refEventId = some targetId →
    ∃ target ∈ events, target.room = row.room ∧ target.eventId = targetId ∧
      target.eventClass ≠ .general

/-- An edit is applied only when its target can be read. -/
def Placed (events : List EventRow) : Prop :=
  ∀ edit ∈ events, edit.eventClass = .edit → edit.isProcessed = true → Readable events edit

section Placing

variable {events : List EventRow} {room : String}

theorem Readable.map {row : EventRow} (h : Readable events row) {g : EventRow → EventRow}
    (hg : ∀ row, Frame row (g row)) (hclass : row.eventClass ≠ .msg) :
    Readable (events.map g) (g row) := by
  intro targetId href
  rw [(hg row).ref hclass] at href
  obtain ⟨target, htarget, hroom, hid, hreadable⟩ := h targetId href
  refine ⟨g target, List.mem_map_of_mem htarget, ?_, ?_, ?_⟩
  · rw [(hg target).room, (hg row).room, hroom]
  · rw [(hg target).eventId, hid]
  · rw [(hg target).eventClass]
    exact hreadable

section

variable (h : Placed events)

include h

theorem Placed.map {g : EventRow → EventRow} (hg : ∀ row, Frame row (g row))
    (hnew : ∀ row ∈ events, row.eventClass = .edit → (g row).isProcessed = true → row.isProcessed =
      true ∨ Readable events row) : Placed (events.map g) := by
  intro row' hrow' hclass hprocessed
  obtain ⟨row, hrow, rfl⟩ := List.mem_map.mp hrow'
  rw [(hg row).eventClass] at hclass
  have hreadable : Readable events row := by
    rcases hnew row hrow hclass hprocessed with hold | hreadable
    · exact h row hrow hclass hold
    · exact hreadable
  exact hreadable.map hg (by rw [hclass]; decide)

theorem Placed.setProcessed {eventId : String}
    (hnew : ∀ row ∈ events, row.key = (room, eventId) → row.eventClass = .edit → Readable events
      row) : Placed (setProcessed events room eventId) := by
  rw [setProcessed_eq_map]
  refine h.map (markProcessed_frame room eventId) fun row hrow hclass hprocessed => ?_
  by_cases hkey : row.key = (room, eventId)
  · exact .inr (hnew row hrow hkey hclass)
  · rw [markProcessed_of_ne hkey] at hprocessed
    exact .inl hprocessed

omit h in
theorem setCurrentEdit_eq_map (events : List EventRow) (room target : String) (edit : Option String)
    (modifiedTimestamp : Int) :
    setCurrentEdit events room target edit modifiedTimestamp =
      events.map (markCurrentEdit room target edit modifiedTimestamp) := rfl

omit h in
theorem setRedacted_eq_map (events : List EventRow) (room eventId : String)
    (modifiedTimestamp : Int) :
    setRedacted events room eventId modifiedTimestamp =
      events.map (markRedacted room eventId modifiedTimestamp) := rfl

theorem Placed.setCurrentEdit (target : String) (edit : Option String) (modifiedTimestamp : Int) :
    Placed (setCurrentEdit events room target edit modifiedTimestamp) := by
  rw [setCurrentEdit_eq_map]
  refine h.map (markCurrentEdit_frame room target edit modifiedTimestamp) ?_
  intro row _ _ hprocessed
  rw [(markCurrentEdit_marks room target edit modifiedTimestamp row).1] at hprocessed
  exact .inl hprocessed

theorem Placed.setRedacted (eventId : String) (modifiedTimestamp : Int) :
    Placed (setRedacted events room eventId modifiedTimestamp) := by
  rw [setRedacted_eq_map]
  refine h.map (markRedacted_frame room eventId modifiedTimestamp) ?_
  intro row _ _ hprocessed
  rw [markRedacted] at hprocessed
  split_ifs at hprocessed <;> exact .inl hprocessed

theorem Placed.applyEdit (hkeyed : Table.Keyed EventRow.key events) (editId : String) :
    Placed (applyEdit room events editId) := by
  rw [WbfMatrixClient.applyEdit]
  cases hfind : findEvent events room editId with
  | none => exact h
  | some edit =>
    obtain ⟨hmem, hroom, hid⟩ := mem_of_findEvent hfind
    have honly : ∀ row ∈ events, row.key = (room, editId) → row = edit := fun row hrow hkey =>
      hkeyed.eq_of_key hrow hmem (hkey.trans (by rw [EventRow.key, hroom, hid]))
    simp only
    split_ifs with hstop
    · exact h
    cases href : edit.refEventId with
    | none =>
      refine h.setProcessed fun row hrow hkey _ targetId hnames => ?_
      rw [honly row hrow hkey, href] at hnames
      cases hnames
    | some targetId =>
      simp only
      cases htarget : findEvent events room targetId with
      | none => exact h
      | some target =>
        obtain ⟨htargetMem, htargetRoom, htargetId⟩ := mem_of_findEvent htarget
        simp only
        by_cases hgeneral : target.eventClass = .general
        · rw [if_pos hgeneral]
          exact h
        rw [if_neg hgeneral]
        have hreadable : Readable events edit := by
          intro otherId hnames
          rw [href, Option.some.injEq] at hnames
          exact ⟨target, htargetMem, htargetRoom.trans hroom.symm, htargetId.trans hnames,
            hgeneral⟩
        have hprocessed : Placed (WbfMatrixClient.setProcessed events room editId) :=
          h.setProcessed fun row hrow hkey _ => by
            rw [honly row hrow hkey]
            exact hreadable
        split_ifs
        · exact hprocessed
        · refine (h.setCurrentEdit targetId (some editId) edit.originServerTs).setProcessed ?_
          rw [setCurrentEdit_eq_map]
          intro row' hrow' hkey hclass
          obtain ⟨row, hrow, rfl⟩ := List.mem_map.mp hrow'
          have hframe := markCurrentEdit_frame room targetId (some editId) edit.originServerTs
          have hold : row = edit := honly row hrow ((hframe row).key.symm.trans hkey)
          rw [hold] at hclass ⊢
          exact hreadable.map hframe (by
            rw [(hframe edit).eventClass] at hclass
            rw [hclass]
            decide)
        · exact hprocessed

theorem Placed.reselect (edited : EventRow) : Placed (reselect room events edited) := by
  rw [WbfMatrixClient.reselect]
  split <;> exact h.setCurrentEdit _ _ _

theorem Placed.applyRedaction (hkeyed : Table.Keyed EventRow.key events) (redactionId : String) :
    Placed (applyRedaction room events redactionId) := by
  rw [WbfMatrixClient.applyRedaction]
  cases hfind : findEvent events room redactionId with
  | none => exact h
  | some redaction =>
    obtain ⟨hmem, hroom, hid⟩ := mem_of_findEvent hfind
    simp only
    split_ifs with hstop
    · exact h
    rw [not_or, not_not] at hstop
    have hother : ∀ row ∈ events, row.key = (room, redactionId) → row.eventClass ≠ .edit := by
      intro row hrow hkey
      rw [hkeyed.eq_of_key hrow hmem (hkey.trans (by rw [EventRow.key, hroom, hid])), hstop.1]
      decide
    cases href : redaction.refEventId with
    | none => exact h.setProcessed fun row hrow hkey hclass => absurd hclass (hother row hrow hkey)
    | some targetId =>
      simp only
      cases htarget : findEvent events room targetId with
      | none => exact h
      | some target =>
        have hmarked : Placed (WbfMatrixClient.setProcessed
            (WbfMatrixClient.setRedacted events room targetId redaction.originServerTs) room
            redactionId) := by
          refine (h.setRedacted targetId redaction.originServerTs).setProcessed ?_
          rw [setRedacted_eq_map]
          intro row' hrow' hkey hclass
          obtain ⟨row, hrow, rfl⟩ := List.mem_map.mp hrow'
          have hframe := markRedacted_frame room targetId redaction.originServerTs row
          exact absurd (hframe.eventClass.symm.trans hclass)
            (hother row hrow (hframe.key.symm.trans hkey))
        simp only
        split_ifs
        · exact hmarked
        · cases target.refEventId with
          | none => exact hmarked
          | some editedId =>
            simp only
            cases findEvent (WbfMatrixClient.setProcessed
              (WbfMatrixClient.setRedacted events room targetId redaction.originServerTs)
              room redactionId) room editedId with
            | none => exact hmarked
            | some edited =>
              simp only
              split_ifs
              · exact hmarked.reselect edited
              · exact hmarked

omit h in
/-- What one application keeps, all of them keep. -/
theorem foldl_placed {apply : List EventRow → String → List EventRow}
    (hframed : ∀ events id, Reframed events (apply events id))
    (hplaced : ∀ {events : List EventRow}, Placed events → Table.Keyed EventRow.key events → ∀ id,
      Placed (apply events id)) :
    ∀ (ids : List String) {events : List EventRow}, Placed events →
      Table.Keyed EventRow.key events → Placed (ids.foldl apply events) := by
  intro ids
  induction ids with
  | nil =>
    intro events h _
    exact h
  | cons id ids ih =>
    intro events h hkeyed
    exact ih (hplaced h hkeyed id) ((hframed events id).keyed hkeyed)

theorem Placed.applyRelations (room : String) (hkeyed : Table.Keyed EventRow.key events)
    (row : EventRow) : Placed (applyRelations room events row) := by
  have hredacted : Placed (applyWaitingRedactions room events row.eventId) :=
    foldl_placed (applyRedaction_reframed room) (fun h hkeyed id => h.applyRedaction hkeyed id) _ h
      hkeyed
  have hwaiting : Placed (applyWaiting room events row.eventId) :=
    foldl_placed (applyEdit_reframed room) (fun h hkeyed id => h.applyEdit hkeyed id) _ hredacted
      ((applyWaitingRedactions_reframed room events row.eventId).keyed hkeyed)
  have hkeyed' := (applyWaiting_reframed room events row.eventId).keyed hkeyed
  rw [applyRelations_eq]
  split
  · exact hwaiting.applyRedaction hkeyed' _
  · exact hwaiting.applyEdit hkeyed' _
  · exact hwaiting

end

end Placing

/-- The row is new in the table, or takes the place of a row that could not be read. Nothing
of it has been applied. -/
structure Comes (events events' : List EventRow) (row : EventRow) : Prop where
  keyed : Table.Keyed EventRow.key events'
  mem : row ∈ events'
  others : ∀ other, other ≠ row → (other ∈ events' ↔ other ∈ events ∧ other.key ≠ row.key)
  old : ∀ old ∈ events, old.key = row.key → old.eventClass = .general ∧
    old.isRedacted = row.isRedacted ∧ old.modifiedTimestamp = row.modifiedTimestamp
  fresh : (∀ old ∈ events, old.key ≠ row.key) → row.modifiedTimestamp = 0
  unprocessed : row.eventClass = .edit ∨ row.eventClass = .redact → row.isProcessed = false
  named : row.eventClass = .msg → row.refEventId = none

/-- As before, and the server has not redacted what is new. -/
structure Enters (events events' : List EventRow) (row : EventRow) : Prop where
  keyed : Table.Keyed EventRow.key events'
  mem : row ∈ events'
  others : ∀ other, other ≠ row → (other ∈ events' ↔ other ∈ events ∧ other.key ≠ row.key)
  old : ∀ old ∈ events, old.key = row.key → old.eventClass = .general ∧
    old.isRedacted = row.isRedacted ∧ old.modifiedTimestamp = row.modifiedTimestamp
  fresh : (∀ old ∈ events, old.key ≠ row.key) →
    row.isRedacted = false ∧ row.modifiedTimestamp = 0
  unprocessed : row.eventClass = .edit ∨ row.eventClass = .redact → row.isProcessed = false
  named : row.eventClass = .msg → row.refEventId = none

theorem Enters.comes {events events' : List EventRow} {row : EventRow}
    (h : Enters events events' row) :
    Comes events events' row :=
  ⟨h.keyed, h.mem, h.others, h.old, fun hnone => (h.fresh hnone).2, h.unprocessed, h.named⟩

/-- Redactions have been applied to what is stored, and nothing else is redacted. -/
structure Settled (events : List EventRow) : Prop where
  keyed : Table.Keyed EventRow.key events
  placed : Placed events
  named : ∀ row ∈ events, row.eventClass = .redact → row.refEventId.isSome = true
  done : ∀ redaction ∈ events, redaction.eventClass = .redact →
    (redaction.isProcessed = true ↔
      ∃ target ∈ events, target.room = redaction.room ∧
        redaction.refEventId = some target.eventId)
  redacted : ∀ row ∈ events, (row.isRedacted = true ↔
    ∃ redaction ∈ events, redaction.eventClass = .redact ∧ redaction.room = row.room ∧
      redaction.refEventId = some row.eventId)

/-- Redactions have been applied to what is stored, and nothing else is redacted but what the
server has redacted itself. -/
structure SettledBut (gone : Set (String × String)) (events : List EventRow) : Prop where
  keyed : Table.Keyed EventRow.key events
  placed : Placed events
  named : ∀ row ∈ events, row.eventClass = .redact → row.refEventId.isSome = true
  done : ∀ redaction ∈ events, redaction.eventClass = .redact →
    (redaction.isProcessed = true ↔
      ∃ target ∈ events, target.room = redaction.room ∧
        redaction.refEventId = some target.eventId)
  redacted : ∀ row ∈ events, (row.isRedacted = true ↔ row.key ∈ gone ∨
    ∃ redaction ∈ events, redaction.eventClass = .redact ∧ redaction.room = row.room ∧
      redaction.refEventId = some row.eventId)

theorem settled_iff {events : List EventRow} : Settled events ↔ SettledBut ∅ events := by
  constructor
  · intro h
    refine ⟨h.keyed, h.placed, h.named, h.done, fun row hrow => ?_⟩
    rw [h.redacted row hrow, Set.mem_empty_iff_false, false_or]
  · intro h
    refine ⟨h.keyed, h.placed, h.named, h.done, fun row hrow => ?_⟩
    rw [h.redacted row hrow, Set.mem_empty_iff_false, false_or]

section Entering

variable {late : Set (String × String)} {events events' : List EventRow} {row : EventRow}

theorem key_eq_iff {a b : EventRow} : a.key = b.key ↔ a.room = b.room ∧ a.eventId = b.eventId := by
  rw [EventRow.key, EventRow.key, Prod.mk.injEq]

variable {other : EventRow}

section

variable (h : Comes events events' row)

include h

/-- What was stored under another key is still there. -/
theorem Comes.mem_of_ne (hother : other ∈ events) (hkey : other.key ≠ row.key) :
    other ∈ events' :=
  (h.others other fun heq => hkey (congrArg EventRow.key heq)).mpr ⟨hother, hkey⟩

/-- A row that could be read before is still there. -/
theorem Comes.mem_of_readable (hother : other ∈ events) (hclass : other.eventClass ≠ .general) :
    other ∈ events' := h.mem_of_ne hother fun hkey => hclass (h.old other hother hkey).1

theorem Comes.cases (hother : other ∈ events') :
    other = row ∨ (other ∈ events ∧ other.key ≠ row.key) := by
  by_cases heq : other = row
  · exact .inl heq
  · exact .inr ((h.others other heq).mp hother)

/-- A row that has not been redacted has no time of its own. -/
theorem Comes.unread
    (hunread : ∀ old ∈ events, old.eventClass = .general → old.isRedacted = false →
      old.modifiedTimestamp = 0) (hlive : row.isRedacted = false) : row.modifiedTimestamp = 0 := by
  by_cases hold : ∃ old ∈ events, old.key = row.key
  · obtain ⟨old, hmem, hkey⟩ := hold
    obtain ⟨hclass, hredacted, hmodified⟩ := h.old old hmem hkey
    rw [← hmodified]
    exact hunread old hmem hclass (hredacted.trans hlive)
  · exact h.fresh fun old hmem hkey => hold ⟨old, hmem, hkey⟩

end

theorem Placed.enters (hplaced : Placed events) (h : Comes events events' row) :
    Placed events' := by
  intro edit hedit hclass hprocessed
  rcases h.cases hedit with rfl | ⟨hold, _⟩
  · rw [h.unprocessed (.inl hclass)] at hprocessed
    cases hprocessed
  · intro targetId href
    obtain ⟨target, htarget, hroom, hid, hreadable⟩ := hplaced edit hold hclass hprocessed targetId
      href
    exact ⟨target, h.mem_of_readable htarget hreadable, hroom, hid, hreadable⟩

/-- The edits that are to be applied with an event: those that have waited for it, and the
event itself. -/
def enteringEdits (events : List EventRow) (row : EventRow) : Set (String × String) :=
  {k | ∃ edit ∈ events, edit.key = k ∧ edit.eventClass = .edit ∧ edit.isProcessed = false ∧
    edit.room = row.room ∧ (edit.refEventId = some row.eventId ∨ edit = row)}

/-- The table with the event, before anything is applied. -/
theorem Sound.enters (hsound : Sound late ∅ events) (hplaced : Placed events)
    (h : Comes events events' row) : Sound late (enteringEdits events' row) events' := by
  have hunread := h.unread hsound.unread
  refine ⟨h.keyed, ?_, ?_, ?_, ?_⟩
  · rintro edit hedit ⟨pending, hpending, hkey, hclass, hunprocessed, _⟩
    rw [← h.keyed.eq_of_key hpending hedit hkey]
    exact ⟨hclass, hunprocessed⟩
  · intro edit hedit hclass hunprocessed hpending target htarget hroom href
    have hnot : ∀ hrow : edit.room = row.room,
        ¬(edit.refEventId = some row.eventId ∨ edit = row) := fun hrow hentering =>
      hpending ⟨edit, hedit, rfl, hclass, hunprocessed, hrow, hentering⟩
    rcases h.cases hedit with rfl | ⟨holdEdit, _⟩
    · exact absurd (.inr rfl) (hnot rfl)
    rcases h.cases htarget with rfl | ⟨holdTarget, _⟩
    · exact absurd (.inl href) (hnot hroom.symm)
    · exact hsound.waiting edit holdEdit hclass hunprocessed (Set.notMem_empty _) target
        holdTarget hroom href
  · intro target htarget hclass hlive
    rcases h.cases htarget with rfl | ⟨hold, hne⟩
    · -- No edit of a message that was not there has been applied.
      have hnone : editsOf (enteringEdits events' target) events' target = ∅ := by
        refine Set.eq_empty_iff_forall_notMem.mpr ?_
        rintro k ⟨edit, hedit, hpending, happlies, _⟩
        have heditClass := (replaces_classes happlies.valid).2
        cases hprocessed : edit.isProcessed with
        | false =>
          exact hpending ⟨edit, hedit, rfl, heditClass, hprocessed, happlies.room,
            .inl happlies.ref⟩
        | true =>
          rcases h.cases hedit with rfl | ⟨holdEdit, _⟩
          · rw [hclass] at heditClass
            cases heditClass
          · obtain ⟨old, hold, hroom, hid, hreadable⟩ :=
              hplaced edit holdEdit heditClass hprocessed target.eventId happlies.ref
            exact hreadable (h.old old hold
              (key_eq_iff.mpr ⟨hroom.trans happlies.room, hid⟩)).1
      have hshown : shownStamp target = none := by
        rw [shownStamp, h.named hclass]
        rfl
      rw [Shows, hnone, hshown]
      exact ⟨.inl rfl, fun _ => hunread hlive⟩
    · have hsame : editsOf (enteringEdits events' row) events' target =
          editsOf ∅ events target := by
        ext k
        constructor
        · rintro ⟨edit, hedit, hpending, happlies, hk⟩
          rcases h.cases hedit with rfl | ⟨holdEdit, _⟩
          · have heditClass := (replaces_classes happlies.valid).2
            exact absurd ⟨edit, hedit, rfl, heditClass, h.unprocessed (.inl heditClass), rfl,
              .inr rfl⟩ hpending
          · exact ⟨edit, holdEdit, Set.notMem_empty _, happlies, hk⟩
        · rintro ⟨edit, hedit, _, happlies, hk⟩
          have heditClass := (replaces_classes happlies.valid).2
          have hmem := h.mem_of_readable hedit (by rw [heditClass]; decide)
          refine ⟨edit, hmem, ?_, happlies, hk⟩
          rintro ⟨pending, hpending, hkey, _, _, hroom, hentering⟩
          have hpendingEdit := h.keyed.eq_of_key hpending hmem hkey
          rw [hpendingEdit] at hroom hentering
          rcases hentering with href | heq
          · rw [happlies.ref, Option.some.injEq] at href
            exact hne (key_eq_iff.mpr ⟨happlies.room.symm.trans hroom, href⟩)
          · have hold' := h.old edit hedit (congrArg EventRow.key heq)
            rw [heditClass] at hold'
            cases hold'.1
      rw [hsame]
      exact hsound.shows target hold hclass hlive
  · intro other hother hclass hlive
    rcases h.cases hother with rfl | ⟨hold, _⟩
    · exact hunread hlive
    · exact hsound.unread other hold hclass hlive

/-- Once what has waited for an event and the event itself have been applied, nothing is
left to be applied. -/
theorem Sound.arrives (hsound : Sound late ∅ events) (hplaced : Placed events)
    (h : Comes events events' row) (hmsg : row.eventClass = .msg → row.key ∈ late)
    (hedit : row.eventClass = .edit → ∀ edit ∈ EventPointers.applyWaiting row.room events'
      row.eventId, edit.key = row.key → ∀ target ∈ EventPointers.applyWaiting row.room events'
      row.eventId, Applies edit target → target.refEventId = none → edit.originServerTs < 0 →
      target.key ∈ late) : Sound late ∅ (applyRelations row.room events' row) := by
  have hentering : ∀ edit ∈ events', edit.key ∈ enteringEdits events' row →
      edit.room = row.room ∧
        (edit.refEventId = some row.eventId ∨ edit.eventId = row.eventId) := by
    rintro edit hmem ⟨pending, hpending, hkey, _, _, hroom, hnames⟩
    rw [h.keyed.eq_of_key hpending hmem hkey] at hroom hnames
    exact ⟨hroom, hnames.imp_right fun heq => congrArg EventRow.eventId heq⟩
  have hself : row.eventClass = .edit → row.key ∈ enteringEdits events' row := fun hclass =>
    ⟨row, h.mem, rfl, hclass, h.unprocessed (.inl hclass), rfl, .inr rfl⟩
  obtain ⟨left, hleft, honly, _⟩ :=
    (hsound.enters hplaced h).applyWaiting h.mem rfl hentering hself hmsg
  rw [applyRelations_eq]
  generalize EventPointers.applyWaiting row.room events' row.eventId = waited at hleft honly hedit
  have hnone : row.eventClass ≠ .edit → ∀ edit ∈ waited, edit.key ∉ left := fun hclass edit hmem
      hmemLeft => hclass (honly edit hmem hmemLeft).2
  cases hclass : row.eventClass with
  | redact =>
    have hfree := hnone (by rw [hclass]; decide)
    refine (hleft.applyRedaction row.room row.eventId ?_).congr_pending ?_
    · intro _ _ _ _ _ _ _ _ _ edit hmem _
      exact hfree edit hmem
    · intro other hother
      obtain ⟨old, hold, hframe⟩ :=
        (applyRedaction_reframed row.room waited row.eventId).mem hother
      rw [hframe.key]
      exact ⟨fun hmem => hmem.elim, fun hmem => hfree old hold hmem⟩
  | edit =>
    refine (hleft.applyEdit row.room row.eventId (hedit hclass)).congr_pending ?_
    intro other hother
    obtain ⟨old, hold, hframe⟩ := (applyEdit_reframed row.room waited row.eventId).mem hother
    rw [hframe.key]
    exact ⟨fun hmem => hmem.elim, fun hmem => hmem.2 (honly old hold hmem.1).1⟩
  | general | msg | reaction =>
    have hfree := hnone (by rw [hclass]; decide)
    exact hleft.congr_pending fun other hother =>
      ⟨fun hmem => hmem.elim, fun hmem => hfree other hother hmem⟩

/-- Redactions that have waited, and those that name what is there. -/
theorem SettledBut.arrives {gone gone' : Set (String × String)} (hsettled : SettledBut gone events)
    (h : Comes events events' row)
    (hnamed : row.eventClass = .redact → row.refEventId.isSome = true)
    (hsame : ∀ old ∈ events, old.key ∈ gone' ↔ old.key ∈ gone)
    (hnew : (∀ old ∈ events, old.key ≠ row.key) → (row.isRedacted = true ↔ row.key ∈ gone')) :
    SettledBut gone' (applyRelations row.room events' row) := by
  have hnames : ∀ other ∈ events', other.eventClass = .redact → other.refEventId.isSome = true := by
    intro other hother hclass
    rcases h.cases hother with rfl | ⟨hold, _⟩
    · exact hnamed hclass
    · exact hsettled.named other hold hclass
  -- What is named is there, under its old row or the new one.
  have hthere : ∀ target ∈ events, ∃ target' ∈ events', target'.room = target.room ∧
      target'.eventId = target.eventId := by
    intro target htarget
    by_cases hkey : target.key = row.key
    · exact ⟨row, h.mem, key_eq_iff.mp hkey.symm⟩
    · exact ⟨target, h.mem_of_ne htarget hkey, rfl, rfl⟩
  obtain ⟨g, hg, heq, hmarks⟩ := applyRelations_redacting h.keyed h.mem rfl hnamed
  have hplaced := (hsettled.placed.enters h).applyRelations row.room h.keyed row
  rw [heq] at hplaced ⊢
  have hkeyed : Table.Keyed EventRow.key (events'.map g) := Reframed.keyed ⟨g, hg, rfl⟩ h.keyed
  refine ⟨hkeyed, hplaced, ?_, ?_, ?_⟩
  · intro other' hother' hclass
    obtain ⟨other, hother, rfl⟩ := List.mem_map.mp hother'
    rw [(hg other).eventClass] at hclass
    rw [(hg other).ref (by rw [hclass]; decide)]
    exact hnames other hother hclass
  · intro redaction' hredaction' hclass
    obtain ⟨redaction, hredaction, rfl⟩ := List.mem_map.mp hredaction'
    rw [(hg redaction).eventClass] at hclass
    have hdone : (∃ other ∈ events', other.key = redaction.key ∧ DoneWith events' row other) ↔
        DoneWith events' row redaction := by
      constructor
      · rintro ⟨other, hother, hkey, hwith⟩
        rw [← h.keyed.eq_of_key hother hredaction hkey]
        exact hwith
      · exact fun hwith => ⟨redaction, hredaction, rfl, hwith⟩
    rw [((hmarks redaction hredaction).2 hclass), Set.mem_ofPred_eq, hdone,
      (hg redaction).ref (by rw [hclass]; decide), (hg redaction).room]
    constructor
    · rintro (hprocessed | hroom | ⟨rfl, target, htarget, hroom, href⟩)
      · rcases h.cases hredaction with rfl | ⟨hold, _⟩
        · rw [h.unprocessed (.inr hclass)] at hprocessed
          cases hprocessed
        · obtain ⟨target, htarget, hroom, href⟩ := (hsettled.done redaction hold hclass).mp
            hprocessed
          obtain ⟨target', htarget', hroom', hid'⟩ := hthere target htarget
          refine ⟨g target', List.mem_map_of_mem htarget', ?_, ?_⟩
          · rw [(hg target').room, hroom', hroom]
          · rw [(hg target').eventId, hid', href]
      · refine ⟨g row, List.mem_map_of_mem h.mem, ?_, ?_⟩
        · rw [(hg row).room, hroom.1]
        · rw [(hg row).eventId, hroom.2]
      · refine ⟨g target, List.mem_map_of_mem htarget, ?_, ?_⟩
        · rw [(hg target).room, hroom]
        · rw [(hg target).eventId, href]
    · rintro ⟨target', htarget', hroom, href⟩
      obtain ⟨target, htarget, rfl⟩ := List.mem_map.mp htarget'
      rw [(hg target).room] at hroom
      rw [(hg target).eventId] at href
      rcases h.cases htarget with rfl | ⟨holdTarget, _⟩
      · exact .inr (.inl ⟨hroom.symm, href⟩)
      rcases h.cases hredaction with rfl | ⟨hold, _⟩
      · exact .inr (.inr ⟨rfl, target, htarget, hroom, href⟩)
      · exact .inl ((hsettled.done redaction hold hclass).mpr ⟨target, holdTarget, hroom, href⟩)
  · intro other' hother'
    obtain ⟨other, hother, rfl⟩ := List.mem_map.mp hother'
    have hhit : (∃ target ∈ events', target.key = other.key ∧ RedactedBy events' row target) ↔
        RedactedBy events' row other := by
      constructor
      · rintro ⟨target, htarget, hkey, hby⟩
        rw [← h.keyed.eq_of_key htarget hother hkey]
        exact hby
      · exact fun hby => ⟨other, hother, rfl, hby⟩
    have hmap : (∃ redaction ∈ events'.map g, redaction.eventClass = .redact ∧
          redaction.room = (g other).room ∧ redaction.refEventId = some (g other).eventId) ↔
        ∃ redaction ∈ events', redaction.eventClass = .redact ∧
          redaction.room = other.room ∧ redaction.refEventId = some other.eventId := by
      rw [(hg other).room, (hg other).eventId]
      constructor
      · rintro ⟨redaction', hredaction', hclass, hroom, href⟩
        obtain ⟨redaction, hredaction, rfl⟩ := List.mem_map.mp hredaction'
        rw [(hg redaction).eventClass] at hclass
        rw [(hg redaction).room] at hroom
        rw [(hg redaction).ref (by rw [hclass]; decide)] at href
        exact ⟨redaction, hredaction, hclass, hroom, href⟩
      · rintro ⟨redaction, hredaction, hclass, hroom, href⟩
        refine ⟨g redaction, List.mem_map_of_mem hredaction, ?_, ?_, ?_⟩
        · rw [(hg redaction).eventClass, hclass]
        · rw [(hg redaction).room, hroom]
        · rw [(hg redaction).ref (by rw [hclass]; decide), href]
    rw [((hmarks other hother).1), Set.mem_ofPred_eq, hhit, hmap]
    have hredactedOld : ∀ old ∈ events, old.isRedacted = true → old.key ∈ gone' ∨
        ∃ redaction ∈ events', redaction.eventClass = .redact ∧
          redaction.room = old.room ∧ redaction.refEventId = some old.eventId := by
      intro old hold hredacted
      rcases (hsettled.redacted old hold).mp hredacted with hgone |
        ⟨redaction, hredaction, hclass, hroom, href⟩
      · exact .inl ((hsame old hold).mpr hgone)
      · exact .inr ⟨redaction, h.mem_of_readable hredaction (by rw [hclass]; decide), hclass, hroom,
          href⟩
    rw [(hg other).key]
    constructor
    · rintro (hredacted | ⟨hkey, redaction, hredaction, hroom, hclass, _, href⟩ |
        ⟨hclass, _, hroom, href⟩)
      · rcases h.cases hother with rfl | ⟨hold, _⟩
        · by_cases hexists : ∃ old ∈ events, old.key = other.key
          · obtain ⟨old, hold, hkey⟩ := hexists
            obtain ⟨hroom, hid⟩ := key_eq_iff.mp hkey
            rw [← hkey, ← hroom, ← hid]
            exact hredactedOld old hold ((h.old old hold hkey).2.1.trans hredacted)
          · exact .inl ((hnew fun old hold hkey => hexists ⟨old, hold, hkey⟩).mp hredacted)
        · exact hredactedOld other hold hredacted
      · obtain ⟨hroom', hid'⟩ := key_eq_iff.mp hkey
        exact .inr ⟨redaction, hredaction, hclass, hroom.trans hroom'.symm, by rw [href, hid']⟩
      · exact .inr ⟨row, h.mem, hclass, hroom, href⟩
    · rintro (hgone | ⟨redaction, hredaction, hclass, hroom, href⟩)
      · rcases h.cases hother with rfl | ⟨hold, _⟩
        · by_cases hexists : ∃ old ∈ events, old.key = other.key
          · obtain ⟨old, hold, hkey⟩ := hexists
            rw [← hkey, hsame old hold] at hgone
            exact .inl ((h.old old hold hkey).2.1.symm.trans
              ((hsettled.redacted old hold).mpr (.inl hgone)))
          · exact .inl ((hnew fun old hold hkey => hexists ⟨old, hold, hkey⟩).mpr hgone)
        · rw [hsame other hold] at hgone
          exact .inl ((hsettled.redacted other hold).mpr (.inl hgone))
      · rcases h.cases hredaction with rfl | ⟨holdRedaction, _⟩
        · exact .inr (.inr ⟨hclass, h.unprocessed (.inr hclass), hroom, href⟩)
        rcases h.cases hother with rfl | ⟨hold, _⟩
        · cases hprocessed : redaction.isProcessed with
          | false => exact .inr (.inl ⟨rfl, redaction, hredaction, hroom, hclass, hprocessed, href⟩)
          | true =>
            obtain ⟨target, htarget, htargetRoom, htargetRef⟩ :=
              (hsettled.done redaction holdRedaction hclass).mp hprocessed
            rw [href, Option.some.injEq] at htargetRef
            have hkey : target.key = other.key :=
              key_eq_iff.mpr ⟨htargetRoom.trans hroom, htargetRef.symm⟩
            refine .inl ((h.old target htarget hkey).2.1.symm.trans ?_)
            refine (hsettled.redacted target htarget).mpr
              (.inr ⟨redaction, holdRedaction, hclass, ?_, ?_⟩)
            · exact htargetRoom.symm
            · rw [href, htargetRef]
        · exact .inl ((hsettled.redacted other hold).mpr (.inr ⟨redaction, holdRedaction, hclass,
            hroom, href⟩))

theorem Settled.arrives (hsettled : Settled events) (h : Enters events events' row)
    (hnamed : row.eventClass = .redact → row.refEventId.isSome = true) :
    Settled (applyRelations row.room events' row) := by
  refine settled_iff.mpr ((settled_iff.mp hsettled).arrives h.comes hnamed
    (fun _ _ => Iff.rfl) fun hnone => ?_)
  rw [(h.fresh hnone).1, Set.mem_empty_iff_false]
  exact iff_of_false Bool.false_ne_true id

end Entering

/-- Nothing that relations are about is changed. -/
structure Unmarked (g : EventRow → EventRow) : Prop where
  frame : ∀ row, Frame row (g row)
  processed : ∀ row, (g row).isProcessed = row.isProcessed
  redacted : ∀ row, (g row).isRedacted = row.isRedacted
  ref : ∀ row, (g row).refEventId = row.refEventId
  modified : ∀ row, (g row).modifiedTimestamp = row.modifiedTimestamp

theorem unmarked_id :
    Unmarked id := ⟨Frame.refl, fun _ => rfl, fun _ => rfl, fun _ => rfl, fun _ => rfl⟩

section Marking

variable {late pending : Set (String × String)} {events : List EventRow} {g : EventRow → EventRow}

theorem Sound.unmarked (h : Sound late pending events) (hg : Unmarked g) :
    Sound late pending (events.map g) := by
  refine h.of_marked hg.frame (fun row _ _ => hg.processed row) fun target htarget hclass hlive => ?_
  rw [editsOf_map_of_live hg.frame (fun row _ => hg.redacted row)]
  rw [hg.redacted] at hlive
  refine (h.shows target htarget hclass hlive).congr (hg.frame target).key ?_ (hg.ref target)
    (hg.modified target)
  rw [shownStamp, shownStamp, hg.ref, hg.modified]

theorem Settled.unmarked (h : Settled events) (hg : Unmarked g) : Settled (events.map g) := by
  refine ⟨Reframed.keyed ⟨g, hg.frame, rfl⟩ h.keyed, ?_, ?_, ?_, ?_⟩
  · refine h.placed.map hg.frame fun row _ _ hprocessed => .inl ?_
    rw [← hg.processed]
    exact hprocessed
  · intro row' hrow' hclass
    obtain ⟨row, hrow, rfl⟩ := List.mem_map.mp hrow'
    rw [hg.ref]
    exact h.named row hrow ((hg.frame row).eventClass.symm.trans hclass)
  · intro redaction' hredaction' hclass
    obtain ⟨redaction, hredaction, rfl⟩ := List.mem_map.mp hredaction'
    rw [hg.processed, hg.ref, (hg.frame redaction).room,
      h.done redaction hredaction ((hg.frame redaction).eventClass.symm.trans hclass)]
    constructor
    · rintro ⟨target, htarget, hroom, href⟩
      refine ⟨g target, List.mem_map_of_mem htarget, ?_, ?_⟩
      · rw [(hg.frame target).room, hroom]
      · rw [(hg.frame target).eventId, href]
    · rintro ⟨target', htarget', hroom, href⟩
      obtain ⟨target, htarget, rfl⟩ := List.mem_map.mp htarget'
      rw [(hg.frame target).room] at hroom
      rw [(hg.frame target).eventId] at href
      exact ⟨target, htarget, hroom, href⟩
  · intro row' hrow'
    obtain ⟨row, hrow, rfl⟩ := List.mem_map.mp hrow'
    rw [hg.redacted, (hg.frame row).room, (hg.frame row).eventId, h.redacted row hrow]
    constructor
    · rintro ⟨redaction, hredaction, hclass, hroom, href⟩
      refine ⟨g redaction, List.mem_map_of_mem hredaction, ?_, ?_, ?_⟩
      · rw [(hg.frame redaction).eventClass, hclass]
      · rw [(hg.frame redaction).room, hroom]
      · rw [hg.ref, href]
    · rintro ⟨redaction', hredaction', hclass, hroom, href⟩
      obtain ⟨redaction, hredaction, rfl⟩ := List.mem_map.mp hredaction'
      rw [(hg.frame redaction).eventClass] at hclass
      rw [(hg.frame redaction).room] at hroom
      rw [hg.ref] at href
      exact ⟨redaction, hredaction, hclass, hroom, href⟩

end Marking

end EventPointers
end WbfMatrixClient
