import WbfMatrixClient.EventConvergence

/-!
# Which edit a message names

The first edit of a message is compared with the start value of the message, a time of
zero, and an edit from before that time loses against it although there is no other. What
selects anew after a redaction knows no start value. The two agree on a message exactly
when no edit of it remains, or one from the time zero or later has come since the last
moment at which none remained.
-/

namespace WbfMatrixClient
namespace EditSelection

open EventPointers EventConvergence Cache

/-- What the row names satisfies the condition, unless the row is redacted. -/
def Names (key : String × String) (p : Option String → Int → Prop) (events : List EventRow) :
    Prop :=
  ∀ row ∈ events, row.key = key → row.isRedacted = false → p row.refEventId row.modifiedTimestamp

section Naming

variable {key : String × String} {p q : Option String → Int → Prop} {events : List EventRow}
  {room : String}

section

variable (h : Names key p events)

include h

theorem Names.imp (himp : ∀ ref modified, p ref modified → q ref modified) :
    Names key q events := fun row hrow hkey hlive => himp _ _ (h row hrow hkey hlive)

theorem Names.map {g : EventRow → EventRow} (hg : ∀ row, Frame row (g row))
    (hnames : ∀ row ∈ events, row.key = key → (g row).isRedacted = false → p row.refEventId
      row.modifiedTimestamp → p (g row).refEventId (g row).modifiedTimestamp) :
    Names key p (events.map g) := by
  intro row' hrow' hkey hlive
  obtain ⟨row, hrow, rfl⟩ := List.mem_map.mp hrow'
  have hrowKey : row.key = key := (hg row).key.symm.trans hkey
  exact hnames row hrow hrowKey hlive (h row hrow hrowKey ((hg row).live hlive))

theorem Names.setProcessed (room eventId : String) :
    Names key p (setProcessed events room eventId) := by
  rw [setProcessed_eq_map]
  refine h.map (markProcessed_frame room eventId) fun row _ _ _ hp => ?_
  obtain ⟨_, _, href, hmodified⟩ := markProcessed_marks room eventId row
  rw [href, hmodified]
  exact hp

theorem Names.setCurrentEdit {target : String} {edit : Option String} {modified : Int}
    (hnamed : ∀ row ∈ events, row.key = key → row.key = (room, target) → row.isRedacted = false → p
      edit modified) : Names key p (setCurrentEdit events room target edit modified) := by
  rw [setCurrentEdit_eq_map]
  refine h.map (markCurrentEdit_frame room target edit modified) fun row hrow hkey hlive hp => ?_
  rw [(markCurrentEdit_marks room target edit modified row).2] at hlive
  rw [markCurrentEdit]
  split_ifs with hrowKey
  · exact hnamed row hrow hkey hrowKey hlive
  · exact hp
  · exact hp

theorem Names.setBoth (room targetId redactionId : String) (ts : Int) :
    Names key p (events.map (markBoth room targetId redactionId ts)) := by
  refine h.map (markBoth_frame room targetId redactionId ts) fun row _ _ hlive hp => ?_
  rw [markBoth_isRedacted, Bool.or_eq_false_iff, decide_eq_false_iff_not] at hlive
  obtain ⟨_, href, hmodified⟩ := markBoth_of_ne hlive.1 redactionId ts
  rw [href, hmodified]
  exact hp

/-- An edit is named instead only if it is newer. -/
theorem Names.applyEdit (room editId : String)
    (hnewer : ∀ edit ∈ events, edit.key = (room, editId) → edit.eventClass = .edit → room = key.1 →
      edit.refEventId = some key.2 → ∀ row, p row.refEventId row.modifiedTimestamp → isNewer edit
      row = true → p (some editId) edit.originServerTs) :
    Names key p (applyEdit room events editId) := by
  have hprocessed := h.setProcessed room editId
  rw [WbfMatrixClient.applyEdit]
  cases hfind : findEvent events room editId with
  | none => exact h
  | some edit =>
    obtain ⟨hmem, hroom, hid⟩ := mem_of_findEvent hfind
    simp only
    split_ifs with hstop
    · exact h
    rw [not_or, not_not] at hstop
    cases href : edit.refEventId with
    | none => exact hprocessed
    | some targetId =>
      simp only
      cases htarget : findEvent events room targetId with
      | none => exact h
      | some target =>
        obtain ⟨htargetMem, htargetRoom, htargetId⟩ := mem_of_findEvent htarget
        simp only
        split_ifs with hgeneral hinvalid hisNewer
        · exact h
        · exact hprocessed
        · refine Names.setProcessed (h.setCurrentEdit ?_) room editId
          intro _ _ hkey hrowKey _
          obtain rfl := hrowKey.symm.trans hkey
          rw [not_or, Bool.not_eq_true] at hinvalid
          refine hnewer edit hmem ?_ hstop.1 rfl href target ?_ hisNewer
          · rw [EventRow.key, hroom, hid]
          · refine h target htargetMem ?_ hinvalid.1
            rw [EventRow.key, htargetRoom, htargetId]
        · exact hprocessed

/-- What a redaction selects anew is not what it does not redact. -/
theorem Names.applyRedaction (hkeyed : Table.Keyed EventRow.key events) {redactionId : String}
    (hnot : ∀ redaction ∈ events, redaction.key = (room, redactionId) → redaction.eventClass =
      .redact → ∀ id modified, redaction.refEventId = some id → ¬p (some id) modified) :
    Names key p (applyRedaction room events redactionId) := by
  rw [WbfMatrixClient.applyRedaction]
  cases hfind : findEvent events room redactionId with
  | none => exact h
  | some redaction =>
    obtain ⟨hmem, hroom, hid⟩ := mem_of_findEvent hfind
    simp only
    split_ifs with hstop
    · exact h
    rw [not_or, not_not] at hstop
    cases href : redaction.refEventId with
    | none => exact h.setProcessed room redactionId
    | some targetId =>
      simp only
      cases htarget : findEvent events room targetId with
      | none => exact h
      | some target =>
        simp only [setBoth_eq_map]
        have hframe := markBoth_frame room targetId redactionId redaction.originServerTs
        have hboth := h.setBoth room targetId redactionId redaction.originServerTs
        split_ifs with hnotEdit
        · exact hboth
        cases htargetRef : target.refEventId with
        | none => exact hboth
        | some editedId =>
          simp only
          cases hedited : findEvent (events.map (markBoth room targetId redactionId
              redaction.originServerTs)) room editedId with
          | none => exact hboth
          | some edited =>
            simp only
            split_ifs with hnames
            · obtain ⟨heditedMem, heditedRoom, heditedId⟩ := mem_of_findEvent hedited
              rw [reselect_eq_map]
              refine hboth.setCurrentEdit fun row hrow hkey hrowKey hlive => ?_
              have hsame : row = edited := by
                refine Reframed.keyed ⟨_, hframe, rfl⟩ hkeyed |>.eq_of_key hrow
                  heditedMem (hrowKey.trans ?_)
                rw [EventRow.key, heditedRoom]
              have hp := hboth row hrow hkey hlive
              rw [hsame, hnames.2] at hp
              refine absurd hp (hnot redaction hmem ?_ hstop.1 targetId _ href)
              rw [EventRow.key, hroom, hid]
            · exact hboth

end

theorem isNewer_congr {edit edit' target target' : EventRow} (hedit : Frame edit edit')
    (href : target'.refEventId = target.refEventId)
    (hmodified : target'.modifiedTimestamp = target.modifiedTimestamp) :
    isNewer edit' target' = isNewer edit target := by
  rw [isNewer, isNewer, href, hmodified, hedit.originServerTs, hedit.eventId]

theorem modified_le_of_isNewer {edit target : EventRow} (h : isNewer edit target = true) :
    target.modifiedTimestamp ≤ edit.originServerTs := by
  rw [isNewer] at h
  cases href : target.refEventId with
  | none =>
    rw [href] at h
    exact of_decide_eq_true h
  | some current =>
    rw [href] at h
    rcases of_decide_eq_true h with hlt | ⟨heq, _⟩
    · exact hlt.le
    · exact heq.le

variable {row : EventRow}

/-- What waits for an event names it. -/
theorem of_waiting (hkeyed : Table.Keyed EventRow.key events) {target id : String}
    {eventClass : EventClass} (hid : id ∈ listWaitingRelations events room target eventClass)
    (hrow : row ∈ events) (hkey : row.key = (room, id)) :
    row.eventClass = eventClass ∧ row.refEventId = some target := by
  obtain ⟨waiting, hwaiting, hwaitingRoom, href, hclass, _, hwaitingId⟩ :=
    mem_listWaitingRelations.mp hid
  rw [hkeyed.eq_of_key hrow hwaiting (hkey.trans (by rw [EventRow.key, hwaitingRoom, hwaitingId]))]
  exact ⟨hclass, href⟩

theorem Reframed.waiting {events' : List EventRow} {target id : String} {eventClass : EventClass}
    (h : Reframed events events') (hclass : eventClass ≠ .msg)
    (hwaiting : ∀ row ∈ events, row.key = (room, id) → row.eventClass = eventClass ∧ row.refEventId
      = some target) :
    ∀ row ∈ events', row.key = (room, id) →
      row.eventClass = eventClass ∧ row.refEventId = some target := by
  intro row' hrow' hkey
  obtain ⟨row, hrow, hframe⟩ := h.mem hrow'
  obtain ⟨hrowClass, href⟩ := hwaiting row hrow (hframe.key.symm.trans hkey)
  exact ⟨hframe.eventClass.trans hrowClass, (hframe.ref (by rwa [hrowClass])).trans href⟩

/-- The event itself is not named yet. -/
theorem Names.applyWaitingRedactions (h : Names key p events)
    (hkeyed : Table.Keyed EventRow.key events) (room : String) {target : String}
    (hnot : ∀ modified, ¬p (some target) modified) :
    Names key p (applyWaitingRedactions room events target) := by
  have hwaiting : ∀ id ∈ listWaitingRelations events room target .redact, ∀ row ∈ events,
      row.key = (room, id) → row.eventClass = .redact ∧ row.refEventId = some target :=
    fun id hid row hrow hkey => of_waiting hkeyed hid hrow hkey
  rw [EventPointers.applyWaitingRedactions]
  generalize listWaitingRelations events room target .redact = ids at hwaiting
  induction ids generalizing events with
  | nil => exact h
  | cons id ids ih =>
    have hframed := applyRedaction_reframed room events id
    refine ih (h.applyRedaction hkeyed ?_) (hframed.keyed hkeyed) ?_
    · intro redaction hredaction hkey _ named modified href
      rw [(hwaiting id List.mem_cons_self redaction hredaction hkey).2,
        Option.some.injEq] at href
      rw [← href]
      exact hnot modified
    · exact fun other hother => Reframed.waiting hframed (by decide)
        (hwaiting other (List.mem_cons_of_mem _ hother))

theorem Names.applyWaiting (h : Names key p events) (hkeyed : Table.Keyed EventRow.key events)
    (room target : String) (hnot : ∀ modified, ¬p (some target) modified)
    (himp : ∀ ref modified, p ref modified → q ref modified)
    (hnewer : key = (room, target) → ∀ edit row : EventRow, q row.refEventId row.modifiedTimestamp →
      isNewer edit row = true → q (some edit.eventId) edit.originServerTs) :
    Names key q (applyWaiting room events target) := by
  have hmarked := (h.applyWaitingRedactions hkeyed room hnot).imp himp
  have hmarkedKeyed := (applyWaitingRedactions_reframed room events target).keyed hkeyed
  rw [EventPointers.applyWaiting]
  generalize EventPointers.applyWaitingRedactions room events target = marked
    at hmarked hmarkedKeyed
  have hwaiting : ∀ id ∈ listWaitingRelations marked room target .edit, ∀ row ∈ marked,
      row.key = (room, id) → row.eventClass = .edit ∧ row.refEventId = some target :=
    fun id hid row hrow hkey => of_waiting hmarkedKeyed hid hrow hkey
  generalize listWaitingRelations marked room target .edit = ids at hwaiting
  induction ids generalizing marked with
  | nil => exact hmarked
  | cons id ids ih =>
    have hframed := applyEdit_reframed room marked id
    refine ih _ (hmarked.applyEdit room id ?_) (hframed.keyed hmarkedKeyed) ?_
    · intro edit hedit hkey _ hroom href row hrow hisNewer
      have hid : edit.eventId = id := congrArg Prod.snd hkey
      rw [(hwaiting id List.mem_cons_self edit hedit hkey).2, Option.some.injEq] at href
      rw [← hid]
      exact hnewer (Prod.ext hroom.symm href.symm) edit row hrow hisNewer
    · exact fun other hother => Reframed.waiting hframed (by decide)
        (hwaiting other (List.mem_cons_of_mem _ hother))

/-- What a message that was there names is named by it still, unless the event is an edit
that is newer, or a redaction of what it names. -/
theorem names_of_there (hkeyed : Table.Keyed EventRow.key events) {message message' : EventRow}
    (hrow : row ∈ events) (hmessage : message ∈ events) (hne : message.key ≠ row.key)
    (hfree : message.refEventId ≠ some row.eventId)
    (hmessage' : message' ∈ applyRelations row.room events row) (hkey : message'.key = message.key)
    (hlive : message'.isRedacted = false) :
    (message'.refEventId = message.refEventId ∧
        message'.modifiedTimestamp = message.modifiedTimestamp) ∨
      (row.eventClass = .edit ∧ isNewer row message = true ∧
        message'.refEventId = some row.eventId ∧
        message'.modifiedTimestamp = row.originServerTs) ∨
      (row.eventClass = .redact ∧ message.refEventId.isSome = true ∧
        message.refEventId = row.refEventId) := by
  have hstart : Names message.key (fun ref modified => ref = message.refEventId ∧
      modified = message.modifiedTimestamp) events := by
    intro other hother hotherKey _
    rw [hkeyed.eq_of_key hother hmessage hotherKey]
    exact ⟨rfl, rfl⟩
  have hwaited := hstart.applyWaiting hkeyed row.room row.eventId
    (fun _ hp => hfree hp.1.symm) (fun _ _ => id) (fun hsame => absurd hsame hne)
  have hframed := applyWaiting_reframed row.room events row.eventId
  have hwaitedKeyed := hframed.keyed hkeyed
  rw [applyRelations_eq] at hmessage'
  generalize EventPointers.applyWaiting row.room events row.eventId = waited at *
  -- The event among the marked rows.
  have hself : ∀ other ∈ waited, other.key = (row.room, row.eventId) → Frame row other := by
    intro other hother hotherKey
    obtain ⟨old, hold, hframe⟩ := hframed.mem hother
    rwa [← hkeyed.eq_of_key hold hrow (hframe.key.symm.trans hotherKey)]
  cases hclass : row.eventClass with
  | edit =>
    rw [hclass] at hmessage'
    have hnamed := (hwaited.imp (q := fun ref modified =>
        (ref = message.refEventId ∧ modified = message.modifiedTimestamp) ∨
        (isNewer row message = true ∧ ref = some row.eventId ∧ modified = row.originServerTs))
      (fun _ _ => .inl)).applyEdit row.room row.eventId ?_
    · rcases hnamed message' hmessage' hkey hlive with hsame | hnew
      · exact .inl hsame
      · exact .inr (.inl ⟨rfl, hnew⟩)
    · intro edit hedit heditKey _ _ _ target htarget hisNewer
      have hframe := hself edit hedit heditKey
      rw [hframe.originServerTs]
      rcases htarget with ⟨href, hmodified⟩ | ⟨hfirst, _⟩
      · refine .inr ⟨?_, rfl, rfl⟩
        rw [← isNewer_congr hframe href hmodified]
        exact hisNewer
      · exact .inr ⟨hfirst, rfl, rfl⟩
  | redact =>
    rw [hclass] at hmessage'
    by_cases hnames : message.refEventId.isSome = true ∧ message.refEventId = row.refEventId
    · exact .inr (.inr ⟨rfl, hnames⟩)
    · refine .inl ((hwaited.applyRedaction hwaitedKeyed ?_) message' hmessage' hkey hlive)
      rintro redaction hredaction hredactionKey hredactionClass id modified href ⟨hid, _⟩
      have hframe := hself redaction hredaction hredactionKey
      rw [hframe.ref (by rw [hclass]; decide), hid] at href
      exact hnames ⟨by rw [← hid]; rfl, href.symm⟩
  | general | msg | reaction =>
    rw [hclass] at hmessage'
    exact .inl (hwaited message' hmessage' hkey hlive)

/-- A message that comes names nothing, or an edit from the time zero or later. -/
theorem names_of_new (hkeyed : Table.Keyed EventRow.key events) {message : EventRow}
    (hrow : row ∈ events) (hclass : row.eventClass = .msg) (href : row.refEventId = none)
    (hmodified : row.isRedacted = false → row.modifiedTimestamp = 0)
    (hmessage : message ∈ applyRelations row.room events row) (hkey : message.key = row.key)
    (hlive : message.isRedacted = false) :
    message.refEventId = none ∨ 0 ≤ message.modifiedTimestamp := by
  have hstart : Names row.key (fun ref modified => ref = none ∧ modified = 0) events := by
    intro other hother hotherKey hlive
    rw [hkeyed.eq_of_key hother hrow hotherKey] at hlive ⊢
    exact ⟨href, hmodified hlive⟩
  have hwaited := hstart.applyWaiting hkeyed row.room row.eventId
    (q := fun ref modified => (ref = none ∧ modified = 0) ∨ 0 ≤ modified)
    (fun _ hp => by cases hp.1) (fun _ _ => .inl) ?_
  · rw [applyRelations_eq, hclass] at hmessage
    exact (hwaited message hmessage hkey hlive).imp_left And.left
  · intro _ edit target htarget hisNewer
    have hle := modified_le_of_isNewer hisNewer
    rcases htarget with ⟨_, hzero⟩ | hzero
    · exact .inr (hzero.ge.trans hle)
    · exact .inr (hzero.trans hle)

end Naming

/-- The event has come in a form that can be read. -/
def HasRead (room : String) (delivered : List IncomingEvent) (eventId : String) : Prop :=
  ∃ incoming ∈ delivered, ∃ sender, storable room incoming = some (eventId, sender) ∧
    incoming.cleartext.isSome = true

/-- The edit has come, may replace the message, and no redaction of it has come. As long as
the message itself has not come, no edit counts. -/
structure Remains (room : String) (delivered : List IncomingEvent) (message edit : EventRow) :
    Prop where
  read : HasRead room delivered message.eventId
  came : ∃ incoming ∈ delivered,
    storable room incoming = some (edit.eventId, edit.sender) ∧
      edit = newRow room edit.eventId edit.sender incoming
  applies : Applies edit message
  kept : ∀ redaction ∈ delivered, ∀ id sender,
    storable room redaction = some (id, sender) →
      (classify redaction).eventClass = .redact →
        (classify redaction).refEventId ≠ some edit.eventId

/-- At some moment no edit of the message remained, and all that have remained since then are
from before the time zero. -/
def Lapsed (room : String) (delivered : List IncomingEvent) (message : EventRow) : Prop :=
  ∃ past, past <+: delivered ∧ (∀ edit, ¬Remains room past message edit) ∧
    ∀ moment, past <+: moment → moment <+: delivered →
      ∀ edit, Remains room moment message edit → edit.originServerTs < 0

/-- What has been told of the events, and nothing else. -/
structure Traced (all : List RoomEvent) (room : String) (events : List EventRow)
    (delivered : List IncomingEvent) : Prop where
  told : Told all room events delivered
  known : ∀ incoming ∈ delivered, ∃ e ∈ all, e.Delivers incoming
  came : ∀ row ∈ events, ∃ incoming ∈ delivered,
    storable room incoming = some (row.eventId, row.sender) ∧
      Frame (newRow room row.eventId row.sender incoming) row

section Remaining

variable {all : List RoomEvent} {room : String} {events : List EventRow}
  {delivered : List IncomingEvent}

variable {message : EventRow}

theorem Remains.congr {message' edit : EventRow} (hframe : Frame message message') :
    Remains room delivered message' edit ↔ Remains room delivered message edit := by
  constructor
  · rintro ⟨hread, hcame, happlies, hkept⟩
    exact ⟨hframe.eventId ▸ hread, hcame, ((applies_iff (.refl edit) hframe).mp happlies).1, hkept⟩
  · rintro ⟨hread, hcame, happlies, hkept⟩
    exact ⟨hframe.eventId.symm ▸ hread, hcame,
      (applies_iff (.refl edit) hframe).mpr ⟨happlies, happlies.live⟩, hkept⟩

theorem Lapsed.congr {message message' : EventRow} (hframe : Frame message message') :
    Lapsed room delivered message' ↔ Lapsed room delivered message := by
  simp only [Lapsed, Remains.congr hframe]

theorem Lapsed.of_none (h : ∀ edit, ¬Remains room delivered message edit) :
    Lapsed room delivered message := by
  refine ⟨delivered, List.prefix_rfl, h, fun moment hpast hmoment edit hremains => ?_⟩
  rw [hmoment.eq_of_length_le hpast.length_le] at hremains
  exact absurd hremains (h edit)

/-- With the last delivery either no edit remains, or those before it had lapsed and all that
remain are from before the time zero. -/
theorem lapsed_snoc {incoming : IncomingEvent} :
    Lapsed room (delivered ++ [incoming]) message ↔
      (∀ edit, ¬Remains room (delivered ++ [incoming]) message edit) ∨
        (Lapsed room delivered message ∧
          ∀ edit, Remains room (delivered ++ [incoming]) message edit →
            edit.originServerTs < 0) := by
  constructor
  · rintro ⟨past, hpast, hnone, hsince⟩
    rcases List.prefix_concat_iff.mp hpast with rfl | hbefore
    · exact .inl hnone
    · refine .inr ⟨⟨past, hbefore, hnone, fun moment hfrom hmoment => ?_⟩, ?_⟩
      · exact hsince moment hfrom (hmoment.trans (List.prefix_append _ _))
      · exact hsince _ hpast List.prefix_rfl
  · rintro (hnone | ⟨⟨past, hpast, hnone, hsince⟩, hnow⟩)
    · exact .of_none hnone
    · refine ⟨past, hpast.trans (List.prefix_append _ _), hnone, fun moment hfrom hmoment => ?_⟩
      rcases List.prefix_concat_iff.mp hmoment with rfl | hbefore
      · exact hnow
      · exact hsince moment hfrom hbefore

theorem read_of_class {incoming : IncomingEvent}
    (hclass : (classify incoming).eventClass ≠ .general) : incoming.cleartext.isSome = true := by
  rw [← Bool.not_eq_false, Option.isSome_eq_false_iff, Option.isNone_iff_eq_none]
  exact fun hnone => hclass (classify_eq_general_iff.mpr hnone)

/-- The row of an event that has come in a form that can be read. -/
theorem Traced.row (hall : TimedEvents all) (h : Traced all room events delivered)
    {incoming : IncomingEvent} (hincoming : incoming ∈ delivered) {eventId sender : String}
    (hstorable : storable room incoming = some (eventId, sender))
    (hread : incoming.cleartext.isSome = true) :
    ∃ row ∈ events, Frame (newRow room eventId sender incoming) row := by
  obtain ⟨row, hrow, hid, hclass⟩ := h.told.heard incoming hincoming eventId sender hstorable
  obtain ⟨e, he, hdelivers⟩ := h.known incoming hincoming
  obtain ⟨form, hform, hformStorable, hframe⟩ := h.came row hrow
  obtain ⟨e', he', hdelivers'⟩ := h.known form hform
  have hsame : e' = e := hall.unique e' he' e he eventId
    (hid ▸ eventId_of_storable hdelivers' hformStorable) (eventId_of_storable hdelivers hstorable)
  subst hsame
  have hidentity := storable_eq room hdelivers hdelivers'
  rw [hstorable, hformStorable, Option.some.injEq, Prod.mk.injEq] at hidentity
  have hformRead : form.cleartext.isSome = true :=
    read_of_class fun hgeneral => hclass hread (hframe.eventClass.trans hgeneral)
  have hcleartext : form.cleartext = incoming.cleartext :=
    (tells_of_cleartext hdelivers' hformRead).2.trans (tells_of_cleartext hdelivers hread).2.symm
  refine ⟨row, hrow, ?_⟩
  rw [newRow_eq hdelivers hdelivers' hcleartext.symm, hidentity.1, hidentity.2]
  exact hframe

/-- A row that can be read has come so. -/
theorem Traced.read (h : Traced all room events delivered) {row : EventRow} (hrow : row ∈ events)
    (hclass : row.eventClass ≠ .general) :
    ∃ incoming ∈ delivered, storable room incoming = some (row.eventId, row.sender) ∧
      incoming.cleartext.isSome = true ∧
      Frame (newRow room row.eventId row.sender incoming) row := by
  obtain ⟨incoming, hincoming, hstorable, hframe⟩ := h.came row hrow
  exact ⟨incoming, hincoming, hstorable,
    read_of_class fun hgeneral => hclass (hframe.eventClass.trans hgeneral), hframe⟩

theorem Traced.room_eq (h : Traced all room events delivered) {row : EventRow}
    (hrow : row ∈ events) : row.room = room := by
  obtain ⟨_, _, _, hframe⟩ := h.came row hrow
  exact hframe.room

/-- The edits of a message in the table are those that remain. -/
theorem Traced.editsOf_eq (hall : TimedEvents all) (h : Traced all room events delivered)
    (hmessage : message ∈ events) (hclass : message.eventClass = .msg) :
    editsOf ∅ events message =
      {k | ∃ edit, Remains room delivered message edit ∧ stamp edit = k} := by
  ext k
  constructor
  · rintro ⟨edit, hedit, _, happlies, rfl⟩
    have heditClass := (replaces_classes happlies.valid).2
    obtain ⟨incoming, hincoming, hstorable, hread, hframe⟩ :=
      h.read hedit (by rw [heditClass]; decide)
    obtain ⟨happliesNew, hlive⟩ := (applies_iff hframe (.refl message)).mp happlies
    refine ⟨newRow room edit.eventId edit.sender incoming, ⟨?_, ?_, happliesNew, ?_⟩,
      hframe.stamp.symm⟩
    · obtain ⟨other, hother, hotherStorable, hotherRead, _⟩ :=
        h.read hmessage (by rw [hclass]; decide)
      exact ⟨other, hother, message.sender, hotherStorable, hotherRead⟩
    · exact ⟨incoming, hincoming, hstorable, rfl⟩
    · intro redaction hredaction id sender hredactionStorable hredactionClass href
      obtain ⟨row, hrow, hrowFrame⟩ := h.row hall hredaction hredactionStorable
        (read_of_class (by rw [hredactionClass]; decide))
      have hrowClass : row.eventClass = .redact := hrowFrame.eventClass.trans hredactionClass
      have hredacted : edit.isRedacted = true := by
        refine (h.told.settled.redacted edit hedit).mpr ⟨row, hrow, hrowClass, ?_, ?_⟩
        · rw [h.room_eq hrow, h.room_eq hedit]
        · rw [hrowFrame.ref (by rw [← hrowFrame.eventClass, hrowClass]; decide)]
          exact href
      rw [hlive] at hredacted
      cases hredacted
  · rintro ⟨edit, ⟨_, ⟨incoming, hincoming, hstorable, hedit⟩, happlies, hkept⟩, rfl⟩
    have heditClass := (replaces_classes happlies.valid).2
    have hincomingClass : (classify incoming).eventClass = .edit := by
      rw [hedit] at heditClass
      exact heditClass
    obtain ⟨row, hrow, hframe⟩ := h.row hall hincoming hstorable
      (read_of_class (by rw [hincomingClass]; decide))
    rw [← hedit] at hframe
    refine ⟨row, hrow, Set.notMem_empty _,
      (applies_iff hframe (.refl message)).mpr ⟨happlies, ?_⟩, hframe.stamp⟩
    rw [← Bool.not_eq_true]
    intro hredacted
    obtain ⟨redaction, hredaction, hredactionClass, _, href⟩ :=
      (h.told.settled.redacted row hrow).mp hredacted
    obtain ⟨form, hform, hformStorable, hformFrame⟩ := h.came redaction hredaction
    refine hkept form hform _ _ hformStorable (hformFrame.eventClass.symm.trans hredactionClass) ?_
    rw [← hframe.eventId, ← href]
    exact (hformFrame.ref (by rw [← hformFrame.eventClass, hredactionClass]; decide)).symm

end Remaining

/-- A message that is not redacted names nothing exactly when its edits have lapsed. -/
def NamesByTrace (room : String) (events : List EventRow) (delivered : List IncomingEvent) : Prop :=
  ∀ row ∈ events, row.eventClass = .msg → row.isRedacted = false →
    (row.refEventId = none ↔ Lapsed room delivered row)

section Tracing

variable {all : List RoomEvent} {room : String} {events events' : List EventRow}
  {delivered : List IncomingEvent}

variable {incoming : IncomingEvent}

section

variable (h : Traced all room events delivered)

include h

/-- A delivery of an event that is in the table in no worse form. -/
theorem Traced.again {e : RoomEvent} (he : e ∈ all) (hdelivers : e.Delivers incoming)
    (htold : Told all room events (delivered ++ [incoming])) :
    Traced all room events (delivered ++ [incoming]) := by
  refine ⟨htold, ?_, ?_⟩
  · intro other hother
    rcases List.mem_append.mp hother with hbefore | hnow
    · exact h.known other hbefore
    · rw [List.mem_singleton.mp hnow]
      exact ⟨e, he, hdelivers⟩
  · intro row hrow
    obtain ⟨form, hform, hrest⟩ := h.came row hrow
    exact ⟨form, List.mem_append_left _ hform, hrest⟩

theorem Traced.fills {g : EventRow → EventRow} (hg : Unmarked g) :
    Traced all room (events.map g) delivered := by
  refine ⟨h.told.fills hg, h.known, ?_⟩
  intro row' hrow'
  obtain ⟨row, hrow, rfl⟩ := List.mem_map.mp hrow'
  obtain ⟨form, hform, hstorable, hframe⟩ := h.came row hrow
  have hsender : (g row).sender = row.sender := by rw [(hg.frame row).rest]
  refine ⟨form, hform, ?_, ?_⟩
  · rw [(hg.frame row).eventId, hsender]
    exact hstorable
  · rw [(hg.frame row).eventId, hsender]
    exact hframe.trans (hg.frame row)

theorem Traced.arrives {row : EventRow} (henters : Enters events events' row) {e : RoomEvent}
    (he : e ∈ all) {incoming : IncomingEvent} (hrow : RowOf room e incoming row) :
    Traced all room (applyRelations room events' row) (delivered ++ [incoming]) := by
  refine ⟨h.told.arrives henters he hrow, ?_, ?_⟩
  · intro other hother
    rcases List.mem_append.mp hother with hbefore | hnow
    · exact h.known other hbefore
    · rw [List.mem_singleton.mp hnow]
      exact ⟨e, he, hrow.1⟩
  · intro other' hother'
    obtain ⟨other, hother, hframe⟩ := (applyRelations_reframed room events' row).mem hother'
    have hsender : other'.sender = other.sender := by rw [hframe.rest]
    rw [hframe.eventId, hsender]
    rcases henters.comes.cases hother with rfl | ⟨hold, _⟩
    · exact ⟨incoming, List.mem_append_right _ List.mem_cons_self, hrow.2.1,
        hrow.2.2.trans hframe⟩
    · obtain ⟨form, hform, hstorable, hformFrame⟩ := h.came other hold
      exact ⟨form, List.mem_append_left _ hform, hstorable, hformFrame.trans hframe⟩

end

variable {message : EventRow}

section

variable (hall : TimedEvents all)

include hall

/-- What a message names is one of its edits, and its time is the time of that edit. -/
theorem Traced.remains_of_names (h : Traced all room events delivered) (hmessage : message ∈ events)
    (hclass : message.eventClass = .msg) (hlive : message.isRedacted = false)
    (hnames : message.refEventId ≠ none) :
    ∃ edit, Remains room delivered message edit ∧
      edit.originServerTs = message.modifiedTimestamp := by
  obtain ⟨current, hcurrent⟩ := Option.ne_none_iff_exists'.mp hnames
  have hshown : shownStamp message = some (toLex (message.modifiedTimestamp, current)) := by
    rw [shownStamp, hcurrent]
    rfl
  rcases (h.told.sound.shows message hmessage hclass hlive).1 with hnewest | ⟨hnone, _⟩
  · rw [hshown, h.editsOf_eq hall hmessage hclass] at hnewest
    obtain ⟨edit, hremains, hstamp⟩ := hnewest.mem
    exact ⟨edit, hremains, congrArg (fun x => (ofLex x).1) hstamp⟩
  · rw [hshown] at hnone
    cases hnone

/-- All edits of a message that names nothing are from before the time zero. -/
theorem Traced.negative_of_none (h : Traced all room events delivered) {edit : EventRow}
    (hmessage : message ∈ events) (hclass : message.eventClass = .msg)
    (hlive : message.isRedacted = false) (hnone : message.refEventId = none)
    (hremains : Remains room delivered message edit) : edit.originServerTs < 0 := by
  have hmem : stamp edit ∈ editsOf ∅ events message := by
    rw [h.editsOf_eq hall hmessage hclass]
    exact ⟨edit, hremains, rfl⟩
  rcases (h.told.sound.shows message hmessage hclass hlive).1 with hnewest | ⟨_, hmissed⟩
  · rw [shownStamp, hnone] at hnewest
    rw [show editsOf ∅ events message = ∅ from hnewest] at hmem
    exact hmem.elim
  · exact (hmissed _ hmem).2

theorem NamesByTrace.again (h : NamesByTrace room events delivered)
    (htraced : Traced all room events (delivered ++ [incoming])) :
    NamesByTrace room events (delivered ++ [incoming]) := by
  intro row hrow hclass hlive
  rw [lapsed_snoc]
  constructor
  · exact fun hnone => .inr ⟨(h row hrow hclass hlive).mp hnone, fun _ hremains =>
      htraced.negative_of_none hall hrow hclass hlive hnone hremains⟩
  · rintro (hnone | ⟨hlapsed, _⟩)
    · by_contra hnames
      obtain ⟨edit, hremains, _⟩ := htraced.remains_of_names hall hrow hclass hlive hnames
      exact hnone edit hremains
    · exact (h row hrow hclass hlive).mpr hlapsed

omit hall in
theorem NamesByTrace.fills (h : NamesByTrace room events delivered) {g : EventRow → EventRow}
    (hg : Unmarked g) : NamesByTrace room (events.map g) delivered := by
  intro row' hrow' hclass hlive
  obtain ⟨row, hrow, rfl⟩ := List.mem_map.mp hrow'
  rw [hg.redacted] at hlive
  rw [hg.ref, Lapsed.congr (hg.frame row)]
  exact h row hrow ((hg.frame row).eventClass.symm.trans hclass) hlive

/-- No edit remains for a message that has named one and falls back to none. -/
theorem none_remains_of_reselected (h : Traced all room events delivered) {row message' : EventRow}
    {e : RoomEvent} (henters : Enters events events' row) (he : e ∈ all)
    (hrow : RowOf room e incoming row) (hclass : row.eventClass = .redact)
    (hmessage : message ∈ events) (hnames : message.refEventId.isSome = true)
    (hmessage' : message' ∈ applyRelations room events' row) (hframe : Frame message message')
    (hmsg : message'.eventClass = .msg) (hlive : message'.isRedacted = false)
    (hnone : message'.refEventId = none) :
    ∀ edit, ¬Remains room (delivered ++ [incoming]) message' edit := by
  have hbefore : Sound {key | key ≠ message.key} ∅ events := by
    refine ⟨h.told.sound.keyed, h.told.sound.unapplied, h.told.sound.waiting, ?_,
      h.told.sound.unread⟩
    intro target htarget htargetClass htargetLive
    have hshows := h.told.sound.shows target htarget htargetClass htargetLive
    refine ⟨?_, hshows.2⟩
    rcases hshows.1 with hnewest | ⟨hnoneShown, hmissed⟩
    · exact .inl hnewest
    · refine .inr ⟨hnoneShown, fun k hk => ⟨fun hkey => ?_, (hmissed k hk).2⟩⟩
      rw [h.told.sound.keyed.eq_of_key htarget hmessage hkey, shownStamp,
        Option.map_eq_none_iff] at hnoneShown
      rw [hnoneShown] at hnames
      cases hnames
  have hafter := hbefore.arrives h.told.settled.placed henters.comes
    (fun hrowMsg => absurd (hclass.symm.trans hrowMsg) (by decide))
    (fun hrowEdit => absurd (hclass.symm.trans hrowEdit) (by decide))
  rw [hrow.room_eq] at hafter
  have hempty : editsOf ∅ (applyRelations room events' row) message' = ∅ := by
    have hshown : shownStamp message' = none := by rw [shownStamp, hnone]; rfl
    rcases (hafter.shows message' hmessage' hmsg hlive).1 with hnewest | ⟨_, hmissed⟩
    · rw [hshown] at hnewest
      exact hnewest
    · exact Set.eq_empty_iff_forall_notMem.mpr fun k hk => (hmissed k hk).1 hframe.key
  rw [(h.arrives henters he hrow).editsOf_eq hall hmessage' hmsg] at hempty
  exact fun edit hremains => Set.eq_empty_iff_forall_notMem.mp hempty _ ⟨edit, hremains, rfl⟩

theorem NamesByTrace.arrives (h : NamesByTrace room events delivered)
    (htraced : Traced all room events delivered) {row : EventRow}
    (henters : Enters events events' row) {e : RoomEvent} (he : e ∈ all) {incoming : IncomingEvent}
    (hrow : RowOf room e incoming row) :
    NamesByTrace room (applyRelations room events' row) (delivered ++ [incoming]) := by
  have hafter := htraced.arrives henters he hrow
  have hroom := hrow.room_eq
  intro message' hmessage' hclass' hlive'
  obtain ⟨message, hmessage, hframe⟩ := (applyRelations_reframed room events' row).mem hmessage'
  have hclass := hframe.eventClass.symm.trans hclass'
  have hlive := hframe.live hlive'
  -- A message that names nothing and one that names an edit from before the time zero.
  have hnegative := fun hnone edit (hremains : Remains room (delivered ++ [incoming]) message' edit)
    => hafter.negative_of_none hall hmessage' hclass' hlive' hnone hremains
  have hnamed := hafter.remains_of_names hall hmessage' hclass' hlive'
  have hzero : 0 ≤ message'.modifiedTimestamp → (∀ edit,
      Remains room (delivered ++ [incoming]) message' edit → edit.originServerTs < 0) →
        message'.refEventId = none := by
    intro hle hall
    by_contra hnames
    obtain ⟨edit, hremains, htime⟩ := hnamed hnames
    exact absurd (hall edit hremains) (by rw [htime]; exact Int.not_lt.mpr hle)
  have hempty : (∀ edit, ¬Remains room (delivered ++ [incoming]) message' edit) →
      message'.refEventId = none := by
    intro hnone
    by_contra hnames
    obtain ⟨edit, hremains, _⟩ := hnamed hnames
    exact hnone edit hremains
  rw [lapsed_snoc]
  rcases henters.comes.cases hmessage with rfl | ⟨hold, hne⟩
  · -- The message itself has come, so that no edit counted before.
    have hnone : ∀ edit, ¬Remains room delivered message' edit := by
      rintro edit ⟨⟨form, hform, sender, hstorable, hread⟩, _⟩
      obtain ⟨old, hold, hid, hreadable⟩ :=
        htraced.told.heard form hform message'.eventId sender hstorable
      refine hreadable hread (henters.old old hold (key_eq_iff.mpr ⟨?_, ?_⟩)).1
      · rw [htraced.room_eq hold, hroom]
      · rw [hid, hframe.eventId]
    have hmodified := names_of_new henters.keyed henters.mem hclass (henters.named hclass)
      (henters.comes.unread htraced.told.sound.unread) (hroom.symm ▸ hmessage') hframe.key hlive'
    constructor
    · exact fun href => .inr ⟨.of_none hnone, hnegative href⟩
    · rintro (hgone | ⟨_, hneg⟩)
      · exact hempty hgone
      · exact hmodified.elim id fun hle => hzero hle hneg
  · have hbefore := h message hold hclass hlive
    have hfree : message.refEventId ≠ some row.eventId := by
      intro hnames
      obtain ⟨edit, hedit, _, happlies, hid⟩ :=
        htraced.told.sound.current hold hclass hlive hnames
      have hgeneral := (henters.old edit hedit (key_eq_iff.mpr ⟨?_, hid⟩)).1
      · exact absurd (hgeneral.symm.trans (replaces_classes happlies.valid).2) (by decide)
      · rw [htraced.room_eq hedit, hroom]
    have hthere := names_of_there henters.keyed henters.mem hmessage hne hfree
      (hroom.symm ▸ hmessage') hframe.key hlive'
    rw [Lapsed.congr hframe]
    constructor
    · intro href
      rcases hthere with ⟨hsame, _⟩ | ⟨_, _, hnew, _⟩ | ⟨hredact, hnames, _⟩
      · exact .inr ⟨hbefore.mp (hsame.symm.trans href), hnegative href⟩
      · rw [href] at hnew
        cases hnew
      · exact .inl (none_remains_of_reselected hall htraced henters he hrow hredact hold hnames
          hmessage' hframe hclass' hlive' href)
    · rintro (hgone | ⟨hlapsed, hneg⟩)
      · exact hempty hgone
      · have href := hbefore.mpr hlapsed
        rcases hthere with ⟨hsame, _⟩ | ⟨_, hnewer, _, htime⟩ | ⟨_, hnames, _⟩
        · exact hsame.trans href
        · refine hzero ?_ hneg
          rw [htime, ← (htraced.told.sound.shows message hold hclass hlive).2 href]
          exact modified_le_of_isNewer hnewer
        · rw [href] at hnames
          cases hnames

end

theorem traced_run (room : String) (hall : TimedEvents all) (packages : ContentPackages)
    (calls : List (String × List IncomingEvent))
    (hcalls : ∀ call ∈ calls, ∀ incoming ∈ call.2, ∃ e ∈ all, e.Delivers incoming) :
    let s := Runs.run (deliver packages room) (empty, []) calls
    Traced all room s.1.events s.2 ∧ NamesByTrace room s.1.events s.2 := by
  have hstart : Traced all room empty.events [] :=
    ⟨told_start, fun _ h => (by cases h), fun _ h => (by cases h)⟩
  refine run_delivers (fun events delivered => Traced all room events delivered ∧
    NamesByTrace room events delivered) ?_ ?_ calls hcalls ⟨hstart, fun _ h => (by cases h)⟩
  · rintro events delivered e incoming he hdelivers hstorable ⟨htraced, hnames⟩
    have htold := htraced.told.again incoming fun eventId sender hother => by
      rw [hstorable] at hother
      cases hother
    have hagain := htraced.again he hdelivers htold
    exact ⟨hagain, hnames.again hall hagain⟩
  · rintro cache stored delivered e incoming eventId sender he hdelivers hstorable hstored
      ⟨htraced, hnames⟩
    obtain ⟨g, hg, ⟨events', row, henters, hrow, hevents⟩ | ⟨hevents, _⟩⟩ :=
      htraced.told.stores_cases hall he hdelivers hstorable hstored
    · rw [hevents]
      exact ⟨(htraced.fills hg).arrives henters he hrow,
        (hnames.fills hg).arrives hall (htraced.fills hg) henters he hrow⟩
    · have htold := htraced.told.stores hall he hdelivers hstorable hstored
      rw [hevents] at htold ⊢
      have hagain := (htraced.fills hg).again he hdelivers htold
      exact ⟨hagain, (hnames.fills hg).again hall hagain⟩

end Tracing

/-- The message names the latest of the edits that remain, or nothing when none does, and
selecting anew, as after a redaction, changes nothing. -/
def SelectsLatest (room : String) (events : List EventRow) (delivered : List IncomingEvent)
    (message : EventRow) : Prop :=
  (match message.refEventId with
    | none => ∀ edit, ¬Remains room delivered message edit
    | some editId => ∃ edit, Remains room delivered message edit ∧ edit.eventId = editId ∧
        ∀ other, Remains room delivered message other → stamp other ≤ stamp edit) ∧
  reselect room events message = events

/-- A message that names the latest of its edits has nothing to select anew. -/
theorem reselect_eq_self {room : String} {events : List EventRow} {message : EventRow}
    (hkeyed : Table.Keyed EventRow.key events) (hmessage : message ∈ events)
    (hroom : message.room = room) (hnewest : Newest (editsOf ∅ events message) (shownStamp message))
    (hzero : message.refEventId = none → message.modifiedTimestamp = 0) :
    reselect room events message = events := by
  have hfallback := (fallback_newest hroom fun _ _ _ => Set.notMem_empty _).unique hnewest
  rw [reselect_eq_map]
  have hsame : (fallback room events message).map EventRow.eventId = message.refEventId ∧
      ((fallback room events message).map EventRow.originServerTs).getD 0 =
        message.modifiedTimestamp := by
    rw [shownStamp] at hfallback
    cases hfound : fallback room events message with
    | none =>
      rw [hfound] at hfallback
      have hnone : message.refEventId = none := Option.map_eq_none_iff.mp hfallback.symm
      exact ⟨hnone.symm, (hzero hnone).symm⟩
    | some edit =>
      rw [hfound] at hfallback
      obtain ⟨current, hcurrent, hstamp⟩ := Option.map_eq_some_iff.mp hfallback.symm
      rw [hcurrent]
      exact ⟨congrArg (fun k : Int ×ₗ String => some (ofLex k).2) hstamp.symm,
        congrArg (fun k : Int ×ₗ String => (ofLex k).1) hstamp.symm⟩
  rw [hsame.1, hsame.2]
  refine (List.map_congr_left fun row hrow => ?_).trans (List.map_id events)
  rw [markCurrentEdit]
  split_ifs with hkey
  · rw [hkeyed.eq_of_key hrow hmessage (hkey.trans (by rw [EventRow.key, hroom]))]
    rfl
  · rfl
  · rfl

/-- A message that is not redacted names the latest of the edits that remain, the one that a
redaction would make it fall back to, exactly when none remains or one that is not from before
the time zero has remained since the last moment at which none did. -/
theorem selection_exact_iff (packages : ContentPackages) (room : String) (all : List RoomEvent)
    (calls : List (String × List IncomingEvent)) (hall : TimedEvents all)
    (hcalls : ∀ call ∈ calls, ∀ incoming ∈ call.2, ∃ e ∈ all, e.Delivers incoming) :
    let s := Runs.run (deliver packages room) (Cache.empty, []) calls
    ∀ message ∈ s.1.events, message.eventClass = .msg → message.isRedacted = false →
      (SelectsLatest room s.1.events s.2 message ↔
        (∀ edit, ¬Remains room s.2 message edit) ∨ ¬Lapsed room s.2 message) := by
  intro s message hmessage hclass hlive
  obtain ⟨htraced, hnames⟩ := traced_run room hall packages calls hcalls
  have htrace := hnames message hmessage hclass hlive
  have hedits := htraced.editsOf_eq hall hmessage hclass
  constructor
  · rintro ⟨hlatest, _⟩
    by_cases hnone : message.refEventId = none
    · rw [hnone] at hlatest
      exact .inl hlatest
    · exact .inr fun hlapsed => hnone (htrace.mpr hlapsed)
  · intro hholds
    have hnewest : Newest (editsOf ∅ s.1.events message) (shownStamp message) := by
      rcases (htraced.told.sound.shows message hmessage hclass hlive).1 with hnewest | ⟨hshown, _⟩
      · exact hnewest
      · rw [shownStamp, Option.map_eq_none_iff] at hshown
        rcases hholds with hgone | hkept
        · rw [shownStamp, hshown, hedits]
          exact Set.eq_empty_iff_forall_notMem.mpr fun k hk => hgone _ hk.choose_spec.1
        · exact absurd (htrace.mp hshown) hkept
    refine ⟨?_, ?_⟩
    · rw [hedits, shownStamp] at hnewest
      cases href : message.refEventId with
      | none =>
          rw [href] at hnewest
          exact fun edit hremains =>
            Set.eq_empty_iff_forall_notMem.mp hnewest _ ⟨edit, hremains, rfl⟩
      | some editId =>
          rw [href] at hnewest
          obtain ⟨⟨edit, hremains, hstamp⟩, hgreatest⟩ := hnewest
          refine ⟨edit, hremains, congrArg (fun k => (ofLex k).2) hstamp, fun other hother => ?_⟩
          rw [hstamp]
          exact hgreatest ⟨other, hother, rfl⟩
    · exact reselect_eq_self htraced.told.sound.keyed hmessage (htraced.room_eq hmessage)
        hnewest (htraced.told.sound.shows message hmessage hclass hlive).2

def firstMessage : Json :=
  .object [("event_id", .string "$m"), ("sender", .string "@b"), ("type", .string "m.room.message"),
    ("content", .object [("body", .string "hello")])]

def editAt (time : Int) : Json :=
  .object [("event_id", .string "$e"), ("sender", .string "@b"), ("type", .string "m.room.message"),
    ("origin_server_ts", .number time),
    ("content", .object
      [("m.new_content", .object [("body", .string "goodbye")]),
        ("m.relates_to", .object
          [("rel_type", .string "m.replace"), ("event_id", .string "$m")])])]

/-- The message comes, and then an edit of it. -/
def editCalls (time : Int) : List (String × List IncomingEvent) :=
  [("@a", [.plain firstMessage]), ("@a", [.plain (editAt time)])]

def editEvents (time : Int) : List RoomEvent :=
  [.plain firstMessage, .plain (editAt time)]

theorem editEvents_timed (time : Int) : TimedEvents (editEvents time) := by
  have hforms : ∀ e ∈ editEvents time, e.json = firstMessage ∨ e.json = editAt time := by
    intro e he
    rcases List.mem_cons.mp he with rfl | he
    · exact .inl rfl
    · rw [List.mem_singleton.mp he]
      exact .inr rfl
  refine ⟨?_, ?_⟩
  · intro a ha b hb id hid hid'
    simp only [editEvents, List.mem_cons, List.not_mem_nil, or_false] at ha hb
    rcases ha with rfl | rfl <;> rcases hb with rfl | rfl
    · rfl
    · exact absurd (show some "$m" = some "$e" from hid.trans hid'.symm) (by decide)
    · exact absurd (show some "$e" = some "$m" from hid.trans hid'.symm) (by decide)
    · rfl
  · intro e he incoming hdelivers
    rw [IncomingEvent.isRedactedByServer, envelope_eq hdelivers]
    rcases hforms e he with h | h <;> rw [h] <;> rfl

theorem editCalls_deliver (time : Int) :
    ∀ call ∈ editCalls time, ∀ incoming ∈ call.2, ∃ e ∈ editEvents time, e.Delivers incoming := by
  intro call hcall incoming hincoming
  rcases List.mem_cons.mp hcall with rfl | hcall
  · rw [List.mem_singleton.mp hincoming]
    exact ⟨_, List.mem_cons_self, .plain _⟩
  · rw [List.mem_singleton.mp hcall] at hincoming
    rw [List.mem_singleton.mp hincoming]
    exact ⟨_, List.mem_cons_of_mem _ List.mem_cons_self, .plain _⟩

/-- An edit that comes after its message is named. -/
theorem selection_exact_of_one_edit :
    let packages : ContentPackages := { blockFromJson := fun _ => .error "", quoted := id }
    let s := Runs.run (deliver packages "!r") (Cache.empty, []) (editCalls 7)
    ∃ message ∈ s.1.events, message.refEventId = some "$e" ∧
      SelectsLatest "!r" s.1.events s.2 message := by
  intro packages s
  have hfound : (findEvent s.1.events "!r" "$m").map
      (fun row => (row.eventClass, row.isRedacted, row.refEventId)) =
        some (.msg, false, some "$e") := by decide +kernel
  obtain ⟨message, hfind, hrow⟩ := Option.map_eq_some_iff.mp hfound
  obtain ⟨hmem, _, _⟩ := mem_of_findEvent hfind
  simp only [Prod.mk.injEq] at hrow
  obtain ⟨hclass, hlive, href⟩ := hrow
  refine ⟨message, hmem, href, (selection_exact_iff packages "!r" (editEvents 7) (editCalls 7)
    (editEvents_timed 7) (editCalls_deliver 7) message hmem hclass hlive).mpr (.inr ?_)⟩
  rw [← (traced_run "!r" (editEvents_timed 7) packages (editCalls 7) (editCalls_deliver 7)).2
    message hmem hclass hlive, href]
  exact Option.some_ne_none _

/-- The only edit of a message, from before the time zero, is not named. -/
theorem first_edit_not_named :
    let packages : ContentPackages := { blockFromJson := fun _ => .error "", quoted := id }
    let s := Runs.run (deliver packages "!r") (Cache.empty, []) (editCalls (-5))
    ∃ message ∈ s.1.events, message.eventClass = .msg ∧ message.isRedacted = false ∧
      ¬SelectsLatest "!r" s.1.events s.2 message := by
  intro packages s
  have hfound : (findEvent s.1.events "!r" "$m").map
      (fun row => (row.eventClass, row.isRedacted, row.refEventId)) =
        some (.msg, false, none) := by decide +kernel
  have hedit : ((findEvent s.1.events "!r" "$m").bind fun message =>
      (findEvent s.1.events "!r" "$e").map fun edit =>
        (edit.refEventId, edit.isRedacted, edit.replaces message)) =
        some (some "$m", false, true) := by decide +kernel
  obtain ⟨message, hfind, hrow⟩ := Option.map_eq_some_iff.mp hfound
  obtain ⟨hmem, hroom, hid⟩ := mem_of_findEvent hfind
  rw [hfind, Option.bind_some] at hedit
  obtain ⟨edit, hfindEdit, hrowEdit⟩ := Option.map_eq_some_iff.mp hedit
  obtain ⟨hmemEdit, hroomEdit, _⟩ := mem_of_findEvent hfindEdit
  simp only [Prod.mk.injEq] at hrow hrowEdit
  obtain ⟨hclass, hlive, href⟩ := hrow
  obtain ⟨hrefEdit, hliveEdit, hvalid⟩ := hrowEdit
  refine ⟨message, hmem, hclass, hlive, fun hselects => ?_⟩
  have hnone := hselects.1
  rw [href] at hnone
  have htraced := (traced_run "!r" (editEvents_timed (-5)) packages (editCalls (-5))
    (editCalls_deliver (-5))).1
  have happlies : Applies edit message :=
    ⟨hroomEdit.trans hroom.symm, by rw [hrefEdit, hid], hliveEdit, hvalid⟩
  have hedits : stamp edit ∈ editsOf ∅ s.1.events message :=
    ⟨edit, hmemEdit, Set.notMem_empty _, happlies, rfl⟩
  rw [htraced.editsOf_eq (editEvents_timed (-5)) hmem hclass] at hedits
  obtain ⟨remaining, hremains, _⟩ := hedits
  exact hnone remaining hremains

end EditSelection
end WbfMatrixClient
