import WbfMatrixClient.EventPointers

/-!
# What is redacted, and which redactions are done

Applying relations redacts exactly the rows that a redaction names which is
applied, and marks exactly the redactions whose target is there. Edits have no
part in this.
-/

namespace WbfMatrixClient
namespace EventPointers

/-- Rows with the first keys become redacted, redactions with the second keys
become processed, and otherwise these marks stay. -/
def Redacting (hit done : Set (String × String)) (events events' : List EventRow) : Prop :=
  ∃ g : EventRow → EventRow, (∀ row, Frame row (g row)) ∧ events' = events.map g ∧
    ∀ row ∈ events,
      ((g row).isRedacted = true ↔ row.isRedacted = true ∨ row.key ∈ hit) ∧
      (row.eventClass = .redact →
        ((g row).isProcessed = true ↔ row.isProcessed = true ∨ row.key ∈ done))

section Marks

variable {events events' events'' : List EventRow} {hit hit' done done' : Set (String × String)}

theorem Redacting.refl (events : List EventRow) :
    Redacting ∅ ∅ events events := ⟨id, Frame.refl, by simp, fun row _ => by simp⟩

section

variable (h : Redacting hit done events events')

include h

theorem Redacting.trans (h' : Redacting hit' done' events' events'') :
    Redacting (hit ∪ hit') (done ∪ done') events events'' := by
  obtain ⟨g, hg, rfl, hmarks⟩ := h
  obtain ⟨g', hg', rfl, hmarks'⟩ := h'
  refine ⟨g' ∘ g, fun row => (hg row).trans (hg' (g row)), by rw [List.map_map], ?_⟩
  intro row hrow
  obtain ⟨hredacted, hprocessed⟩ := hmarks row hrow
  obtain ⟨hredacted', hprocessed'⟩ := hmarks' (g row) (List.mem_map_of_mem hrow)
  rw [(hg row).key] at hredacted' hprocessed'
  rw [(hg row).eventClass] at hprocessed'
  constructor
  · rw [Function.comp_apply, hredacted', hredacted, or_assoc, Set.mem_union]
  · intro hclass
    rw [Function.comp_apply, hprocessed' hclass, hprocessed hclass, or_assoc, Set.mem_union]

/-- The marks that matter are those of rows that are there. -/
theorem Redacting.congr (hhit : ∀ row ∈ events, row.key ∈ hit ↔ row.key ∈ hit')
    (hdone : ∀ row ∈ events, row.eventClass = .redact → (row.key ∈ done ↔ row.key ∈ done')) :
    Redacting hit' done' events events' := by
  obtain ⟨g, hg, rfl, hmarks⟩ := h
  refine ⟨g, hg, rfl, fun row hrow => ?_⟩
  obtain ⟨hredacted, hprocessed⟩ := hmarks row hrow
  refine ⟨hredacted.trans (by rw [hhit row hrow]), fun hclass => ?_⟩
  exact (hprocessed hclass).trans (by rw [hdone row hrow hclass])

theorem Redacting.reframed : Reframed events events' := by
  obtain ⟨g, hg, heq, _⟩ := h
  exact ⟨g, hg, heq⟩

end

variable {room : String}

/-- Marking a row that is no redaction as processed. -/
theorem setProcessed_redacting {eventId : String}
    (hnot : ∀ row ∈ events, row.key = (room, eventId) → row.eventClass ≠ .redact) :
    Redacting ∅ ∅ events (setProcessed events room eventId) := by
  refine ⟨markProcessed room eventId, markProcessed_frame room eventId, rfl, ?_⟩
  intro row hrow
  rw [(markProcessed_marks room eventId row).1]
  refine ⟨by simp, fun hclass => ?_⟩
  rw [markProcessed_of_ne fun hkey => hnot row hrow hkey hclass]
  simp

theorem setCurrentEdit_redacting (events : List EventRow) (room target : String)
    (edit : Option String) (modifiedTimestamp : Int) :
    Redacting ∅ ∅ events (setCurrentEdit events room target edit modifiedTimestamp) := by
  refine ⟨markCurrentEdit room target edit modifiedTimestamp,
    markCurrentEdit_frame room target edit modifiedTimestamp, rfl, ?_⟩
  intro row _
  obtain ⟨hprocessed, hredacted⟩ := markCurrentEdit_marks room target edit modifiedTimestamp row
  rw [hprocessed, hredacted]
  simp

theorem applyEdit_redacting (hkeyed : Table.Keyed EventRow.key events) (room editId : String) :
    Redacting ∅ ∅ events (applyEdit room events editId) := by
  rw [applyEdit]
  cases hfind : findEvent events room editId with
  | none => exact Redacting.refl events
  | some edit =>
    obtain ⟨hmem, hroom, hid⟩ := mem_of_findEvent hfind
    have hkey : edit.key = (room, editId) := by rw [EventRow.key, hroom, hid]
    simp only
    split_ifs with hstop
    · exact Redacting.refl events
    rw [not_or, not_not] at hstop
    have hnot : ∀ row ∈ events, row.key = (room, editId) → row.eventClass ≠ .redact := by
      intro row hrow hrowKey
      rw [hkeyed.eq_of_key hrow hmem (hrowKey.trans hkey.symm), hstop.1]
      decide
    have hprocessed := setProcessed_redacting hnot
    cases edit.refEventId with
    | none => exact hprocessed
    | some targetId =>
      simp only
      cases findEvent events room targetId with
      | none => exact Redacting.refl events
      | some target =>
        simp only
        split_ifs
        · exact Redacting.refl events
        · exact hprocessed
        · have hnamed := setCurrentEdit_redacting events room targetId (some editId)
            edit.originServerTs
          have hafter : Redacting ∅ ∅
              (setCurrentEdit events room targetId (some editId) edit.originServerTs)
              (setProcessed (setCurrentEdit events room targetId (some editId)
                edit.originServerTs) room editId) := by
            refine setProcessed_redacting fun row' hrow' hrowKey => ?_
            obtain ⟨row, hrow, hframe⟩ := hnamed.reframed.mem hrow'
            rw [hframe.eventClass]
            exact hnot row hrow (hframe.key.symm.trans hrowKey)
          simpa using hnamed.trans hafter
        · exact hprocessed

theorem applyEdits_redacting (room : String) :
    ∀ (editIds : List String) {events : List EventRow}, Table.Keyed EventRow.key events →
      Redacting ∅ ∅ events (editIds.foldl (applyEdit room) events) := by
  intro editIds
  induction editIds with
  | nil =>
    intro events _
    exact Redacting.refl events
  | cons editId editIds ih =>
    intro events hkeyed
    have hfirst := applyEdit_redacting hkeyed room editId
    simpa using hfirst.trans (ih (hfirst.reframed.keyed hkeyed))

theorem reselect_redacting (room : String) (events : List EventRow) (edited : EventRow) :
    Redacting ∅ ∅ events (reselect room events edited) := by
  rw [reselect_eq_map]
  exact setCurrentEdit_redacting events room edited.eventId _ _

theorem applyRedaction_redacting (hkeyed : Table.Keyed EventRow.key events) {targetId : String}
    {redaction target : EventRow} (hredaction : redaction ∈ events) (hroom : redaction.room = room)
    (hclass : redaction.eventClass = .redact) (hprocessed : redaction.isProcessed = false)
    (href : redaction.refEventId = some targetId)
    (htarget : findEvent events room targetId = some target) :
    Redacting {(room, targetId)} {redaction.key} events
      (applyRedaction room events redaction.eventId) := by
  have hkey : redaction.key = (room, redaction.eventId) := by rw [EventRow.key, hroom]
  have hfind : findEvent events room redaction.eventId = some redaction :=
    hkeyed.find_eq_some_iff.mpr ⟨hredaction, hkey⟩
  have hmarked : Redacting {(room, targetId)} {redaction.key} events
      (setProcessed (setRedacted events room targetId redaction.originServerTs) room
        redaction.eventId) := by
    rw [setBoth_eq_map]
    refine ⟨markBoth room targetId redaction.eventId redaction.originServerTs,
      markBoth_frame _ _ _ _, rfl, ?_⟩
    intro row _
    rw [markBoth_isRedacted]
    refine ⟨by simp [or_comm], fun _ => ?_⟩
    rw [markBoth, markProcessed, (markRedacted_frame _ _ _ row).key, hkey, markRedacted]
    split_ifs <;> simp_all
  rw [applyRedaction, hfind]
  simp only [hclass, hprocessed, href, htarget, ne_eq, not_true_eq_false, Bool.false_eq_true,
    or_self, if_false]
  split_ifs with hedit
  · cases target.refEventId with
    | none => exact hmarked
    | some editedId =>
      simp only
      split
      · exact hmarked
      · split_ifs
        · simpa using hmarked.trans (reselect_redacting room _ _)
        · exact hmarked
  · exact hmarked

/-- A redaction that is done, or whose target is not there, changes nothing. -/
theorem applyRedaction_eq_self (hkeyed : Table.Keyed EventRow.key events) {redaction : EventRow}
    (hredaction : redaction ∈ events) (hroom : redaction.room = room)
    (href : redaction.refEventId.isSome = true)
    (hwait : redaction.isProcessed = true ∨ ∀ target ∈ events, target.room = room →
      redaction.refEventId ≠ some target.eventId) :
    applyRedaction room events redaction.eventId = events := by
  have hkey : redaction.key = (room, redaction.eventId) := by rw [EventRow.key, hroom]
  have hfind : findEvent events room redaction.eventId = some redaction :=
    hkeyed.find_eq_some_iff.mpr ⟨hredaction, hkey⟩
  obtain ⟨targetId, htargetId⟩ := Option.isSome_iff_exists.mp href
  rw [applyRedaction, hfind]
  simp only
  split_ifs with hstop
  · rfl
  rw [not_or, Bool.not_eq_true] at hstop
  rw [htargetId]
  simp only
  cases htarget : findEvent events room targetId with
  | none => rfl
  | some target =>
    obtain ⟨hmem, htargetRoom, rfl⟩ := mem_of_findEvent htarget
    rcases hwait with hprocessed | hwait
    · rw [hstop.2] at hprocessed
      cases hprocessed
    · exact absurd htargetId (hwait target hmem htargetRoom)

/-- Several redactions of one event that is there. -/
theorem applyRedactions_redacting {targetId : String} :
    ∀ (redactionIds : List String) {events : List EventRow},
      Table.Keyed EventRow.key events →
      redactionIds.Nodup →
      (∃ target ∈ events, target.key = (room, targetId)) →
      (∀ redactionId ∈ redactionIds, ∃ redaction ∈ events, redaction.key = (room, redactionId) ∧
        redaction.eventClass = .redact ∧ redaction.isProcessed = false ∧
          redaction.refEventId = some targetId) →
      Redacting {k | k = (room, targetId) ∧ redactionIds ≠ []}
        {k | k.1 = room ∧ k.2 ∈ redactionIds} events
        (redactionIds.foldl (applyRedaction room) events) := by
  intro redactionIds
  induction redactionIds with
  | nil =>
    intro events _ _ _ _
    simpa using Redacting.refl events
  | cons redactionId redactionIds ih =>
    intro events hkeyed hnodup htarget hnames
    obtain ⟨hfresh, hnodup⟩ := List.nodup_cons.mp hnodup
    obtain ⟨redaction, hredaction, hkey, hclass, hprocessed, href⟩ := hnames redactionId (by simp)
    obtain ⟨target, htargetMem, htargetKey⟩ := htarget
    have hroom : redaction.room = room := congrArg Prod.fst hkey
    have hid : redaction.eventId = redactionId := congrArg Prod.snd hkey
    have hfirst := applyRedaction_redacting hkeyed hredaction hroom hclass hprocessed href
      (hkeyed.find_eq_some_iff.mpr ⟨htargetMem, htargetKey⟩)
    rw [hid, hkey] at hfirst
    obtain ⟨g, hg, heq, hmarks⟩ := id hfirst
    have hrest := ih (hfirst.reframed.keyed hkeyed) hnodup ?_ ?_
    · refine (hfirst.trans hrest).congr (fun row _ => ?_) fun row _ _ => ?_
      · simp only [Set.mem_union, Set.mem_singleton_iff, Set.mem_ofPred_eq, ne_eq, reduceCtorEq,
          not_false_eq_true, and_true]
        exact ⟨fun hor => hor.elim id And.left, Or.inl⟩
      · simp only [Set.mem_union, Set.mem_singleton_iff, Set.mem_ofPred_eq, List.mem_cons,
          Prod.ext_iff]
        rw [and_or_left]
    · rw [heq]
      exact ⟨g target, List.mem_map_of_mem htargetMem, (hg target).key.trans htargetKey⟩
    · intro otherId hother
      obtain ⟨other, hotherMem, hotherKey, hotherClass, hotherProcessed, hotherRef⟩ :=
        hnames otherId (by simp [hother])
      rw [heq]
      refine ⟨g other, List.mem_map_of_mem hotherMem, (hg other).key.trans hotherKey,
        (hg other).eventClass.trans hotherClass, ?_, ?_⟩
      · rw [← Bool.not_eq_true, (hmarks other hotherMem).2 hotherClass, hotherProcessed,
          hotherKey]
        rintro (hfalse | hsame)
        · cases hfalse
        · have hsameId : otherId = redactionId := (Prod.ext_iff.mp hsame).2
          rw [hsameId] at hother
          exact hfresh hother
      · rw [(hg other).ref (by rw [hotherClass]; decide), hotherRef]

/-- A redaction that names the event is stored and not done. -/
def Awaited (events : List EventRow) (row : EventRow) : Prop :=
  ∃ redaction ∈ events, redaction.room = row.room ∧ redaction.eventClass = .redact ∧
    redaction.isProcessed = false ∧ redaction.refEventId = some row.eventId

theorem nodup_listWaitingRelations (hkeyed : Table.Keyed EventRow.key events) (room target : String)
    (eventClass : EventClass) : (listWaitingRelations events room target eventClass).Nodup := by
  have hrows := hkeyed.filter fun row : EventRow => decide (row.room = room ∧
    row.refEventId = some target ∧ row.eventClass = eventClass ∧ row.isProcessed = false)
  rw [listWaitingRelations]
  refine List.Nodup.map_on ?_ (List.Nodup.of_map _ hrows)
  intro a ha b hb hid
  refine hrows.eq_of_key ha hb ?_
  rw [List.mem_filter, decide_eq_true_eq] at ha hb
  rw [EventRow.key, EventRow.key, ha.2.1, hb.2.1, hid]

variable {row : EventRow}

theorem applyWaitingRedactions_redacting (hkeyed : Table.Keyed EventRow.key events)
    (hrow : row ∈ events) (hroom : row.room = room) :
    Redacting {k | k = row.key ∧ Awaited events row}
      {k | ∃ redaction ∈ events, redaction.key = k ∧ redaction.room = room ∧
        redaction.eventClass = .redact ∧ redaction.refEventId = some row.eventId}
      events (applyWaitingRedactions room events row.eventId) := by
  have hkey : row.key = (room, row.eventId) := by rw [EventRow.key, hroom]
  have hall := applyRedactions_redacting
    (listWaitingRelations events room row.eventId .redact) hkeyed
    (nodup_listWaitingRelations hkeyed room row.eventId .redact) ⟨row, hrow, hkey⟩ ?_
  · obtain ⟨g, hg, heq, hmarks⟩ := hall
    refine ⟨g, hg, heq, fun other hother => ?_⟩
    obtain ⟨hredacted, hprocessed⟩ := hmarks other hother
    constructor
    · rw [hredacted, Set.mem_ofPred_eq, Set.mem_ofPred_eq, hkey]
      refine or_congr_right (and_congr_right fun _ => ?_)
      constructor
      · intro hne
        obtain ⟨id, hid⟩ := List.exists_mem_of_ne_nil _ hne
        obtain ⟨waiting, hwaiting, hwaitingRoom, href, hclass, hunprocessed, _⟩ :=
          mem_listWaitingRelations.mp hid
        exact ⟨waiting, hwaiting, hwaitingRoom.trans hroom.symm, hclass, hunprocessed, href⟩
      · rintro ⟨waiting, hwaiting, hwaitingRoom, hclass, hunprocessed, href⟩
        refine List.ne_nil_of_mem (mem_listWaitingRelations.mpr
          ⟨waiting, hwaiting, hwaitingRoom.trans hroom, href, hclass, hunprocessed, rfl⟩)
    · intro hclass
      rw [hprocessed hclass]
      constructor
      · rintro (hdone | ⟨hotherRoom, hid⟩)
        · exact .inl hdone
        · obtain ⟨waiting, hwaiting, hwaitingRoom, href, hwaitingClass, _, hwaitingId⟩ :=
            mem_listWaitingRelations.mp hid
          exact .inr ⟨waiting, hwaiting, Prod.ext (hwaitingRoom.trans hotherRoom.symm) hwaitingId,
            hwaitingRoom, hwaitingClass, href⟩
      · rintro (hdone | ⟨waiting, hwaiting, hwaitingKey, hwaitingRoom, hwaitingClass, href⟩)
        · exact .inl hdone
        · obtain rfl := hkeyed.eq_of_key hwaiting hother hwaitingKey
          cases hstate : waiting.isProcessed with
          | true => exact .inl rfl
          | false =>
            exact .inr ⟨hwaitingRoom, mem_listWaitingRelations.mpr
              ⟨waiting, hwaiting, hwaitingRoom, href, hclass, hstate, rfl⟩⟩
  · intro redactionId hid
    obtain ⟨waiting, hwaiting, hwaitingRoom, href, hclass, hunprocessed, rfl⟩ :=
      mem_listWaitingRelations.mp hid
    exact ⟨waiting, hwaiting, by rw [EventRow.key, hwaitingRoom], hclass, hunprocessed, href⟩

/-- The event is redacted by what is applied with it. -/
def RedactedBy (events : List EventRow) (row target : EventRow) : Prop :=
  (target.key = row.key ∧ Awaited events row) ∨
    (row.eventClass = .redact ∧ row.isProcessed = false ∧ row.room = target.room ∧
      row.refEventId = some target.eventId)

/-- The redaction is done by what is applied with the event. -/
def DoneWith (events : List EventRow) (row redaction : EventRow) : Prop :=
  (redaction.room = row.room ∧ redaction.refEventId = some row.eventId) ∨
    (redaction = row ∧ ∃ target ∈ events, target.room = row.room ∧
      row.refEventId = some target.eventId)

theorem applyWaiting_redacting (hkeyed : Table.Keyed EventRow.key events) (hrow : row ∈ events)
    (hroom : row.room = room) :
    Redacting {k | k = row.key ∧ Awaited events row}
      {k | ∃ redaction ∈ events, redaction.key = k ∧ redaction.room = room ∧
        redaction.eventClass = .redact ∧ redaction.refEventId = some row.eventId}
      events (applyWaiting room events row.eventId) := by
  have hfirst := applyWaitingRedactions_redacting hkeyed hrow hroom
  have hboth := hfirst.trans (applyEdits_redacting room
    (listWaitingRelations (applyWaitingRedactions room events row.eventId) room row.eventId .edit)
    (hfirst.reframed.keyed hkeyed))
  rw [Set.union_empty, Set.union_empty] at hboth
  exact hboth

/-- What is redacted, and which redactions are done, once an event has been
dealt with. -/
theorem applyRelations_redacting (hkeyed : Table.Keyed EventRow.key events) (hrow : row ∈ events)
    (hroom : row.room = room) (href : row.eventClass = .redact → row.refEventId.isSome = true) :
    Redacting {k | ∃ target ∈ events, target.key = k ∧ RedactedBy events row target}
      {k | ∃ redaction ∈ events, redaction.key = k ∧ DoneWith events row redaction}
      events (applyRelations room events row) := by
  have hwaiting := applyWaiting_redacting hkeyed hrow hroom
  have hkey : row.key = (room, row.eventId) := by rw [EventRow.key, hroom]
  -- Nothing but what has waited is applied, unless the event is a redaction that can be.
  have hrest : (row.eventClass = .redact → row.isProcessed = true ∨
      row.refEventId = some row.eventId ∨
        ∀ target ∈ events, target.room = room → row.refEventId ≠ some target.eventId) →
      Redacting {k | ∃ target ∈ events, target.key = k ∧ RedactedBy events row target}
        {k | ∃ redaction ∈ events, redaction.key = k ∧ DoneWith events row redaction}
        events (applyWaiting room events row.eventId) := by
    intro hstop
    obtain ⟨g, hg, heq, hmarks⟩ := hwaiting
    refine ⟨g, hg, heq, fun other hother => ?_⟩
    obtain ⟨hredacted, hprocessed⟩ := hmarks other hother
    constructor
    · rw [hredacted]
      refine or_congr_right ⟨?_, ?_⟩
      · rintro ⟨hsame, hawaited⟩
        exact ⟨other, hother, rfl, .inl ⟨hsame, hawaited⟩⟩
      · rintro ⟨target, htarget, htargetKey, hby⟩
        obtain rfl := hkeyed.eq_of_key htarget hother htargetKey
        rcases hby with hby | ⟨hclass, hunprocessed, htargetRoom, hnames⟩
        · exact hby
        · rcases hstop hclass with hdone | hself | habsent
          · rw [hunprocessed] at hdone
            cases hdone
          · have hid : row.eventId = target.eventId := by
              rw [hself, Option.some.injEq] at hnames
              exact hnames
            have hsame := hkeyed.eq_of_key htarget hrow
              (by rw [EventRow.key, EventRow.key, htargetRoom, hid])
            rw [hsame]
            exact ⟨rfl, row, hrow, rfl, hclass, hunprocessed, hself⟩
          · exact absurd hnames (habsent target htarget (htargetRoom.symm.trans hroom))
    · intro hclass
      rw [hprocessed hclass]
      constructor
      · rintro (hdone | ⟨redaction, hredaction, hsameKey, hredactionRoom, _, hnames⟩)
        · exact .inl hdone
        · exact .inr ⟨redaction, hredaction, hsameKey,
            .inl ⟨hredactionRoom.trans hroom.symm, hnames⟩⟩
      · rintro (hdone | ⟨redaction, hredaction, hsameKey, hwith⟩)
        · exact .inl hdone
        · obtain rfl := hkeyed.eq_of_key hredaction hother hsameKey
          rcases hwith with ⟨hredactionRoom, hnames⟩ | ⟨hsame, target, htarget, htargetRoom, hnames⟩
          · exact .inr ⟨redaction, hredaction, rfl, hredactionRoom.trans hroom, hclass, hnames⟩
          · subst hsame
            rcases hstop hclass with hdone | hself | habsent
            · exact .inl hdone
            · exact .inr ⟨redaction, hredaction, rfl, hroom, hclass, hself⟩
            · exact absurd hnames (habsent target htarget (htargetRoom.trans hroom))
  have hkeyed' := hwaiting.reframed.keyed hkeyed
  rw [applyRelations_eq]
  generalize applyWaiting room events row.eventId = waited at hwaiting hrest hkeyed' ⊢
  split
  · rename_i hclass
    obtain ⟨g, hg, heq, hmarks⟩ := id hwaiting
    have hself : g row ∈ waited := by
      rw [heq]
      exact List.mem_map_of_mem hrow
    have hselfRef : (g row).refEventId = row.refEventId := (hg row).ref (by rw [hclass]; decide)
    have hselfDone : (g row).isProcessed = true ↔
        row.isProcessed = true ∨ row.refEventId = some row.eventId := by
      rw [(hmarks row hrow).2 hclass]
      refine or_congr_right ⟨?_, fun hnames => ⟨row, hrow, rfl, hroom, hclass, hnames⟩⟩
      rintro ⟨redaction, hredaction, hsameKey, _, _, hnames⟩
      rw [hkeyed.eq_of_key hredaction hrow hsameKey] at hnames
      exact hnames
    by_cases hstop : row.isProcessed = true ∨ row.refEventId = some row.eventId ∨
        ∀ target ∈ events, target.room = room → row.refEventId ≠ some target.eventId
    · rw [← (hg row).eventId, applyRedaction_eq_self hkeyed' hself ((hg row).room.trans hroom)
        (by rw [hselfRef]; exact href hclass) ?_]
      · exact hrest fun _ => hstop
      · rw [hselfDone, hselfRef]
        rcases hstop with hdone | hnames | habsent
        · exact .inl (.inl hdone)
        · exact .inl (.inr hnames)
        · refine .inr fun target' htarget' htargetRoom => ?_
          obtain ⟨target, htarget, hframe⟩ := hwaiting.reframed.mem htarget'
          rw [hframe.eventId]
          exact habsent target htarget (hframe.room.symm.trans htargetRoom)
    · simp only [not_or, not_forall, Bool.not_eq_true, not_not] at hstop
      obtain ⟨hunprocessed, hother, target, htarget, htargetRoom, hnames⟩ := hstop
      have hmarked : g target ∈ waited := by
        rw [heq]
        exact List.mem_map_of_mem htarget
      have happlied := applyRedaction_redacting hkeyed' hself ((hg row).room.trans hroom)
        ((hg row).eventClass.trans hclass) ?_ (hselfRef.trans hnames)
        (hkeyed'.find_eq_some_iff.mpr ⟨hmarked, ?_⟩)
      · rw [(hg row).eventId, (hg row).key] at happlied
        refine (hwaiting.trans happlied).congr (fun other hotherMem => ?_)
          fun other hotherMem hotherClass => ?_
        · simp only [Set.mem_union, Set.mem_ofPred_eq, Set.mem_singleton_iff]
          constructor
          · rintro (⟨hsame, hawaited⟩ | hsame)
            · exact ⟨other, hotherMem, rfl, .inl ⟨hsame, hawaited⟩⟩
            · refine ⟨other, hotherMem, rfl, .inr ⟨hclass, hunprocessed, ?_, ?_⟩⟩
              · rw [hroom]
                exact (congrArg Prod.fst hsame).symm
              · rw [hnames]
                exact congrArg some (congrArg Prod.snd hsame).symm
          · rintro ⟨found, hfound, hfoundKey, hby⟩
            obtain rfl := hkeyed.eq_of_key hfound hotherMem hfoundKey
            rcases hby with hby | ⟨_, _, hfoundRoom, hfoundNames⟩
            · exact .inl hby
            · refine .inr ?_
              rw [hnames, Option.some.injEq] at hfoundNames
              rw [EventRow.key, ← hfoundRoom, hroom, hfoundNames]
        · simp only [Set.mem_union, Set.mem_ofPred_eq, Set.mem_singleton_iff]
          constructor
          · rintro (⟨redaction, hredaction, hsameKey, hredactionRoom, _, href⟩ | hsame)
            · exact ⟨redaction, hredaction, hsameKey,
                .inl ⟨hredactionRoom.trans hroom.symm, href⟩⟩
            · exact ⟨row, hrow, hsame.symm,
                .inr ⟨rfl, target, htarget, htargetRoom.trans hroom.symm, hnames⟩⟩
          · rintro ⟨redaction, hredaction, hsameKey, hwith⟩
            rcases hwith with ⟨hredactionRoom, href⟩ | ⟨rfl, _⟩
            · have hsame := hkeyed.eq_of_key hredaction hotherMem hsameKey
              refine .inl ⟨redaction, hredaction, hsameKey, hredactionRoom.trans hroom, ?_, href⟩
              rw [hsame]
              exact hotherClass
            · exact .inr hsameKey.symm
      · rw [← Bool.not_eq_true, hselfDone]
        rintro (hdone | hnamesSelf)
        · rw [hunprocessed] at hdone
          cases hdone
        · exact hother hnamesSelf
      · rw [(hg target).key, EventRow.key, htargetRoom]
  · rename_i hclass
    have hedit := applyEdit_redacting hkeyed' room row.eventId
    have hboth := (hrest fun hne => by rw [hclass] at hne; cases hne).trans hedit
    simpa using hboth
  · rename_i hne _
    exact hrest fun hclass => absurd hclass hne

end Marks

end EventPointers
end WbfMatrixClient
