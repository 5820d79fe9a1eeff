import WbfMatrixClient.MatrixDownloadReplies

/-!
# The row that a transfer finishes

A transfer looks at the row once more before it puts its file into the pool, and the job that
changes the row comes later. What the writer does in between decides whether that job still finds
the row of the transfer. The number of a row is given again when the row is gone, so a row is told
from the one before it by how many there have been.
-/

namespace WbfMatrixClient
namespace MatrixDownload

open Function

namespace CallPhase

/-- The call has its row, and has joined no transfer. -/
def hasRow : CallPhase → Bool
  | .begun | .absent => true
  | _ => false

end CallPhase

namespace State

/-- No transfer is between its last look at the row and the job that changes it. -/
def NobodyFinishes (s : State) : Prop :=
  ∀ n t, s.transfers n = some t → t.phase.isFinishing = false

/-- No call and no transfer in progress was started for a row of the number. -/
def NobodyNames (s : State) (id : Nat) : Prop :=
  (∀ n t, s.transfers n = some t → t.phase.isWorking = true → t.pendingId ≠ id) ∧
    ∀ i call row, s.calls i = some call → call.phase.hasRow = true → call.seen = some row →
      row.id ≠ id

/-- The description that a job of the writer is about to bring to the row, and the number that a
new row would get. -/
def describes (s : State) : Action → Option (MediaDescription × Nat)
  | .arrive description id => some (description, id)
  | .begin i id =>
      (s.calls i).bind fun call =>
        if call.phase = .asked then
          some (MediaDescription.ofMatrixAttachment call.attachment, id)
        else
          none
  | _ => none

/-- The job neither fills in the hash of another file, nor makes a row anew, while a transfer is
about to have the row changed; nor does a row that is made anew get the number of one that a call or
a transfer in progress was started for. -/
def KeepsRow (s : State) (action : Action) : Prop :=
  ∀ description id, s.describes action = some (description, id) → s.isWriterFree = true →
    (∀ row, s.row = some row → row.entry.hash = none → matrixHash description.hash ≠ none →
      s.NobodyFinishes) ∧
    (s.row = none → description.isValid = true → s.NobodyFinishes ∧ s.NobodyNames id)

end State

/-- The row is the one that a transfer was started for. -/
def Row.IsOf (row : Row) (attachment : MatrixAttachment) (made : Nat) : Prop :=
  row.made = made ∧
    isSameMatrixFile row.entry (MediaDescription.ofMatrixAttachment attachment) = true

namespace State

/-- What holds of the rows along a run that keeps them. -/
structure OwnRows (s : State) : Prop where
  records : ∀ record ∈ s.records, record.row.IsOf record.attachment record.made
  finishing : ∀ n t row, s.transfers n = some t → t.phase.isFinishing = true →
    s.row = some row → row.IsOf t.attachment t.made
  working : ∀ n t row, s.transfers n = some t → t.phase.isWorking = true →
    s.row = some row → row.id = t.pendingId → row.made = t.made
  calls : ∀ i call seen row, s.calls i = some call → call.phase.hasRow = true →
    call.seen = some seen → s.row = some row → row.id = seen.id → row.made = seen.made

variable {s s' : State}

/-- A row is made, or gets a hash, or gets or loses its copy. -/
theorem OwnRows.setRow (h : s.OwnRows) (htransfers : s'.transfers = s.transfers)
    (hcalls : s'.calls = s.calls)
    (hrecords : ∀ record ∈ s'.records, record ∈ s.records ∨ record.row.IsOf record.attachment
      record.made)
    (hrow : ∀ row', s'.row = some row' → (s.NobodyFinishes ∧ s.NobodyNames row'.id) ∨ ∃ row, s.row =
      some row ∧ row'.id = row.id ∧ row'.made = row.made ∧ (s.NobodyFinishes ∨ ∀ description,
      isSameMatrixFile row'.entry description = isSameMatrixFile row.entry description)) :
    s'.OwnRows where
  records := fun record hmem => (hrecords record hmem).elim (h.records record) id
  finishing := by
    rw [htransfers]
    intro n t row' hn hfinishing hrow'
    rcases hrow row' hrow' with ⟨hnobody, -⟩ | ⟨row, hold, hid, hmade, hnobody | hsame⟩
    · rw [hnobody n t hn] at hfinishing
      cases hfinishing
    · rw [hnobody n t hn] at hfinishing
      cases hfinishing
    · obtain ⟨hown, hfile⟩ := h.finishing n t row hn hfinishing hold
      exact ⟨hmade.trans hown, (hsame _).trans hfile⟩
  working := by
    rw [htransfers]
    intro n t row' hn hworking hrow' hid'
    rcases hrow row' hrow' with ⟨-, hnames⟩ | ⟨row, hold, hid, hmade, -⟩
    · exact absurd hid'.symm (hnames.1 n t hn hworking)
    · exact hmade.trans (h.working n t row hn hworking hold (hid.symm.trans hid'))
  calls := by
    rw [hcalls]
    intro i call seen row' hcall hphase hseen hrow' hid'
    rcases hrow row' hrow' with ⟨-, hnames⟩ | ⟨row, hold, hid, hmade, -⟩
    · exact absurd hid'.symm (hnames.2 i call seen hcall hphase hseen)
    · exact hmade.trans (h.calls i call seen row hcall hphase hseen hold (hid.symm.trans hid'))

theorem OwnRows.of_eq (h : s.OwnRows) (hrow : s'.row = s.row)
    (htransfers : s'.transfers = s.transfers) (hcalls : s'.calls = s.calls)
    (hrecords : s'.records = s.records) :
    s'.OwnRows :=
  h.setRow htransfers hcalls (fun _ hmem => .inl (hrecords ▸ hmem)) fun row' hrow' =>
    .inr ⟨row', hrow ▸ hrow', rfl, rfl, .inr fun _ => rfl⟩

theorem OwnRows.of_none (h : s.OwnRows) (hrow : s'.row = none)
    (htransfers : s'.transfers = s.transfers) (hcalls : s'.calls = s.calls)
    (hrecords : s'.records = s.records) :
    s'.OwnRows :=
  h.setRow htransfers hcalls (fun _ hmem => .inl (hrecords ▸ hmem)) fun row' hrow' => by
    rw [hrow] at hrow'
    cases hrow'

/-- The copy of a row is given up, and what the row describes stays. -/
theorem OwnRows.resetRow (h : s.OwnRows) (hrow : s'.row = s.row.map Row.reset)
    (htransfers : s'.transfers = s.transfers) (hcalls : s'.calls = s.calls)
    (hrecords : s'.records = s.records) : s'.OwnRows := by
  refine h.setRow htransfers hcalls (fun _ hmem => .inl (hrecords ▸ hmem)) fun row' hrow' => ?_
  rw [hrow] at hrow'
  obtain ⟨row, hold, rfl⟩ := Option.map_eq_some_iff.mp hrow'
  exact .inr ⟨row, hold, rfl, rfl, .inr fun _ => rfl⟩

/-- A call that has no row, or one that it took just now or before. -/
theorem OwnRows.setCall {i : Nat} {call : Call} (h : s.OwnRows) (hrow : s'.row = s.row)
    (htransfers : s'.transfers = s.transfers)
    (hcalls : s'.calls = update s.calls i (some call)) (hrecords : s'.records = s.records)
    (hcall : call.phase.hasRow = true → ∀ seen, call.seen = some seen → s.row = some seen ∨ ∃ old,
      s.calls i = some old ∧ old.phase.hasRow = true ∧ old.seen = some seen) :
    s'.OwnRows where
  records := by
    rw [hrecords]
    exact h.records
  finishing := by
    rw [htransfers, hrow]
    exact h.finishing
  working := by
    rw [htransfers, hrow]
    exact h.working
  calls := by
    rw [hcalls, hrow]
    intro j other seen row hother hphase hseen hrow hid
    by_cases hji : j = i
    · subst hji
      rw [update_self, Option.some.injEq] at hother
      subst hother
      rcases hcall hphase seen hseen with hnow | ⟨old, hold, hphase, hseen⟩
      · rw [hnow] at hrow
        rw [Option.some.inj hrow]
      · exact h.calls j old seen row hold hphase hseen hrow hid
    · rw [update_of_ne hji] at hother
      exact h.calls j other seen row hother hphase hseen hrow hid

variable {n : Nat}

/-- A transfer changes in a way that leaves its part of the claim as it is, or is started. -/
theorem OwnRows.setTransfer {t' : Transfer} (h : s.OwnRows) (hrow : s'.row = s.row)
    (htransfers : s'.transfers = update s.transfers n (some t'))
    (hcalls : s'.calls = s.calls) (hrecords : s'.records = s.records)
    (hfinishing : t'.phase.isFinishing = true → ∀ row, s.row = some row → row.IsOf t'.attachment
      t'.made)
    (hworking : t'.phase.isWorking = true → ∀ row, s.row = some row → row.id = t'.pendingId →
      row.made = t'.made) :
    s'.OwnRows where
  records := by
    rw [hrecords]
    exact h.records
  finishing := by
    rw [htransfers, hrow]
    intro m other row hm hphase hrow
    by_cases hmn : m = n
    · subst hmn
      rw [update_self, Option.some.injEq] at hm
      subst hm
      exact hfinishing hphase row hrow
    · rw [update_of_ne hmn] at hm
      exact h.finishing m other row hm hphase hrow
  working := by
    rw [htransfers, hrow]
    intro m other row hm hphase hrow hid
    by_cases hmn : m = n
    · subst hmn
      rw [update_self, Option.some.injEq] at hm
      subst hm
      exact hworking hphase row hrow hid
    · rw [update_of_ne hmn] at hm
      exact h.working m other row hm hphase hrow hid
  calls := by
    rw [hcalls, hrow]
    exact h.calls

theorem isRegistered_of_isFinishing {phase : Phase} (h : phase.isFinishing = true) :
    phase.isRegistered = true := by cases phase <;> first | rfl | cases h

theorem isSameMatrixFile_congr {entry entry' : MediaRow} (hkind : entry'.kind = entry.kind)
    (hhash : matrixHash entry'.hash = matrixHash entry.hash)
    (hsize : entry'.fileSize = entry.fileSize) (description : MediaDescription) :
    isSameMatrixFile entry' description = isSameMatrixFile entry description := by
  rw [Bool.eq_iff_iff, isSameMatrixFile, isSameMatrixFile, isSameMatrixDescription_iff,
    isSameMatrixDescription_iff]
  simp only [recordedDescription, hkind, hhash, hsize]

variable {packages : Packages}

/-- A transfer takes a turn. Only the one that is registered can have the row changed. -/
theorem OwnRows.turn {n : Nat} {t : Transfer} {action : TaskAction} {turn : Turn} (h : s.OwnRows)
    (hregistry : s.Registry) (hn : s.transfers n = some t) (hkeeps : turn.Keeps t)
    (hturn : t.HasTurn packages s.row s.pool action turn) :
    (((s.setTransfer n turn.transfer).give turn.replies).apply turn.transfer
      turn.effect).OwnRows := by
  obtain ⟨hworking, hfinishing⟩ := Transfer.turn_phase hturn
  have hnext : ((s.setTransfer n turn.transfer).give turn.replies).OwnRows := by
    refine h.setTransfer rfl rfl rfl rfl ?_ ?_
    · intro hphase row hrow
      rw [hkeeps.attachment, hkeeps.made]
      rcases hfinishing hphase with hlooked | ⟨hfetched, hown⟩
      · exact h.finishing n t row hn (by rw [hlooked]; rfl) hrow
      · rw [Transfer.isStillOurRow, hrow, Option.any_some, decide_eq_true_eq] at hown
        exact ⟨h.working n t row hn (by rw [hfetched]; rfl) hrow hown.1, hown.2⟩
    · intro hphase row hrow hid
      rw [hkeeps.made]
      rw [hkeeps.pendingId] at hid
      exact h.working n t row hn (hworking hphase) hrow hid
  rcases Transfer.turn_effect hturn with (heffect | heffect) | ⟨-, heffect⟩ |
    ⟨name, hphase, heffect⟩ | heffect
  · rw [heffect]
    exact hnext
  · rw [heffect]
    exact hnext.of_eq rfl rfl rfl rfl
  · rw [heffect]
    exact hnext.of_eq rfl rfl rfl rfl
  · rw [heffect]
    have hregistered : t.phase.isRegistered = true := by rw [hphase]; rfl
    have hnobody : ((s.setTransfer n turn.transfer).give turn.replies).NobodyFinishes := by
      intro m other hm
      by_cases hmn : m = n
      · subst hmn
        have heq : other = turn.transfer :=
          (Option.some.inj ((setTransfer_self s m turn.transfer).symm.trans hm)).symm
        rw [heq, ← Bool.not_eq_true]
        intro hlast
        rcases hfinishing hlast with hlooked | ⟨hfetched, -⟩
        · rw [hphase] at hlooked
          cases hlooked
        · rw [hphase] at hfetched
          cases hfetched
      · have hm : s.transfers m = some other :=
          (setTransfer_ne s turn.transfer hmn).symm.trans hm
        rw [← Bool.not_eq_true]
        intro hlast
        have hother := (hregistry.phase m other hm).mp (isRegistered_of_isFinishing hlast)
        rw [(hregistry.phase n t hn).mp hregistered] at hother
        exact hmn (Option.some.inj hother).symm
    refine hnext.setRow rfl rfl ?_ ?_
    · intro record hmem
      rcases List.mem_append.mp hmem with hold | hnew
      · exact .inl hold
      · obtain ⟨row, hrow, rfl⟩ := List.mem_map.mp hnew
        refine .inr ?_
        show row.IsOf turn.transfer.attachment turn.transfer.made
        rw [hkeeps.attachment, hkeeps.made]
        exact h.finishing n t row hn (by rw [hphase]; rfl) (Option.mem_toList.mp hrow)
    · intro row' hrow'
      obtain ⟨row, hrow, rfl⟩ := Option.map_eq_some_iff.mp hrow'
      exact .inr ⟨row, hrow, rfl, rfl, .inl hnobody⟩
  · rw [heffect]
    exact hnext.of_eq rfl rfl rfl rfl

/-- A job of the writer brings a description to the row. -/
theorem OwnRows.mediaRowId {mxc : String} {description : MediaDescription} {id : Nat}
    (h : s.OwnRows)
    (hfill : ∀ row, s.row = some row → row.entry.hash = none → matrixHash description.hash ≠ none →
      s.NobodyFinishes)
    (hnew : s.row = none → description.isValid = true → s.NobodyFinishes ∧ s.NobodyNames id) :
    (s.mediaRowId mxc description id).OwnRows := by
  unfold State.mediaRowId
  cases hrow : s.row with
  | some row =>
    refine h.setRow rfl rfl (fun _ hmem => .inl hmem) fun row' hrow' => ?_
    injection hrow' with hrow'
    subst hrow'
    refine .inr ⟨row, hrow, rfl, rfl, ?_⟩
    cases hhash : row.entry.hash with
    | some hash => exact .inr (isSameMatrixFile_congr rfl (by simp [Row.fillHash, hhash]) rfl)
    | none =>
      cases hdescription : matrixHash description.hash with
      | some hash => exact .inl (hfill row hrow hhash (by rw [hdescription]; nofun))
      | none =>
        refine .inr (isSameMatrixFile_congr rfl ?_ rfl)
        simp only [Row.fillHash, hhash, Option.none_or]
        exact hdescription
  | none =>
    simp only
    split
    · rename_i hvalid
      refine h.setRow rfl rfl (fun _ hmem => .inl hmem) fun row' hrow' => ?_
      injection hrow' with hrow'
      subst hrow'
      exact .inl (hnew hrow hvalid)
    · exact h

theorem OwnRows.settleCall {i : Nat} {call : Call} {phase : CallPhase} (h : s.OwnRows)
    (hphase : phase.isSettled = true) : (s.settleCall i call phase).OwnRows := by
  refine h.setCall rfl rfl rfl rfl fun hrow => ?_
  cases phase <;> simp [CallPhase.isSettled, CallPhase.hasRow] at hphase hrow

theorem OwnRows.registerCall {i fresh : Nat} {call : Call} {row : Row} (h : s.OwnRows)
    (hcall : s.calls i = some call) (hphase : call.phase.hasRow = true)
    (hseen : call.seen = some row) : (s.registerCall i call row fresh).OwnRows := by
  unfold State.registerCall
  cases s.registered with
  | some n =>
    simp only
    cases hn : s.transfers n with
    | none => exact h
    | some t =>
      simp only
      split
      · have hsent : (s.setTransfer n { t with
            inbox := t.inbox ++ if call.waits then [.wait i] else [] }).OwnRows :=
          h.setTransfer rfl rfl rfl rfl
            (fun hfinishing row hrow => h.finishing n t row hn hfinishing hrow)
            fun hworking row hrow hid => h.working n t row hn hworking hrow hid
        exact hsent.setCall rfl rfl rfl rfl nofun
      · exact h.settleCall rfl
  | none =>
    simp only
    split
    · have hspawn : (s.setTransfer fresh
          { attachment := call.attachment, pendingId := row.id, made := row.made,
            inbox := if call.waits then [.wait i] else [], reads := [], waiters := [],
            body := [], plain := [], phase := .starting }).OwnRows :=
        h.setTransfer rfl rfl rfl rfl nofun
          fun _ row' hrow hid => h.calls i call row row' hcall hphase hseen hrow hid
      exact hspawn.setCall rfl rfl rfl rfl nofun
    · exact h

theorem OwnRows.start : State.start.OwnRows := by
  refine ⟨?_, ?_, ?_, ?_⟩
  · intro record hmem
    cases hmem
  · intro n t row hn
    cases hn
  · intro n t row hn
    cases hn
  · intro i call seen row hcall
    cases hcall

theorem OwnRows.step {mxc : String} (hinj : Injective packages.blake3)
    (hsound : s.Sound packages) (h : s.OwnRows) {action : Action} (hkeeps : s.KeepsRow action) :
    (step packages mxc s action).OwnRows := by
  unfold MatrixDownload.step
  cases action with
  | arrive description id =>
    simp only
    split
    · rename_i hfree
      obtain ⟨hfill, hnew⟩ := hkeeps description id rfl hfree
      exact h.mediaRowId hfill hnew
    · exact h
  | ask i attachment waits =>
    simp only [State.askFor]
    split
    · exact h.setCall rfl rfl rfl rfl nofun
    · exact h
  | askAddress i visible waits =>
    simp only
    split
    · simp only [State.askFor]
      split
      · exact h.setCall rfl rfl rfl rfl nofun
      · exact h
    · exact h
  | begin i id =>
    simp only
    cases hcall : s.calls i with
    | none => exact h
    | some call =>
      simp only
      split
      · rename_i hasked
        obtain ⟨hfill, hnew⟩ := hkeeps _ id
          (by simp only [describes, hcall, Option.bind_some, if_pos hasked.2]; rfl) hasked.1
        have hrow : (s.mediaRowId mxc
            (MediaDescription.ofMatrixAttachment call.attachment) id).OwnRows :=
          h.mediaRowId hfill hnew
        split
        · rename_i row hsome
          refine hrow.setCall rfl rfl rfl rfl fun _ seen hseen => .inl ?_
          exact hsome.trans hseen
        · exact hrow.settleCall rfl
      · exact h
  | look i =>
    simp only
    cases hcall : s.calls i with
    | none => exact h
    | some call =>
      simp only
      split
      · rename_i row hphase hseen
        unfold State.lookFor
        split
        · split
          · exact (h.settleCall rfl).of_eq rfl rfl rfl rfl
          · refine h.setCall rfl rfl rfl rfl fun _ seen hseen' => .inr ⟨call, hcall, ?_, hseen'⟩
            rw [hphase]
            rfl
        · exact h.settleCall rfl
      · exact h
  | register i fresh =>
    simp only
    cases hcall : s.calls i with
    | none => exact h
    | some call =>
      simp only
      split
      · rename_i row hphase hseen
        exact h.registerCall hcall (by rw [hphase]; rfl) hseen
      · exact h
  | giveUp i =>
    simp only
    cases hcall : s.calls i with
    | none => exact h
    | some call =>
      simp only
      split
      · exact h.settleCall rfl
      · exact h.settleCall rfl
      · exact h.settleCall rfl
      · exact h
  | readCopy i =>
    simp only
    split
    · split
      · unfold State.readAgain
        split
        · exact h.of_eq rfl rfl rfl rfl
        · exact h
      · exact h
    · exact h
  | read read n position =>
    simp only
    split
    · rename_i t hn hnew
      unfold State.sendRead
      simp only
      split
      · exact h.setTransfer rfl rfl rfl rfl
          (fun hfinishing row hrow => h.finishing n t row hn hfinishing hrow)
          fun hworking row hrow hid => h.working n t row hn hworking hrow hid
      · exact h.of_eq rfl rfl rfl rfl
    · exact h
  | cancel n =>
    simp only
    cases hn : s.transfers n with
    | none => exact h
    | some t =>
      simp only
      split
      · exact h.setTransfer rfl rfl rfl rfl
          (fun hfinishing row hrow => h.finishing n t row hn hfinishing hrow)
          fun hworking row hrow hid => h.working n t row hn hworking hrow hid
      · exact h
  | task n action =>
    simp only
    cases hn : s.transfers n with
    | none => exact h
    | some t =>
      simp only
      split
      · exact h
      · split
        · rename_i turn hturn
          have hturn := Transfer.turn_cases hturn
          exact h.turn hsound.registry hn
            (Transfer.turn_keeps hinj hsound.named (hsound.fits n t hn) hturn) hturn
        · exact h
  | reset =>
    simp only
    split
    · split
      · split
        · exact h.resetRow rfl rfl rfl rfl
        · exact h.of_eq rfl rfl rfl rfl
      · exact h
    · exact h
  | giveUpCopy =>
    simp only
    split
    · exact h.resetRow rfl rfl rfl rfl
    · exact h
  | deleteLook others =>
    simp only
    split
    · exact h.of_eq rfl rfl rfl rfl
    · exact h
  | deleteRun removesFile =>
    simp only
    split
    · split
      · split
        · exact h.of_eq rfl rfl rfl rfl
        · exact h.of_none rfl rfl rfl rfl
      · exact h.of_eq rfl rfl rfl rfl
    · exact h
  | keepFile plain | removeFile name => exact h.of_eq rfl rfl rfl rfl
  | restart =>
    refine ⟨h.records, ?_, ?_, ?_⟩
    · intro n t row hn
      cases hn
    · intro n t row hn
      cases hn
    · intro i call seen row hcall
      cases hcall

/-- A waiter is answered, or its channel is closed, or it is still with its call or its transfer;
and it is not with a transfer that is gone. -/
structure WaitsOnce (s : State) (i : Nat) (call : Call) : Prop where
  once : (s.answers (.wait i)).length ≤ 1
  settled : call.phase.isSettled = true → s.answers (.wait i) = [.closed]
  attached : ∀ n, call.phase = .attached n → ∃ t, s.transfers n = some t ∧
    (.wait i ∈ t.channels ∨ (s.answers (.wait i)).length = 1) ∧
    (t.phase.isGone = true → (s.answers (.wait i)).length = 1)

/-- Everyone is answered, by the one transfer that can be found. -/
structure AnswersAll (packages : Packages) (s : State) : Prop where
  one : ∀ m n t u, s.transfers m = some t → s.transfers n = some u →
    t.phase.isRegistered = true → u.phase.isRegistered = true → m = n
  reads : ∀ read, (s.answers (.read read)).length ≤ 1
  bytes : ∀ read start plain, Answer.piece start plain ∈ s.answers (.read read) →
    ∃ n t, s.reads read = some ⟨n, start⟩ ∧ s.transfers n = some t ∧ plain ≠ [] ∧
      plain <+: t.plain.drop start ∧
      ∀ name, t.phase.poolFile = some name → packages.blake3 t.plain = name
  waits : ∀ i call, s.calls i = some call → call.waits = true → s.WaitsOnce i call

/-- Every result is on the row that its transfer was started for. -/
def FinishesOwn (s : State) : Prop :=
  ∀ record ∈ s.records, record.row.IsOf record.attachment record.made

theorem Sound.one (h : s.Sound packages) {m : Nat} {t u : Transfer} (hm : s.transfers m = some t)
    (hn : s.transfers n = some u) (ht : t.phase.isRegistered = true)
    (hu : u.phase.isRegistered = true) : m = n := by
  have hfirst := (h.registry.phase m t hm).mp ht
  rw [(h.registry.phase n u hn).mp hu] at hfirst
  exact (Option.some.inj hfirst).symm

/-- A channel that was handed over is with its transfer or has one answer. -/
theorem Sound.handed (h : s.Sound packages) {channel : Channel}
    (hsent : s.sentTo channel = some n) :
    ∃ t, s.transfers n = some t ∧
      (channel ∈ t.channels ∨ (s.answers channel).length = 1) ∧
      (t.phase.isGone = true → (s.answers channel).length = 1) := by
  obtain ⟨t, hn⟩ := Option.isSome_iff_exists.mp (h.replies.target channel n hsent)
  have honce := h.replies.once channel
  have hanswered : channel ∉ t.channels → (s.answers channel).length = 1 := by
    intro hnot
    have hne : s.answers channel ≠ [] := fun hnil =>
      hnot ((h.replies.pending n t hn channel).mpr ⟨hsent, hnil⟩)
    have hpositive := List.length_pos_of_ne_nil hne
    omega
  refine ⟨t, hn, ?_, ?_⟩
  · by_cases hmem : channel ∈ t.channels
    · exact .inl hmem
    · exact .inr (hanswered hmem)
  · intro hgone
    have hfits := h.fits n t hn
    have hdrained : t.phase.isDrained = true := by
      cases hphase : t.phase <;> rw [hphase] at hgone <;> first | rfl | cases hgone
    apply hanswered
    simp [Transfer.channels, hfits.drained hdrained, hfits.gone hgone]

theorem Sound.answersAll (h : s.Sound packages) : s.AnswersAll packages where
  one _ _ _ _ hm hn ht hu := h.one hm hn ht hu
  reads _ := h.replies.once _
  bytes := by
    intro read start plain hmem
    obtain ⟨other, n, t, hchannel, hread, hn, hne, hprefix⟩ := h.replies.pieces _ _ _ hmem
    injection hchannel with hchannel
    subst hchannel
    exact ⟨n, t, hread, hn, hne, hprefix, (h.fits n t hn).named⟩
  waits := by
    intro i call hcall hwaits
    refine ⟨h.replies.once _, fun hphase => ?_, fun n hphase => ?_⟩
    · rw [h.replies.settled i call hcall hphase, if_pos hwaits]
    · exact h.handed (by simp [sentTo, hcall, hphase, hwaits])

end State

section Runs

variable (packages : Packages) (mxc : String)

theorem sound_run (hinj : Injective packages.blake3) (actions : List Action) :
    (Runs.run (step packages mxc) State.start actions).Sound packages :=
  Runs.run_invariant (State.Sound packages) (fun _ action h => h.step hinj action) actions
    State.start .start

/-- However the calls and the transfers of an address interleave, a caller waits in one transfer,
once, and no two transfers are in the registry. -/
theorem waits_in_one_transfer (hinj : Function.Injective packages.blake3) (actions : List Action) :
    let s := Runs.run (step packages mxc) State.start actions
    (∀ n t, s.transfers n = some t → t.channels.Nodup) ∧
      ∀ n m t u, s.transfers n = some t → s.transfers m = some u →
        (t.phase.isRegistered = true ∧ u.phase.isRegistered = true ∨
          ∃ channel, channel ∈ t.channels ∧ channel ∈ u.channels) → n = m := by
  have hsound := sound_run packages mxc hinj actions
  refine ⟨hsound.replies.nodup, fun n m t u ht hu hboth => ?_⟩
  rcases hboth with ⟨htn, hum⟩ | ⟨channel, hin, hin'⟩
  · have hn := (hsound.registry.phase n t ht).mp htn
    exact Option.some.inj (hn.symm.trans ((hsound.registry.phase m u hu).mp hum))
  · have hn := ((hsound.replies.pending n t ht channel).mp hin).1
    exact Option.some.inj (hn.symm.trans ((hsound.replies.pending m u hu channel).mp hin').1)

theorem ownRows_run (hinj : Injective packages.blake3) (actions : List Action)
    (hkeeps : Runs.Along (step packages mxc) State.KeepsRow State.start actions) :
    (Runs.run (step packages mxc) State.start actions).OwnRows := by
  have hboth : (Runs.run (step packages mxc) State.start actions).Sound packages ∧
      (Runs.run (step packages mxc) State.start actions).OwnRows :=
    Runs.run_invariant_along (fun s => s.Sound packages ∧ s.OwnRows)
      (fun s action hkeeps h => ⟨h.1.step hinj action, h.2.step hinj h.1 hkeeps⟩)
      actions State.start hkeeps ⟨.start, .start⟩
  exact hboth.2

/-- Whatever the order of calls, commands, turns, jobs and pieces is, everyone is answered by the
one transfer that can be found; and a result goes on the row of its transfer as long as the writer
leaves the row alone in the moment before. -/
theorem transfers_answer_all (hinj : Function.Injective packages.blake3) (actions : List Action) :
    (Runs.run (step packages mxc) State.start actions).AnswersAll packages ∧
      (Runs.Along (step packages mxc) State.KeepsRow State.start actions →
        (Runs.run (step packages mxc) State.start actions).FinishesOwn) :=
  ⟨(sound_run packages mxc hinj actions).answersAll,
    fun hkeeps => (ownRows_run packages mxc hinj actions hkeeps).records⟩

end Runs

def textOfBytes (bytes : List UInt8) : String :=
  String.ofList (bytes.map fun byte => Char.ofNat byte.toNat)

theorem textOfBytes_injective : Injective textOfBytes := by
  have hchar : Injective fun byte : UInt8 => Char.ofNat byte.toNat := by
    intro a b heq
    have hvalid : ∀ byte : UInt8, (Char.ofNat byte.toNat).toNat = byte.toNat := by
      intro byte
      have hlt := byte.toNat_lt
      have hscalar : byte.toNat.isValidChar := .inl (by omega)
      rw [Char.ofNat, dif_pos hscalar]
      rfl
    have hnat := congrArg Char.toNat heq
    simp only [hvalid] at hnat
    exact UInt8.toNat_inj.mp hnat
  intro first second heq
  have hlist := congrArg String.toList heq
  simp only [textOfBytes, String.toList_ofList] at hlist
  exact List.map_injective_iff.mpr hchar hlist

/-- Hashes that are the bytes themselves, and a key stream that repeats the length of the key. -/
def plainPackages : Packages where
  blake3 := textOfBytes
  accepts := fun _ => true
  keystream := fun key _ => UInt8.ofNat (key.key.getD "").length
  hasSha256 := fun hash bytes => hash = some (textOfBytes bytes)

/-- An attachment without a key and without a size. -/
def plainImage : MatrixAttachment where
  msgtype := "m.image"
  mxc := "mxc://a/b"
  kind := .matrixPlain
  name := none
  mimetype := none
  size := none
  file := none

/-- What an encrypted attachment says of the same address. -/
def encryptedDescription : MediaDescription where
  kind := .matrixEncrypted
  name := none
  mimetype := none
  hash := some "matrix-sha256:x"
  fileSize := none
  chunkSize := none

/-- A call with a waiter gets a transfer, which takes one piece of the body and looks at the row
again. -/
def untilLooked : List Action :=
  [.ask 0 plainImage true, .begin 0 1, .look 0, .register 0 0, .task 0 .start,
    .task 0 (.command none), .task 0 (.piece [7, 8, 9] none), .read 0 0 1, .task 0 .endFetch,
    .task 0 .lookAgain, .task 0 .adopt]

/-- The row is changed, and the transfer ends. -/
def untilGone : List Action :=
  [.task 0 .record, .task 0 .unregister, .read 1 0 0, .task 0 .close, .read 2 0 0, .task 0 .drain,
    .task 0 .answerRest]

theorem keepsRow_of_describes {s : State} {action : Action} (h : s.describes action = none) :
    s.KeepsRow action := by
  intro description id hdescribes
  rw [h] at hdescribes
  cases hdescribes

/-- The row is made while nothing else is there. -/
theorem keepsRow_first (mxc : String) (attachment : MatrixAttachment) (waits : Bool) (id : Nat) :
    State.KeepsRow (State.start.askFor mxc 0 attachment waits) (.begin 0 id) := by
  have hrow : (State.start.askFor mxc 0 attachment waits).row = none := by
    unfold State.askFor
    split <;> rfl
  have htransfers : ∀ n, (State.start.askFor mxc 0 attachment waits).transfers n = none := by
    intro n
    unfold State.askFor
    split <;> rfl
  have hcalls : ∀ i call, (State.start.askFor mxc 0 attachment waits).calls i = some call →
      call.phase = .asked := by
    intro i call hcall
    unfold State.askFor at hcall
    split at hcall
    · by_cases hi : i = 0
      · subst hi
        simp only [State.setCall, update_self, Option.some.injEq] at hcall
        exact hcall ▸ rfl
      · simp only [State.setCall, update_of_ne hi] at hcall
        cases hcall
    · cases hcall
  intro description new hdescribes hfree
  refine ⟨fun row hsome => ?_, fun _ _ => ⟨fun n t hn => ?_, fun n t hn => ?_, ?_⟩⟩
  · rw [hrow] at hsome
    cases hsome
  · rw [htransfers] at hn
    cases hn
  · rw [htransfers] at hn
    cases hn
  · intro i call row hcall hphase
    rw [hcalls i call hcall] at hphase
    cases hphase

/-- A row that is there with a hash stays as it is. -/
theorem keepsRow_of_hash {s : State} {action : Action}
    (h : (s.row.any fun row => row.entry.hash.isSome) = true) : s.KeepsRow action := by
  intro description id hdescribes hfree
  cases hrow : s.row with
  | none =>
    rw [hrow] at h
    cases h
  | some row =>
    rw [hrow, Option.any_some] at h
    refine ⟨fun other hother hnone => ?_, nofun⟩
    rw [← Option.some.inj hother] at hnone
    rw [hnone] at h
    cases h

theorem keepsRow_untilGone :
    Runs.Along (step plainPackages "mxc://a/b") State.KeepsRow State.start
      (untilLooked ++ untilGone) := by
  refine ⟨keepsRow_of_describes rfl,
    keepsRow_first "mxc://a/b" plainImage true 1, ?_⟩
  repeat first | exact trivial | refine ⟨keepsRow_of_describes rfl, ?_⟩

theorem transfers_answer_all_of_one :
    (Runs.run (step plainPackages "mxc://a/b") State.start (untilLooked ++ untilGone)).AnswersAll
        plainPackages ∧
      (Runs.run (step plainPackages "mxc://a/b") State.start
        (untilLooked ++ untilGone)).FinishesOwn := by
  obtain ⟨hanswers, hfinishes⟩ := transfers_answer_all plainPackages "mxc://a/b"
    textOfBytes_injective (untilLooked ++ untilGone)
  exact ⟨hanswers, hfinishes keepsRow_untilGone⟩

theorem waits_in_one_transfer_of_one_call :
    ((Runs.run (step plainPackages "mxc://a/b") State.start untilLooked).transfers 0).all
      (fun t => t.channels.Nodup) = true :=
  (Option.all_eq_true _ _).mpr fun t ht => decide_eq_true
    ((waits_in_one_transfer plainPackages "mxc://a/b" textOfBytes_injective untilLooked).1 0 t ht)

example :
    (Runs.run (step plainPackages "mxc://a/b") State.start (untilLooked ++ untilGone)).answers
      (.read 0) = [.piece 1 [8, 9]] := by decide +kernel

/-- Between the two, an event arrives that says another thing of the file. Its hash is filled in,
and the result is put on a row that describes the other file. -/
theorem finishes_other_row :
    ¬(Runs.run (step plainPackages "mxc://a/b") State.start
        (untilLooked ++ .arrive encryptedDescription 1 :: untilGone)).FinishesOwn := by
  intro h
  have hother : ((Runs.run (step plainPackages "mxc://a/b") State.start
      (untilLooked ++ .arrive encryptedDescription 1 :: untilGone)).records.all fun record =>
        isSameMatrixFile record.row.entry
          (MediaDescription.ofMatrixAttachment record.attachment)) = false := by
    decide +kernel
  rw [List.all_eq_false] at hother
  obtain ⟨record, hmem, hfile⟩ := hother
  exact hfile (h record hmem).2

end MatrixDownload
end WbfMatrixClient
