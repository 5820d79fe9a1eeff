import WbfMatrixClient.Lib.Runs
import WbfMatrixClient.ToDevice

/-!
# No message is destroyed before it is imported

A call is a row of moves: the machine commits a batch, the file is written, the command
is sent, its reply is read, the file is written again. A call that is cut off is the
beginning of such a row. The server adds messages to the queue and destroys what some
command that it was sent lists, whenever it likes.

Everything that holds of all runs is shown of the single moves.
-/

namespace WbfMatrixClient

namespace DeviceWorld

/-- The state that the next call starts from. -/
def saved (world : DeviceWorld) : ToDeviceState :=
  world.file.getD .start

/-- The command for everything that may be destroyed is sent. -/
def send (world : DeviceWorld) (counts : List UInt64) : DeviceWorld :=
  { world with
    commands := world.commands ++
      [{ counts := counts, saved := world.file, imported := world.imported }] }

def confirm (world : DeviceWorld) (destroyed : List UInt64) : DeviceWorld :=
  { world with confirmed := world.confirmed ++ destroyed }

/-- A message for the device has come to the server. -/
def arrive (world : DeviceWorld) (count : UInt64) : DeviceWorld :=
  { world with queue := world.queue ++ [count], arrived := world.arrived ++ [count] }

/-- The server destroys some of what a command lists. -/
def serve (world : DeviceWorld) (command : DestroyCommand) (gone : List UInt64) : DeviceWorld :=
  { world with
    queue := world.queue.filter fun count => ¬ (count ∈ command.counts ∧ count ∈ gone) }

end DeviceWorld

/-- What can happen next. The messages that are imported are as some condition says. -/
inductive Moved (given : UInt64 × Json → Prop) : DeviceWorld → DeviceWorld → Prop
  | commit
      {world : DeviceWorld}
      (items : List (UInt64 × Json))
      (keys : List RoomKeyInfo)
      (hgiven : ∀ item ∈ items, given item) :
      Moved given world (world.commit items keys)
  | process
      {world : DeviceWorld}
      (counts : List UInt64)
      (himported : ∀ count ∈ counts, ∃ event, (count, event) ∈ world.imported) :
      Moved given world
        (world.store (counts.foldl ToDeviceState.markProcessed world.saved)
          (counts.map .processed))
  | send
      {world : DeviceWorld}
      (hfile : world.file ≠ none) :
      Moved given world (world.send world.saved.toDestroy)
  | confirm
      {world : DeviceWorld}
      (destroyed : List UInt64) :
      Moved given world (world.confirm destroyed)
  | destroy
      {world : DeviceWorld}
      (destroyed : List UInt64)
      (hconfirmed : ∀ count ∈ destroyed, count ∈ world.confirmed) :
      Moved given world
        (world.store (world.saved.markDestroyed destroyed) (destroyed.map .destroyed))
  | arrive
      {world : DeviceWorld}
      (count : UInt64) :
      Moved given world (world.arrive count)
  | serve
      {world : DeviceWorld}
      (command : DestroyCommand)
      (gone : List UInt64)
      (hsent : command ∈ world.commands) :
      Moved given world (world.serve command gone)

/-- A row of moves. -/
abbrev Moves (given : UInt64 × Json → Prop) : DeviceWorld → DeviceWorld → Prop :=
  Relation.ReflTransGen (Moved given)

section Calls

variable {given : UInt64 × Json → Prop} {world : DeviceWorld}

/-- The file is written, unless the call ends there. -/
theorem save_cases (world : DeviceWorld) (state : ToDeviceState) (marks : List Mark)
    (saving : Saving) :
    (∃ e, world.save state marks saving = (world, .error e)) ∨
      ∃ result, world.save state marks saving = (world.store state marks, result) := by
  cases saving with
  | done => exact .inr ⟨.ok (), rfl⟩
  | stopped e written =>
    cases written with
    | true => exact .inr ⟨.error e, rfl⟩
    | false => exact .inl ⟨e, rfl⟩

variable (packages : ToDevicePackages)

variable (given) in
/-- The command lists what may be destroyed, and what comes back has been confirmed. -/
theorem deviceItemsDestroy_moves (features : Option (List String)) (course : ImportCourse)
    (hfile : world.file ≠ none) :
    ∃ after result,
      deviceItemsDestroy packages features course world.saved.toDestroy world =
        (after, result) ∧
      Moves given world after ∧ after.saved = world.saved ∧
      ∀ destroyed, result = .ok destroyed → ∀ count ∈ destroyed, count ∈ after.confirmed := by
  rw [deviceItemsDestroy]
  cases requireFeature features deviceFeature with
  | error e => exact ⟨world, .error e, rfl, .refl, rfl, fun _ h => by cases h⟩
  | ok _ =>
    dsimp only
    by_cases hnone : world.saved.toDestroy = []
    · rw [if_pos hnone]
      refine ⟨world, .ok [], rfl, .refl, rfl, fun destroyed h count hcount => ?_⟩
      cases h
      cases hcount
    rw [if_neg hnone]
    have hsend : Moves given world (world.send world.saved.toDestroy) := .single (.send hfile)
    cases destroyedBy packages world.saved.toDestroy course.id course.seq course.reply with
    | error e => exact ⟨_, .error e, rfl, hsend, rfl, fun _ h => by cases h⟩
    | ok destroyed =>
      refine ⟨_, .ok destroyed, rfl, hsend.tail (.confirm destroyed), rfl, ?_⟩
      intro other h count hcount
      cases h
      exact List.mem_append_right _ hcount

theorem importItems_moves (features : Option (List String)) (course : ImportCourse)
    {items : List (UInt64 × Json)} (hgiven : ∀ item ∈ items, given item) :
    Moves given world (importItems packages features course items world).1 := by
  rw [importItems]
  cases course.load with
  | some e => exact .refl
  | none =>
    dsimp only
    have hcommit : ∀ keys, Moves given world (world.commit items keys) := fun keys =>
      .single (.commit items keys hgiven)
    cases course.receiving with
    | stopped e kept =>
      cases kept with
      | none => exact .refl
      | some keys => exact hcommit keys
    | ok keys =>
      dsimp only
      have himported : ∀ count ∈ items.map Prod.fst,
          ∃ event, (count, event) ∈ (world.commit items keys).imported := by
        intro count hcount
        obtain ⟨⟨_, event⟩, hitem, rfl⟩ := List.mem_map.mp hcount
        exact ⟨event, List.mem_append_right _ hitem⟩
      have hprocess := (hcommit keys).tail (.process (items.map Prod.fst) himported)
      rcases save_cases (world.commit items keys)
        ((items.map Prod.fst).foldl ToDeviceState.markProcessed (world.file.getD .start))
        ((items.map Prod.fst).map .processed) course.firstSave with
          ⟨e, hsave⟩ | ⟨result, hsave⟩
      · rw [hsave]
        exact hcommit keys
      rw [hsave]
      cases result with
      | error e => exact hprocess
      | ok _ =>
        dsimp only
        have hfile : ((world.commit items keys).store
            ((items.map Prod.fst).foldl ToDeviceState.markProcessed
              (world.file.getD .start)) ((items.map Prod.fst).map .processed)).file ≠ none :=
          Option.some_ne_none _
        obtain ⟨after, result, hdestroy, hmoves, hsaved, hconfirmed⟩ :=
          deviceItemsDestroy_moves given packages features course hfile
        have hsent := hprocess.trans hmoves
        rw [show ((world.commit items keys).store
          ((items.map Prod.fst).foldl ToDeviceState.markProcessed
            (world.file.getD .start)) ((items.map Prod.fst).map .processed)).saved =
          (items.map Prod.fst).foldl ToDeviceState.markProcessed
            (world.file.getD .start) from rfl] at hdestroy hsaved
        rw [hdestroy]
        cases result with
        | error e => exact hsent
        | ok destroyed =>
          dsimp only
          have hclear := hsent.tail (.destroy destroyed (hconfirmed destroyed rfl))
          rw [hsaved] at hclear
          rcases save_cases after
            (((items.map Prod.fst).foldl ToDeviceState.markProcessed
              (world.file.getD .start)).markDestroyed destroyed)
            (destroyed.map .destroyed) course.secondSave with
              ⟨e, hsave⟩ | ⟨result, hsave⟩
          · rw [hsave]
            exact hsent
          · rw [hsave]
            cases result <;> exact hclear

theorem pullWindows_moves (features : Option (List String)) (course : Nat → WindowCourse)
    (hgiven : ∀ index window, (course index).window packages features = .ok window → ∀ item ∈
      window.items, given item) (left index : Nat) (reports : List ImportReport) :
    Moves given world (pullWindows packages features course left index reports world).1 := by
  induction left generalizing index reports world with
  | zero => exact .refl
  | succ left ih =>
    rw [pullWindows]
    cases hwindow : (course index).window packages features with
    | error e => exact .refl
    | ok window =>
      dsimp only
      have himport : Moves given world (importItems packages features
          (course index).importing window.items world).1 :=
        importItems_moves packages features (course index).importing
          (hgiven index window hwindow)
      cases hone : importItems packages features (course index).importing window.items world
        with
      | mk after result =>
        rw [hone] at himport
        cases result with
        | error e => exact himport
        | ok report =>
          dsimp only
          split
          next => exact himport.trans (ih (index + 1) (reports ++ [report]))
          next => exact himport

end Calls

inductive DeviceAction where
  | arrive (count : UInt64)
  | serve (command : Nat) (gone : List UInt64)
  | importItems (features : Option (List String)) (course : ImportCourse)
      (items : List (UInt64 × Json))
  | pull (features : Option (List String)) (course : Nat → WindowCourse)

section Runs

variable (packages : ToDevicePackages)

def deviceStep (world : DeviceWorld) : DeviceAction → DeviceWorld
  | .arrive count => world.arrive count
  | .serve command gone =>
      match world.commands[command]? with
      | none => world
      | some command => world.serve command gone
  | .importItems features course items => (importItems packages features course items world).1
  | .pull features course => (pullToDevice packages features course world).1

/-- The messages that come over the line are those the server has under their counts. -/
def DeviceAction.Honest (letter : UInt64 → Json) : DeviceAction → Prop
  | .importItems _ _ items => ∀ item ∈ items, item.2 = letter item.1
  | .pull features course => ∀ index window, (course index).window packages features = .ok window →
      ∀ item ∈ window.items, item.2 = letter item.1
  | _ => True

variable {packages} {letter : UInt64 → Json}

theorem deviceStep_moves {action : DeviceAction} (hhonest : action.Honest packages letter)
    (world : DeviceWorld) :
    Moves (fun item => item.2 = letter item.1) world (deviceStep packages world action) := by
  cases action with
  | arrive count => exact .single (.arrive count)
  | serve command gone =>
    rw [deviceStep]
    cases hcommand : world.commands[command]? with
    | none => exact .refl
    | some command => exact .single (.serve command gone (List.mem_of_getElem? hcommand))
  | importItems features course items => exact importItems_moves packages features course hhonest
  | pull features course =>
    exact pullWindows_moves packages features course hhonest pullWindowsLimit 0 []

theorem run_moves (actions : List DeviceAction)
    (hhonest : ∀ action ∈ actions, action.Honest packages letter) (world : DeviceWorld) :
    Moves (fun item => item.2 = letter item.1) world
      (Runs.run (deviceStep packages) world actions) := by
  induction actions generalizing world with
  | nil => exact .refl
  | cons action actions ih =>
    exact (deviceStep_moves (hhonest action List.mem_cons_self) world).trans
      (ih (fun other hother => hhonest other (List.mem_cons_of_mem _ hother)) _)

end Runs

/-- It was saved that the count was processed, and since then not that it was
destroyed. -/
def LastProcessed (marks : List Mark) (count : UInt64) : Prop :=
  ∃ before after, marks = before ++ .processed count :: after ∧ .destroyed count ∉ after

variable {marks : List Mark} {count : UInt64}

theorem LastProcessed.mem (h : LastProcessed marks count) : .processed count ∈ marks := by
  obtain ⟨before, after, rfl, _⟩ := h
  exact List.mem_append_right before List.mem_cons_self

theorem lastProcessed_of_mem (h : .processed count ∈ marks) (hnot : .destroyed count ∉ marks) :
    LastProcessed marks count := by
  obtain ⟨before, after, rfl⟩ := List.append_of_mem h
  exact ⟨before, after, rfl, fun hafter =>
    hnot (List.mem_append_right before (List.mem_cons_of_mem _ hafter))⟩

/-- What is saved last decides. -/
theorem lastProcessed_snoc {mark : Mark} :
    LastProcessed (marks ++ [mark]) count ↔
      mark = .processed count ∨ LastProcessed marks count ∧ mark ≠ .destroyed count := by
  constructor
  · rintro ⟨before, after, heq, hnot⟩
    cases hafter : after.getLast? with
    | none =>
      have hnil := List.getLast?_eq_none_iff.mp hafter
      rw [hnil] at heq
      exact .inl (List.cons.inj (List.append_inj' heq rfl).2).1
    | some last =>
      obtain ⟨kept, rfl⟩ := List.getLast?_eq_some_iff.mp hafter
      rw [← List.cons_append, ← List.append_assoc] at heq
      obtain ⟨hmarks, hlast⟩ := List.append_inj' heq rfl
      cases hlast
      refine .inr ⟨⟨before, kept, hmarks, fun h => hnot (List.mem_append_left _ h)⟩, ?_⟩
      rintro rfl
      exact hnot (List.mem_append_right _ (List.mem_singleton.mpr rfl))
  · rintro (rfl | ⟨⟨before, after, rfl, hnot⟩, hmark⟩)
    · exact ⟨marks, [], rfl, List.not_mem_nil⟩
    · refine ⟨before, after ++ [mark], ?_, ?_⟩
      · rw [List.append_assoc]
        rfl
      · intro h
        rcases List.mem_append.mp h with h | h
        · exact hnot h
        · exact hmark (List.mem_singleton.mp h).symm

/-- The saved state is what the marks say. -/
structure Recorded (state : ToDeviceState) (marks : List Mark) : Prop where
  list_iff : ∀ count, count ∈ state.toDestroy ↔ LastProcessed marks count
  greatest : ∀ count, .processed count ∈ marks →
    ∃ current, state.cdSeq = some current ∧ count ≤ current
  processed : ∀ current, state.cdSeq = some current → .processed current ∈ marks

theorem recorded_start : Recorded .start [] where
  list_iff _ := by
    constructor
    · intro h
      cases h
    · intro h
      cases h.mem
  greatest _ h := by cases h
  processed _ h := by cases h

theorem Recorded.markProcessed {state : ToDeviceState} {marks : List Mark}
    (h : Recorded state marks) (count : UInt64) :
    Recorded (state.markProcessed count) (marks ++ [.processed count]) := by
  constructor
  · intro other
    have hlist : other ∈ (state.markProcessed count).toDestroy ↔
        count = other ∨ other ∈ state.toDestroy := by
      rw [ToDeviceState.markProcessed]
      dsimp only
      split
      next hmem =>
        refine ⟨.inr, ?_⟩
        rintro (rfl | hother)
        · exact hmem
        · exact hother
      next => rw [List.mem_append, List.mem_singleton, or_comm, eq_comm]
    rw [hlist, lastProcessed_snoc, h.list_iff, Mark.processed.injEq]
    have hne : Mark.processed count ≠ .destroyed other := Mark.noConfusion
    rw [and_iff_left hne]
  · intro other hother
    refine ⟨_, rfl, ?_⟩
    rcases List.mem_append.mp hother with hother | hother
    · obtain ⟨current, hcurrent, hle⟩ := h.greatest other hother
      rw [hcurrent]
      exact UInt64.le_trans hle (ToDeviceState.current_le_later current count)
    · cases List.mem_singleton.mp hother
      exact ToDeviceState.le_later state.cdSeq count
  · intro current hcurrent
    cases hcurrent
    rcases ToDeviceState.later_cases state.cdSeq count with hcount | hbefore
    · rw [hcount]
      exact List.mem_append_right _ (List.mem_singleton.mpr rfl)
    · exact List.mem_append_left _ (h.processed _ hbefore)

theorem Recorded.process {state : ToDeviceState} (h : Recorded state marks) (counts : List UInt64) :
    Recorded (counts.foldl ToDeviceState.markProcessed state)
      (marks ++ counts.map .processed) := by
  induction counts generalizing state marks with
  | nil =>
    rw [List.map_nil, List.append_nil]
    exact h
  | cons count counts ih =>
    rw [List.foldl_cons, List.map_cons, List.append_cons]
    exact ih (h.markProcessed count)

theorem Recorded.destroy {state : ToDeviceState} (h : Recorded state marks)
    (destroyed : List UInt64) :
    Recorded (state.markDestroyed destroyed) (marks ++ destroyed.map .destroyed) := by
  have hmarks : ∀ (marks : List Mark) (count : UInt64),
      LastProcessed (marks ++ destroyed.map .destroyed) count ↔
        LastProcessed marks count ∧ count ∉ destroyed := by
    intro marks count
    induction destroyed generalizing marks with
    | nil =>
      rw [List.map_nil, List.append_nil]
      exact ⟨fun h => ⟨h, List.not_mem_nil⟩, And.left⟩
    | cons gone destroyed ih =>
      have hne : Mark.destroyed gone ≠ .processed count := Mark.noConfusion
      rw [List.map_cons, List.append_cons, ih, lastProcessed_snoc, or_iff_right hne, Ne,
        Mark.destroyed.injEq, List.mem_cons, not_or, and_assoc, eq_comm]
  have hprocessed : ∀ count, .processed count ∈ marks ++ destroyed.map .destroyed ↔
      .processed count ∈ marks := by
    intro count
    rw [List.mem_append, List.mem_map]
    refine or_iff_left ?_
    rintro ⟨_, _, h⟩
    cases h
  constructor
  · intro count
    rw [hmarks, ← h.list_iff, ToDeviceState.markDestroyed, List.mem_filter, decide_eq_true_iff]
  · intro count hcount
    exact h.greatest count ((hprocessed count).mp hcount)
  · intro current hcurrent
    exact (hprocessed current).mpr (h.processed current hcurrent)

/-- What is saved, imported, sent and left in the queue fits together. -/
structure DeviceSound (given : UInt64 × Json → Prop) (world : DeviceWorld) : Prop where
  recorded : Recorded world.saved world.marks
  imported_given : ∀ item ∈ world.imported, given item
  processed_imported : ∀ count, .processed count ∈ world.marks →
    ∃ event, (count, event) ∈ world.imported
  destroyed_confirmed : ∀ count, .destroyed count ∈ world.marks → count ∈ world.confirmed
  sent_saved : ∀ command ∈ world.commands, ∀ count ∈ command.counts,
    (∃ event, (count, event) ∈ command.imported) ∧
      ∃ saved, command.saved = some saved ∧ count ∈ saved.toDestroy
  sent_imported : ∀ command ∈ world.commands, ∀ item ∈ command.imported, item ∈ world.imported
  kept : ∀ count ∈ world.arrived, count ∈ world.queue ∨ ∃ event, (count, event) ∈ world.imported

theorem deviceSound_fresh (given : UInt64 × Json → Prop) :
    DeviceSound given .fresh where
  recorded := recorded_start
  imported_given _ h := by cases h
  processed_imported _ h := by cases h
  destroyed_confirmed _ h := by cases h
  sent_saved _ h := by cases h
  sent_imported _ h := by cases h
  kept _ h := by cases h

section Moves

variable {given : UInt64 × Json → Prop} {world after : DeviceWorld}

theorem DeviceSound.move (h : DeviceSound given world) (hmoved : Moved given world after) :
    DeviceSound given after := by
  cases hmoved with
  | commit items keys hgiven =>
    refine { h with
      imported_given := ?_, processed_imported := ?_, sent_imported := ?_, kept := ?_ }
    · intro item hitem
      rcases List.mem_append.mp hitem with hitem | hitem
      · exact h.imported_given item hitem
      · exact hgiven item hitem
    · intro count hcount
      obtain ⟨event, hevent⟩ := h.processed_imported count hcount
      exact ⟨event, List.mem_append_left _ hevent⟩
    · intro command hcommand item hitem
      exact List.mem_append_left _ (h.sent_imported command hcommand item hitem)
    · intro count hcount
      refine (h.kept count hcount).imp_right ?_
      rintro ⟨event, hevent⟩
      exact ⟨event, List.mem_append_left _ hevent⟩
  | process counts himported =>
    refine { h with
      recorded := h.recorded.process counts, processed_imported := ?_, destroyed_confirmed := ?_ }
    · intro count hcount
      rcases List.mem_append.mp hcount with hcount | hcount
      · exact h.processed_imported count hcount
      · obtain ⟨_, hnow, heq⟩ := List.mem_map.mp hcount
        cases heq
        exact himported count hnow
    · intro count hcount
      rcases List.mem_append.mp hcount with hcount | hcount
      · exact h.destroyed_confirmed count hcount
      · obtain ⟨_, _, heq⟩ := List.mem_map.mp hcount
        cases heq
  | send hfile =>
    refine { h with sent_saved := ?_, sent_imported := ?_ }
    · intro command hcommand count hcount
      rcases List.mem_append.mp hcommand with hcommand | hcommand
      · exact h.sent_saved command hcommand count hcount
      · cases List.mem_singleton.mp hcommand
        obtain ⟨saved, hsaved⟩ := Option.ne_none_iff_exists'.mp hfile
        have heq : world.saved = saved := by rw [DeviceWorld.saved, hsaved, Option.getD_some]
        refine ⟨h.processed_imported count ((h.recorded.list_iff count).mp hcount).mem, saved,
          hsaved, ?_⟩
        rw [← heq]
        exact hcount
    · intro command hcommand item hitem
      rcases List.mem_append.mp hcommand with hcommand | hcommand
      · exact h.sent_imported command hcommand item hitem
      · cases List.mem_singleton.mp hcommand
        exact hitem
  | confirm destroyed =>
    refine { h with destroyed_confirmed := ?_ }
    intro count hcount
    exact List.mem_append_left _ (h.destroyed_confirmed count hcount)
  | destroy destroyed hconfirmed =>
    refine { h with
      recorded := h.recorded.destroy destroyed, processed_imported := ?_,
      destroyed_confirmed := ?_ }
    · intro count hcount
      rcases List.mem_append.mp hcount with hcount | hcount
      · exact h.processed_imported count hcount
      · obtain ⟨_, _, heq⟩ := List.mem_map.mp hcount
        cases heq
    · intro count hcount
      rcases List.mem_append.mp hcount with hcount | hcount
      · exact h.destroyed_confirmed count hcount
      · obtain ⟨_, hgone, heq⟩ := List.mem_map.mp hcount
        cases heq
        exact hconfirmed count hgone
  | arrive count =>
    refine { h with kept := ?_ }
    intro other hother
    rcases List.mem_append.mp hother with hother | hother
    · exact (h.kept other hother).imp_left (List.mem_append_left _)
    · exact .inl (List.mem_append_right _ hother)
  | serve command gone hsent =>
    refine { h with kept := ?_ }
    intro count hcount
    by_cases hlisted : count ∈ command.counts ∧ count ∈ gone
    · obtain ⟨⟨event, hevent⟩, _⟩ := h.sent_saved command hsent count hlisted.1
      exact .inr ⟨event, h.sent_imported command hsent _ hevent⟩
    · refine (h.kept count hcount).imp_left fun hqueue => ?_
      exact List.mem_filter.mpr ⟨hqueue, decide_eq_true hlisted⟩

theorem DeviceSound.moves (h : DeviceSound given world) (hmoves : Moves given world after) :
    DeviceSound given after := by
  induction hmoves with
  | refl => exact h
  | tail _ hmoved ih => exact ih.move hmoved

/-- The greatest count does not go down. -/
def NotBelow (before after : Option UInt64) : Prop :=
  ∀ count, before = some count → ∃ later, after = some later ∧ count ≤ later

theorem notBelow_moves (hmoves : Moves given world after) :
    NotBelow world.saved.cdSeq after.saved.cdSeq := by
  induction hmoves with
  | refl => exact fun count h => ⟨count, h, UInt64.le_refl count⟩
  | @tail middle after _ hmoved ih =>
    have hstep : NotBelow middle.saved.cdSeq after.saved.cdSeq := by
      cases hmoved with
      | process counts himported =>
        clear himported
        have hfold : ∀ state : ToDeviceState,
            NotBelow state.cdSeq (counts.foldl ToDeviceState.markProcessed state).cdSeq := by
          intro state
          induction counts generalizing state with
          | nil => exact fun count h => ⟨count, h, UInt64.le_refl count⟩
          | cons next counts ih =>
            intro count hcount
            obtain ⟨last, hlast, hle⟩ := ih (state.markProcessed next) _ rfl
            refine ⟨last, hlast, UInt64.le_trans ?_ hle⟩
            rw [hcount]
            exact ToDeviceState.current_le_later count next
        exact hfold middle.saved
      | _ => exact fun count h => ⟨count, h, UInt64.le_refl count⟩
    intro count hcount
    obtain ⟨next, hnext, hle⟩ := ih count hcount
    obtain ⟨last, hlast, hle'⟩ := hstep next hnext
    exact ⟨last, hlast, UInt64.le_trans hle hle'⟩

end Moves

/-- In every run, wherever its calls are cut off: a command lists only counts that had
been imported and saved as processed when it was sent; what has left the queue has been
imported; what is saved for destruction is what was saved as processed and not since then
as destroyed, so everything processed that was not confirmed; and the greatest count is
that of what was processed, and does not go down. -/
theorem toDevice_kept (packages : ToDevicePackages) (letter : UInt64 → Json)
    (actions : List DeviceAction) (hhonest : ∀ action ∈ actions, action.Honest packages letter) :
    let world := Runs.run (deviceStep packages) .fresh actions
    (∀ command ∈ world.commands, ∀ count ∈ command.counts,
      (count, letter count) ∈ command.imported ∧
        ∃ saved, command.saved = some saved ∧ count ∈ saved.toDestroy) ∧
    (∀ count ∈ world.arrived, count ∈ world.queue ∨ (count, letter count) ∈ world.imported) ∧
    (∀ count, count ∈ world.saved.toDestroy ↔ LastProcessed world.marks count) ∧
    (∀ count, .processed count ∈ world.marks → count ∉ world.confirmed →
      count ∈ world.saved.toDestroy) ∧
    (∀ count, .processed count ∈ world.marks →
      ∃ greatest, world.saved.cdSeq = some greatest ∧ count ≤ greatest) ∧
    (∀ greatest, world.saved.cdSeq = some greatest → .processed greatest ∈ world.marks) ∧
    ∀ before later, actions = before ++ later →
      NotBelow (Runs.run (deviceStep packages) .fresh before).saved.cdSeq world.saved.cdSeq := by
  intro world
  have h : DeviceSound (fun item => item.2 = letter item.1) world :=
    (deviceSound_fresh _).moves (run_moves actions hhonest .fresh)
  have hletter : ∀ count event, (count, event) ∈ world.imported → event = letter count :=
    fun count event hevent => h.imported_given (count, event) hevent
  refine ⟨?_, ?_, h.recorded.list_iff, ?_, h.recorded.greatest, h.recorded.processed, ?_⟩
  · intro command hcommand count hcount
    obtain ⟨⟨event, hevent⟩, hsaved⟩ := h.sent_saved command hcommand count hcount
    refine ⟨?_, hsaved⟩
    rw [← hletter count event (h.sent_imported command hcommand _ hevent)]
    exact hevent
  · intro count hcount
    refine (h.kept count hcount).imp_right ?_
    rintro ⟨event, hevent⟩
    rw [← hletter count event hevent]
    exact hevent
  · intro count hcount hnot
    rw [h.recorded.list_iff]
    exact lastProcessed_of_mem hcount fun hgone => hnot (h.destroyed_confirmed count hgone)
  · rintro before later rfl
    rw [show world = Runs.run (deviceStep packages)
      (Runs.run (deviceStep packages) .fresh before) later from Runs.run_append _ _ _ _]
    exact notBelow_moves (run_moves later
      (fun action haction => hhonest action (List.mem_append_right _ haction)) _)

def exampleDevicePackages : ToDevicePackages where
  windows :=
    { value := fun _ => .ok (.object [])
      deviceBatchMeta := fun _ => .error ""
      inviteBatchMeta := fun _ => .error ""
      inviteEntry := fun _ => .error ""
      lossy := fun _ => "" }
  itemsDestroyed _ := .ok { tc := 1, bc := 1 }
  destroyMeta _ := []
  fetchMeta := []

/-- The server says that the message with the count 5 is gone. -/
def exampleDestroyed : Pack :=
  { kind := .device, subtype := device.itemsDestroyed, flags := flags.isResponse, id := 1,
    seq := 0, «meta» := [], data := [0, 0, 0, 0, 0, 0, 0, 5] }

/-- An import that goes well up to the last writing of the file. -/
def exampleCourse (secondSave : Saving) : ImportCourse where
  load := none
  receiving := .ok []
  firstSave := .done
  id := 1
  seq := 7
  reply := ([exampleDestroyed], .ok ())
  secondSave := secondSave

/-- A message comes, and is imported and destroyed. -/
def exampleActions (secondSave : Saving) : List DeviceAction :=
  [.arrive 5, .importItems (some ["device"]) (exampleCourse secondSave) [(5, .null)],
    .serve 0 [5]]

theorem exampleActions_honest (secondSave : Saving) :
    ∀ action ∈ exampleActions secondSave,
      action.Honest exampleDevicePackages (fun _ => .null) := by
  intro action haction
  rcases List.mem_cons.mp haction with rfl | haction
  · trivial
  rcases List.mem_cons.mp haction with rfl | haction
  · intro item hitem
    cases List.mem_singleton.mp hitem
    rfl
  · cases List.mem_singleton.mp haction
    trivial

theorem toDevice_kept_one_message :
    let world := Runs.run (deviceStep exampleDevicePackages) .fresh (exampleActions .done)
    world.queue = [] ∧ world.saved = { cdSeq := some 5, toDestroy := [] } ∧
      ∀ count ∈ world.arrived, count ∈ world.queue ∨ (count, .null) ∈ world.imported := by
  refine ⟨?_, ?_, ?_⟩
  · decide +kernel
  · decide +kernel
  · exact (toDevice_kept exampleDevicePackages (fun _ => .null) (exampleActions .done)
      (exampleActions_honest .done)).2.1

/-- When the file cannot be written after the reply, a count that was confirmed stays on
the list. -/
theorem confirmed_stays_listed :
    ¬ ∀ (packages : ToDevicePackages) (letter : UInt64 → Json) (actions : List DeviceAction),
      (∀ action ∈ actions, action.Honest packages letter) →
      let world := Runs.run (deviceStep packages) .fresh actions
      ∀ count, count ∈ world.saved.toDestroy ↔
        .processed count ∈ world.marks ∧ count ∉ world.confirmed := by
  intro h
  have hfull := h exampleDevicePackages (fun _ => .null)
    (exampleActions (.stopped (.protocol "the disk is full") false))
    (exampleActions_honest _) 5
  have hlisted : 5 ∈ (Runs.run (deviceStep exampleDevicePackages) .fresh
      (exampleActions (.stopped (.protocol "the disk is full") false))).saved.toDestroy := by
    decide +kernel
  have hconfirmed : 5 ∈ (Runs.run (deviceStep exampleDevicePackages) .fresh
      (exampleActions (.stopped (.protocol "the disk is full") false))).confirmed := by
    decide +kernel
  exact (hfull.mp hlisted).2 hconfirmed

end WbfMatrixClient
