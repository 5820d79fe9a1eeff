import WbfMatrixClient.KeySync
import WbfMatrixClient.ToDeviceRuns

/-!
# Which room keys reach the decryption

A report is made after the machine has committed its keys, and only when nothing fails
after that: neither the files nor the command to destroy, nor a later window of the same
pull. What is committed before a failure is in no report, and the machine does not tell
of it a second time.

So exactly the runs in which no call fails after it has committed a key hand over every
key, and then each of them once.
-/

namespace WbfMatrixClient

/-- The keys that the machine commits. -/
def ImportCourse.newKeys (course : ImportCourse) : List RoomKeyInfo :=
  match course.load, course.receiving with
  | none, .ok keys => keys
  | none, .stopped _ (some keys) => keys
  | _, _ => []

section Conditions

variable (packages : ToDevicePackages)

/-- None of the steps of an import fails. -/
structure ImportCourse.Completes (features : Option (List String)) (course : ImportCourse)
    (items : List (UInt64 × Json)) (world : DeviceWorld) : Prop where
  load : course.load = none
  received : ∃ keys, course.receiving = .ok keys
  firstSave : course.firstSave = .done
  feature : requireFeature features deviceFeature = .ok ()
  reply :
    ((items.map Prod.fst).foldl ToDeviceState.markProcessed world.saved).toDestroy = [] ∨
    ∃ destroyed, destroyedBy packages
      ((items.map Prod.fst).foldl ToDeviceState.markProcessed world.saved).toDestroy
      course.id course.seq course.reply = .ok destroyed
  secondSave : course.secondSave = .done

/-- No step fails after keys have been committed, by this window or, as is told, by one
before it. -/
def PullKeeps (features : Option (List String)) (course : Nat → WindowCourse) :
    (left index : Nat) → (pending : Prop) → DeviceWorld → Prop
  | 0, _, pending, _ => ¬ pending
  | left + 1, index, pending, world =>
      match (course index).window packages features with
      | .error _ => ¬ pending
      | .ok window =>
          (¬ (course index).importing.Completes packages features window.items world →
            ¬ (pending ∨ (course index).importing.newKeys ≠ [])) ∧
          ((course index).importing.Completes packages features window.items world →
            moreIsOnlyMeaningfulWithItems window = true →
            PullKeeps features course left (index + 1)
              (pending ∨ (course index).importing.newKeys ≠ [])
              (importItems packages features (course index).importing window.items world).1)

end Conditions

section Calls

variable (packages : ToDevicePackages) (features : Option (List String))

theorem deviceItemsDestroy_outcome (course : ImportCourse) (counts : List UInt64)
    (world : DeviceWorld) :
    ∃ after result,
      deviceItemsDestroy packages features course counts world = (after, result) ∧
      after.roomKeys = world.roomKeys ∧
      ((∃ destroyed, result = .ok destroyed) ↔
        requireFeature features deviceFeature = .ok () ∧
          (counts = [] ∨ ∃ destroyed,
            destroyedBy packages counts course.id course.seq course.reply = .ok destroyed)) := by
  rw [deviceItemsDestroy]
  cases requireFeature features deviceFeature with
  | error e =>
    refine ⟨world, .error e, rfl, rfl, ?_⟩
    constructor
    · rintro ⟨_, h⟩
      cases h
    · rintro ⟨h, _⟩
      cases h
  | ok _ =>
    dsimp only
    by_cases hnone : counts = []
    · rw [if_pos hnone]
      exact ⟨world, .ok [], rfl, rfl, fun _ => ⟨rfl, .inl hnone⟩, fun _ => ⟨[], rfl⟩⟩
    rw [if_neg hnone]
    cases destroyedBy packages counts course.id course.seq course.reply with
    | error e =>
      refine ⟨_, .error e, rfl, rfl, ?_⟩
      constructor
      · rintro ⟨_, h⟩
        cases h
      · rintro ⟨_, h | ⟨_, h⟩⟩
        · exact absurd h hnone
        · cases h
    | ok destroyed =>
      exact ⟨_, .ok destroyed, rfl, rfl, fun _ => ⟨rfl, .inr ⟨destroyed, rfl⟩⟩,
        fun _ => ⟨destroyed, rfl⟩⟩

/-- The keys of an import are in its report when it completes, and otherwise there is no
report. -/
theorem importItems_outcome (course : ImportCourse) (items : List (UInt64 × Json))
    (world : DeviceWorld) :
    ∃ after result,
      importItems packages features course items world = (after, result) ∧
      after.roomKeys = world.roomKeys ++ course.newKeys ∧
      ((∃ report, result = .ok report ∧ report.roomKeys = course.newKeys ∧
          course.Completes packages features items world) ∨
        (∃ e, result = .error e) ∧ ¬ course.Completes packages features items world) := by
  rw [importItems]
  cases hload : course.load with
  | some e =>
    refine ⟨world, .error e, rfl, ?_, .inr ⟨⟨e, rfl⟩, fun h => ?_⟩⟩
    · rw [ImportCourse.newKeys, hload, List.append_nil]
    · rw [h.load] at hload
      cases hload
  | none =>
    dsimp only
    cases hreceiving : course.receiving with
    | stopped e kept =>
      have hnot : ¬ course.Completes packages features items world := by
        intro h
        obtain ⟨keys, hkeys⟩ := h.received
        rw [hkeys] at hreceiving
        cases hreceiving
      cases kept with
      | none =>
        refine ⟨world, .error e, rfl, ?_, .inr ⟨⟨e, rfl⟩, hnot⟩⟩
        rw [ImportCourse.newKeys, hload, hreceiving, List.append_nil]
      | some keys =>
        refine ⟨world.commit items keys, .error e, rfl, ?_, .inr ⟨⟨e, rfl⟩, hnot⟩⟩
        rw [ImportCourse.newKeys, hload, hreceiving]
        rfl
    | ok keys =>
      have hkeys : course.newKeys = keys := by rw [ImportCourse.newKeys, hload, hreceiving]
      rw [hkeys]
      dsimp only
      cases hfirst : course.firstSave with
      | stopped e written =>
        have hnot : ¬ course.Completes packages features items world := by
          intro h
          rw [h.firstSave] at hfirst
          cases hfirst
        cases written <;> exact ⟨_, .error e, rfl, rfl, .inr ⟨⟨e, rfl⟩, hnot⟩⟩
      | done =>
        rw [DeviceWorld.save]
        dsimp only
        obtain ⟨after, result, hdestroy, hsame, hiff⟩ :=
          deviceItemsDestroy_outcome packages features course
            ((items.map Prod.fst).foldl ToDeviceState.markProcessed world.saved).toDestroy
            ((world.commit items keys).store
              ((items.map Prod.fst).foldl ToDeviceState.markProcessed world.saved)
              ((items.map Prod.fst).map .processed))
        rw [show world.file.getD .start = world.saved from rfl, hdestroy]
        cases result with
        | error e =>
          refine ⟨after, .error e, rfl, hsame, .inr ⟨⟨e, rfl⟩, fun h => ?_⟩⟩
          obtain ⟨_, hok⟩ := hiff.mpr ⟨h.feature, h.reply⟩
          cases hok
        | ok destroyed =>
          obtain ⟨hfeature, hreply⟩ := hiff.mp ⟨destroyed, rfl⟩
          dsimp only
          cases hsecond : course.secondSave with
          | stopped e written =>
            have hnot : ¬ course.Completes packages features items world := by
              intro h
              rw [h.secondSave] at hsecond
              cases hsecond
            cases written <;> exact ⟨_, .error e, rfl, hsame, .inr ⟨⟨e, rfl⟩, hnot⟩⟩
          | done =>
            refine ⟨_, _, rfl, hsame, .inl ⟨_, rfl, rfl, ?_⟩⟩
            exact { load := hload, received := ⟨keys, hreceiving⟩, firstSave := hfirst,
                    feature := hfeature, reply := hreply, secondSave := hsecond }

/-- The keys of the windows are in the reports when the pull completes. When it fails none
of its windows is reported. -/
theorem pullWindows_outcome (course : Nat → WindowCourse) (left index : Nat)
    (reports : List ImportReport) (world : DeviceWorld) :
    ∃ after result new,
      pullWindows packages features course left index reports world = (after, result) ∧
      after.roomKeys = world.roomKeys ++ new ∧
      ((∃ more, result = .ok (reports ++ more) ∧ more.flatMap ImportReport.roomKeys = new ∧
          ∀ pending, PullKeeps packages features course left index pending world) ∨
        (∃ e, result = .error e) ∧
          ∀ pending, PullKeeps packages features course left index pending world ↔
            ¬ (pending ∨ new ≠ [])) := by
  induction left generalizing index reports world with
  | zero =>
    refine ⟨world, .error _, [], rfl, (List.append_nil _).symm, .inr ⟨⟨_, rfl⟩, ?_⟩⟩
    intro pending
    rw [PullKeeps, or_iff_left (not_not.mpr rfl)]
  | succ left ih =>
    rw [pullWindows]
    cases hwindow : (course index).window packages features with
    | error e =>
      refine ⟨world, .error e, [], rfl, (List.append_nil _).symm, .inr ⟨⟨e, rfl⟩, ?_⟩⟩
      intro pending
      rw [PullKeeps, hwindow, or_iff_left (not_not.mpr rfl)]
    | ok window =>
      have hkeeps : ∀ pending,
          PullKeeps packages features course (left + 1) index pending world ↔
          (¬ (course index).importing.Completes packages features window.items world →
            ¬ (pending ∨ (course index).importing.newKeys ≠ [])) ∧
          ((course index).importing.Completes packages features window.items world →
            moreIsOnlyMeaningfulWithItems window = true →
            PullKeeps packages features course left (index + 1)
              (pending ∨ (course index).importing.newKeys ≠ [])
              (importItems packages features (course index).importing window.items
                world).1) := by
        intro pending
        rw [PullKeeps, hwindow]
      dsimp only
      obtain ⟨after, result, himport, hkeys, hresult⟩ :=
        importItems_outcome packages features (course index).importing window.items world
      rw [himport] at hkeeps ⊢
      rcases hresult with ⟨report, rfl, hreport, hcompletes⟩ | ⟨⟨e, rfl⟩, hfails⟩
      · dsimp only
        cases hmore : moreIsOnlyMeaningfulWithItems window with
        | false =>
          refine ⟨after, .ok (reports ++ [report]), (course index).importing.newKeys,
            rfl, hkeys, .inl ⟨[report], rfl, ?_, ?_⟩⟩
          · rw [List.flatMap_singleton, hreport]
          · intro pending
            rw [hkeeps]
            refine ⟨fun hfails => absurd hcompletes hfails, fun _ hyes => ?_⟩
            rw [hmore] at hyes
            cases hyes
        | true =>
          obtain ⟨last, result, new, hpull, hnew, hlast⟩ :=
            ih (index + 1) (reports ++ [report]) after
          have hsplit : ∀ pending,
              PullKeeps packages features course (left + 1) index pending world ↔
              PullKeeps packages features course left (index + 1)
                (pending ∨ (course index).importing.newKeys ≠ []) after := by
            intro pending
            rw [hkeeps]
            exact ⟨fun h => h.2 hcompletes hmore,
              fun h => ⟨fun hfails => absurd hcompletes hfails, fun _ _ => h⟩⟩
          refine ⟨last, result, (course index).importing.newKeys ++ new, ?_, ?_, ?_⟩
          · rw [if_pos rfl]
            exact hpull
          · rw [hnew, hkeys, List.append_assoc]
          · rcases hlast with ⟨more, rfl, hreports, hall⟩ | ⟨⟨e, rfl⟩, hall⟩
            · refine .inl ⟨report :: more, ?_, ?_, ?_⟩
              · rw [List.append_assoc]
                rfl
              · rw [List.flatMap_cons, hreport, hreports]
              · exact fun pending => (hsplit pending).mpr (hall _)
            · refine .inr ⟨⟨e, rfl⟩, fun pending => ?_⟩
              have hne : (course index).importing.newKeys ++ new ≠ [] ↔
                  (course index).importing.newKeys ≠ [] ∨ new ≠ [] := by
                rw [Ne, List.append_eq_nil_iff, not_and_or]
              rw [hsplit, hall, hne, or_assoc]
      · refine ⟨after, .error e, (course index).importing.newKeys, rfl, hkeys,
          .inr ⟨⟨e, rfl⟩, ?_⟩⟩
        intro pending
        rw [hkeeps]
        exact ⟨fun h => h.1 hfails, fun h => ⟨fun _ => h, fun hyes => absurd hyes hfails⟩⟩

end Calls

inductive KeyAction where
  | initKeys (features : Option (List String)) (course : Nat → WindowCourse)
  | next (takenGap : Bool) (event : KeyEvent) (course : EventCourse)
  /-- The task is stopped, or the program ends. -/
  | stop

section Runs

variable (packages : ToDevicePackages)

def keyStep (s : KeySync) : KeyAction → KeySync
  | .initKeys features course => s.initKeys packages features course
  | .next takenGap event course => s.next packages takenGap event course
  | .stop => { s with running := false, needsPull := false }

namespace KeySync

/-- A push is imported completely, if the machine commits a key. -/
def PushKeeps (course : EventCourse) (world : DeviceWorld) : KeyEvent → Prop
  | .push false items => ∀ line, course.line = some line →
      course.importing.newKeys = [] ∨
        course.importing.Completes packages line.features items world
  | _ => True

/-- So is every window of the pull after it. -/
def LaterPullKeeps (course : EventCourse) (s : KeySync) : Prop :=
  s.running = true → s.needsPull = true → ∀ line, course.pullLine = some line →
    PullKeeps packages line.features course.pulling pullWindowsLimit 0 False s.world

end KeySync

/-- No call fails after it has committed a key. -/
def KeyAction.Keeps (s : KeySync) : KeyAction → Prop
  | .initKeys features course =>
      PullKeeps packages features course pullWindowsLimit 0 False s.world
  | .next takenGap event course => s.running = true →
      KeySync.PushKeeps packages course s.world event ∧
        KeySync.LaterPullKeeps packages course
          (KeySync.onEvent packages course { s with needsPull := s.needsPull || takenGap } event)
  | .stop => True

end Runs

namespace KeySync

/-- The keys in the reports that were handed over. -/
def handedKeys (s : KeySync) : List RoomKeyInfo :=
  s.handed.flatten.flatMap ImportReport.roomKeys

/-- Some of the keys committed on the way are handed over, and under a condition all. -/
def Gains (s s' : KeySync) (all : Prop) : Prop :=
  ∃ new given : List RoomKeyInfo, s'.world.roomKeys = s.world.roomKeys ++ new ∧
    s'.handedKeys = s.handedKeys ++ given ∧ given.Sublist new ∧
    (given.length = new.length ↔ all)

variable {s s' : KeySync}

theorem Gains.none (hworld : s'.world = s.world) (hhanded : s'.handed = s.handed) :
    Gains s s' True := by
  refine ⟨[], [], ?_, ?_, List.Sublist.refl _, ⟨fun _ => trivial, fun _ => rfl⟩⟩
  · rw [hworld, List.append_nil]
  · rw [handedKeys, hhanded, List.append_nil]
    rfl

theorem Gains.trans {s'' : KeySync} {all all' : Prop} (h : Gains s s' all)
    (h' : Gains s' s'' all') : Gains s s'' (all ∧ all') := by
  obtain ⟨new, given, hkeys, hhanded, hsub, hall⟩ := h
  obtain ⟨new', given', hkeys', hhanded', hsub', hall'⟩ := h'
  refine ⟨new ++ new', given ++ given', ?_, ?_, hsub.append hsub', ?_⟩
  · rw [hkeys', hkeys, List.append_assoc]
  · rw [hhanded', hhanded, List.append_assoc]
  · have hle := hsub.length_le
    have hle' := hsub'.length_le
    rw [← hall, ← hall', List.length_append, List.length_append]
    omega

theorem Gains.congr {all all' : Prop} (h : Gains s s' all) (hiff : all ↔ all') :
    Gains s s' all' := by
  rw [← hiff]
  exact h

/-- Keys that are handed over with what was committed. -/
theorem gains_decrypt {world : DeviceWorld} {reports : List ImportReport} {new : List RoomKeyInfo}
    (hkeys : world.roomKeys = s.world.roomKeys ++ new)
    (hreports : reports.flatMap ImportReport.roomKeys = new) :
    Gains s (({ s with world := world }).decryptWhatTheKeysOpen reports) True := by
  refine ⟨new, new, hkeys, ?_, List.Sublist.refl _, ⟨fun _ => trivial, fun _ => rfl⟩⟩
  rw [handedKeys, decryptWhatTheKeysOpen, List.flatten_append, List.flatMap_append,
    List.flatten_singleton, hreports]
  rfl

theorem gains_lost {world : DeviceWorld} {new : List RoomKeyInfo}
    (hkeys : world.roomKeys = s.world.roomKeys ++ new) :
    Gains s { s with world := world } (new = []) := by
  refine ⟨new, [], hkeys, (List.append_nil _).symm, List.nil_sublist _, ?_⟩
  rw [List.length_nil, eq_comm, List.length_eq_zero_iff]

section Steps

variable (packages : ToDevicePackages)

theorem gains_importPushed (line : Option KeysLine) (course : ImportCourse)
    (items : List (UInt64 × Json)) (s : KeySync) :
    Gains s (importPushed packages line course items s).1
      (∀ there, line = some there → course.newKeys = [] ∨
        course.Completes packages there.features items s.world) := by
  cases line with
  | none => exact (Gains.none rfl rfl).congr ⟨fun _ _ h => (by cases h), fun _ => trivial⟩
  | some line =>
    obtain ⟨after, result, himport, hkeys, hresult⟩ :=
      importItems_outcome packages line.features course items s.world
    rw [importPushed, himport]
    rcases hresult with ⟨report, rfl, hreport, hcompletes⟩ | ⟨⟨e, rfl⟩, hfails⟩
    · refine (gains_decrypt hkeys ?_).congr ⟨fun _ there hthere => ?_, fun _ => trivial⟩
      · rw [List.flatMap_singleton, hreport]
      · cases hthere
        exact .inr hcompletes
    · refine (gains_lost hkeys).congr ⟨fun hnone _ _ => .inl hnone, fun h => ?_⟩
      exact (h line rfl).resolve_right hfails

theorem gains_pullToDevice (features : Option (List String)) (course : Nat → WindowCourse)
    (s : KeySync) :
    (∃ world reports, pullToDevice packages features course s.world = (world, .ok reports) ∧
        Gains s (({ s with world := world }).decryptWhatTheKeysOpen reports)
          (PullKeeps packages features course pullWindowsLimit 0 False s.world)) ∨
      ∃ world e, pullToDevice packages features course s.world = (world, .error e) ∧
        Gains s { s with world := world }
          (PullKeeps packages features course pullWindowsLimit 0 False s.world) := by
  obtain ⟨after, result, new, hpull, hkeys, hresult⟩ :=
    pullWindows_outcome packages features course pullWindowsLimit 0 [] s.world
  rcases hresult with ⟨more, rfl, hreports, hkeeps⟩ | ⟨⟨e, rfl⟩, hkeeps⟩
  · exact .inl ⟨after, more, hpull,
      (gains_decrypt hkeys hreports).congr ⟨fun _ => hkeeps False, fun _ => trivial⟩⟩
  · refine .inr ⟨after, e, hpull, (gains_lost hkeys).congr ?_⟩
    rw [hkeeps, false_or, not_not]

theorem gains_initKeys (features : Option (List String)) (course : Nat → WindowCourse)
    (s : KeySync) :
    Gains s (s.initKeys packages features course)
      (PullKeeps packages features course pullWindowsLimit 0 False s.world) := by
  rw [initKeys]
  rcases gains_pullToDevice packages features course s with
    ⟨world, reports, hpull, hgains⟩ | ⟨world, e, hpull, hgains⟩
  · rw [hpull]
    exact hgains
  · rw [hpull]
    exact hgains

theorem gains_pull (line : Option KeysLine) (course : Nat → WindowCourse) (s : KeySync) :
    Gains s (pull packages line course s).1
      (∀ there, line = some there →
        PullKeeps packages there.features course pullWindowsLimit 0 False s.world) := by
  cases line with
  | none => exact (Gains.none rfl rfl).congr ⟨fun _ _ h => (by cases h), fun _ => trivial⟩
  | some line =>
    have hline : (∀ there, some line = some there →
        PullKeeps packages there.features course pullWindowsLimit 0 False s.world) ↔
        PullKeeps packages line.features course pullWindowsLimit 0 False s.world := by
      constructor
      · exact fun h => h line rfl
      · rintro h there ⟨⟩
        exact h
    rw [pull]
    rcases gains_pullToDevice packages line.features course s with
      ⟨world, reports, hpull, hgains⟩ | ⟨world, e, hpull, hgains⟩
    · rw [hpull]
      exact hgains.congr hline.symm
    · rw [hpull]
      exact hgains.congr hline.symm

theorem gains_onEvent (course : EventCourse) (s : KeySync) (event : KeyEvent) :
    Gains s (onEvent packages course s event) (PushKeeps packages course s.world event) := by
  cases event with
  | push gap items =>
    cases gap with
    | true => exact Gains.none rfl rfl
    | false => exact gains_importPushed packages course.line course.importing items s
  | cryptoState gap | acknowledged | timeout | unreadable | ended => exact Gains.none rfl rfl

theorem gains_pullWhenNeeded (course : EventCourse) (s : KeySync) :
    Gains s (pullWhenNeeded packages course s) (LaterPullKeeps packages course s) := by
  rw [pullWhenNeeded]
  by_cases hneeds : (s.running && s.needsPull) = true
  · rw [if_pos hneeds]
    refine (gains_pull packages course.pullLine course.pulling s).congr ?_
    rw [Bool.and_eq_true] at hneeds
    exact ⟨fun h _ _ => h, fun h => h hneeds.1 hneeds.2⟩
  · rw [if_neg hneeds]
    refine (Gains.none rfl rfl).congr ⟨fun _ hrunning hpull => ?_, fun _ => trivial⟩
    exact absurd (by rw [hrunning, hpull]; rfl) hneeds

theorem gains_step (s : KeySync) (action : KeyAction) :
    Gains s (keyStep packages s action) (action.Keeps packages s) := by
  cases action with
  | initKeys features course => exact gains_initKeys packages features course s
  | next takenGap event course =>
    rw [keyStep, next]
    by_cases hrunning : s.running = true
    · rw [if_pos hrunning]
      have hevent := gains_onEvent packages course
        { s with needsPull := s.needsPull || takenGap } event
      have hboth : Gains s _ _ := hevent.trans (gains_pullWhenNeeded packages course _)
      exact hboth.congr ⟨fun h _ => h, fun h => h hrunning⟩
    · rw [if_neg hrunning]
      exact (Gains.none rfl rfl).congr ⟨fun _ h => absurd h hrunning, fun _ => trivial⟩
  | stop => exact Gains.none rfl rfl

theorem gains_run (actions : List KeyAction) (s : KeySync) :
    Gains s (Runs.run (keyStep packages) s actions)
      (Runs.Along (keyStep packages) (fun s action => action.Keeps packages s) s actions) := by
  induction actions generalizing s with
  | nil => exact Gains.none rfl rfl
  | cons action actions ih => exact (gains_step packages s action).trans (ih _)

/-- Between any two states keys are only added to the store, and the keys that are handed over on the
way are some of these, each once and in their order. -/
theorem handed_keys_stored (actions : List KeyAction) (s : KeySync) :
    ∃ new given, (Runs.run (keyStep packages) s actions).world.roomKeys = s.world.roomKeys ++ new ∧
      (Runs.run (keyStep packages) s actions).handedKeys = s.handedKeys ++ given ∧
      given.Sublist new := by
  obtain ⟨new, given, hkeys, hhanded, hsub, -⟩ := gains_run packages actions s
  exact ⟨new, given, hkeys, hhanded, hsub⟩

end Steps

/-- How many of the reports that were handed over have the key. -/
def reportsWith (s : KeySync) (key : RoomKeyInfo) : Nat :=
  s.handed.flatten.countP fun report => key ∈ report.roomKeys

/-- Reports that name every key at most once. -/
theorem countP_eq_one {reports : List ImportReport} {key : RoomKeyInfo}
    (hnodup : (reports.flatMap ImportReport.roomKeys).Nodup)
    (hmem : key ∈ reports.flatMap ImportReport.roomKeys) :
    reports.countP (fun report => key ∈ report.roomKeys) = 1 := by
  induction reports with
  | nil => cases hmem
  | cons report reports ih =>
    rw [List.flatMap_cons] at hnodup hmem
    obtain ⟨_, hrest, hcross⟩ := List.nodup_append.mp hnodup
    by_cases hkey : key ∈ report.roomKeys
    · have hthis : decide (key ∈ report.roomKeys) = true := decide_eq_true hkey
      have hnone : reports.countP (fun report => key ∈ report.roomKeys) = 0 := by
        rw [List.countP_eq_zero]
        intro other hother hin
        refine hcross key hkey key ?_ rfl
        exact List.mem_flatMap.mpr ⟨other, hother, of_decide_eq_true hin⟩
      rw [List.countP_cons, hnone, if_pos hthis]
    · have hthis : ¬ decide (key ∈ report.roomKeys) = true := by
        rw [decide_eq_true_iff]
        exact hkey
      rw [List.countP_cons, if_neg hthis]
      exact ih hrest ((List.mem_append.mp hmem).resolve_left hkey)

/-- Given that the machine tells of a key once only: every key that it commits in a run is
in exactly one report that is handed over, if and only if no call of the run fails after
it has committed a key. -/
theorem keys_handed_iff (packages : ToDevicePackages) (actions : List KeyAction)
    (honce : (Runs.run (keyStep packages) fresh actions).world.roomKeys.Nodup) :
    (∀ key ∈ (Runs.run (keyStep packages) fresh actions).world.roomKeys,
      (Runs.run (keyStep packages) fresh actions).reportsWith key = 1) ↔
    Runs.Along (keyStep packages) (fun s action => action.Keeps packages s) fresh actions := by
  obtain ⟨new, given, hkeys, hhanded, hsub, hall⟩ := gains_run packages actions fresh
  generalize Runs.run (keyStep packages) fresh actions = s at honce hkeys hhanded ⊢
  have hnew : s.world.roomKeys = new := hkeys
  have hgiven : s.handed.flatten.flatMap ImportReport.roomKeys = given := hhanded
  rw [hnew] at honce ⊢
  rw [← hall]
  constructor
  · intro hone
    have hsubset : new ⊆ given := by
      intro key hkey
      have hpos : 0 < s.handed.flatten.countP fun report => key ∈ report.roomKeys := by
        rw [show s.handed.flatten.countP (fun report => key ∈ report.roomKeys) = 1 from
          hone key hkey]
        exact Nat.one_pos
      obtain ⟨report, hreport, hin⟩ := List.countP_pos_iff.mp hpos
      rw [← hgiven]
      exact List.mem_flatMap.mpr ⟨report, hreport, of_decide_eq_true hin⟩
    exact Nat.le_antisymm hsub.length_le (List.subperm_of_subset honce hsubset).length_le
  · intro hlength key hkey
    have heq := hsub.eq_of_length hlength
    refine countP_eq_one ?_ ?_
    · rw [hgiven, heq]
      exact honce
    · rw [hgiven, heq]
      exact hkey

def examplePackages : ToDevicePackages where
  windows :=
    { value := fun _ => .ok (.object [])
      deviceBatchMeta := fun _ =>
        .ok { tc := 0, bc := 0, ot := 0, nt := 0, counts := [], r := 0, more := false }
      inviteBatchMeta := fun _ => .error ""
      inviteEntry := fun _ => .error ""
      lossy := fun _ => "" }
  itemsDestroyed _ := .ok { tc := 1, bc := 1 }
  destroyMeta _ := []
  fetchMeta := []

/-- An import in which nothing fails but, as is told, the command to destroy. -/
def exampleImport (keys : List RoomKeyInfo) (reply : Reply) : ImportCourse where
  load := none
  receiving := .ok keys
  firstSave := .done
  id := 1
  seq := 7
  reply := reply
  secondSave := .done

/-- A window in which there is nothing. What could not be destroyed before is destroyed. -/
def exampleWindow : WindowCourse where
  id := 2
  seq := 0
  answer :=
    ([{ kind := .device, subtype := device.batch, flags := flags.isResponse, id := 2, seq := 0,
        «meta» := [], data := [] }], .ok ())
  importing := exampleImport [] ([exampleDestroyed], .ok ())

/-- The line is opened, and then a message with a room key is pushed. -/
def exampleActions (reply : Reply) : List KeyAction :=
  [.initKeys (some ["device"]) (fun _ => exampleWindow),
    .next false (.push false [(5, .null)])
      { line := some { features := some ["device"] }
        importing := exampleImport [{ roomId := "!room", sessionId := "session" }] reply
        pullLine := some { features := some ["device"] }
        pulling := fun _ => exampleWindow }]

theorem keys_handed_one_key :
    Runs.Along (keyStep examplePackages) (fun s action => action.Keeps examplePackages s) fresh
      (exampleActions ([exampleDestroyed], .ok ())) :=
  (keys_handed_iff examplePackages (exampleActions ([exampleDestroyed], .ok ()))
    (by decide +kernel)).mp (by decide +kernel)

/-- The reply to the command to destroy does not come. The pull after it makes up for the
command, but the key is in no report. -/
theorem key_lost_without_reply :
    ¬ ∀ (packages : ToDevicePackages) (actions : List KeyAction),
      (Runs.run (keyStep packages) fresh actions).world.roomKeys.Nodup →
      ∀ key ∈ (Runs.run (keyStep packages) fresh actions).world.roomKeys,
        (Runs.run (keyStep packages) fresh actions).reportsWith key = 1 := by
  intro h
  have hlost := h examplePackages
    (exampleActions ([], .error (.network "no Device/ItemsDestroyed came")))
    (by decide +kernel) { roomId := "!room", sessionId := "session" } (by decide +kernel)
  have hnone : (Runs.run (keyStep examplePackages) fresh
      (exampleActions ([], .error (.network "no Device/ItemsDestroyed came")))).reportsWith
        { roomId := "!room", sessionId := "session" } = 0 := by
    decide +kernel
  rw [hnone] at hlost
  cases hlost

end KeySync

end WbfMatrixClient
