import WbfMatrixClient.AccountLinksSessions

/-!
# A new login and the old session

The lines, the tables and the sessions of an account along a run. In every run in which nothing
that was taken before a teardown is used after it, a login meets nothing of a session that a
`log_out` has ended.
-/

namespace WbfMatrixClient
namespace AccountLinks

open LinkPool (LinkRole)

/-- No call uses the line of the slot, and no `close_all` has it to close yet. -/
def isIdle (links : LinkPool.State) (id : Nat) : Bool :=
  links.tasks.all fun task => task.phase.reads ≠ some id && id ∉ task.phase.drains

/-- A background task that has nothing of a session before the given one. -/
def Task.Since (left : Nat) (task : Task) : Prop :=
  left ≤ task.pool.session ∧ (∀ engine, task.engine = some engine → left ≤ engine) ∧
    ∀ session, task.line = some session → left ≤ session

/-- For each role at most one line is open in all the pools that there are, and one that no command
uses is in the pool of the table; when `log_out` has returned and no session was given out since,
no line is open and the tables are clear; and no line, pool, engine or task is of a session that a
`log_out` has ended. -/
structure Separate (s : State) : Prop where
  one : ∀ pool id pool' id' role, (s.pools pool).Holds id role → (s.pools pool').Holds id' role →
    pool = pool' ∧ id = id'
  own : ∀ pool id role, (s.pools pool).Holds id role → isIdle (s.pools pool) id = true →
    s.Registered pool id role
  clear : s.left = s.sessions → (∀ pool id role, ¬(s.pools pool).Holds id role) ∧
    s.linkPools = none ∧ s.cryptoEngines = none ∧ s.keyShares = none ∧ s.roomSyncs = none ∧
      s.keySyncs = none
  since : (∀ pool id role, (s.pools pool).Holds id role → s.left ≤ s.tokens pool id) ∧
    (∀ ref, s.linkPools = some ref → s.left ≤ ref.session) ∧
    (∀ engine, s.cryptoEngines = some engine → s.left ≤ engine) ∧
    ∀ task, s.keyShares = some task ∨ s.roomSyncs = some task ∨ s.keySyncs = some task →
      task.Since s.left

structure Inv (s : State) : Prop where
  lines : Lines s
  gone : Gone s
  recent : Recent s

section Runs

variable {s : State}

theorem Gone.step (hs : Gone s) (hlines : Lines s) {action : Action}
    (htimely : Timely s action = true) : Gone (s.step action) := by
  cases action with
  | logIn wbf =>
    simp only [State.step]
    split
    · exact hs.enter (fun _ => rfl) rfl (fun h => h) rfl rfl
    · exact hs
  | logOut =>
    simp only [State.step]
    split
    · exact hs.enter (fun _ => rfl) rfl (fun h => h) rfl rfl
    · rename_i hfree hsealed
      refine ⟨fun _ => hs.rooms (.inr hsealed), fun _ => hs.keys (.inr hsealed), fun h => ?_,
        fun h => ?_, fun h => ?_⟩
      · cases h
      · cases h
      · cases h
    · exact hs
  | revoke =>
    simp only [State.step]
    split
    · exact hs.keep rfl
    · exact hs
  | proceed ok =>
    simp only [State.step]
    split
    · exact hs
    · rename_i phase hphase
      exact hs.proceedLogOut hphase ok
    · rename_i phase hphase
      exact hs.proceedLogIn phase ok
  | sessionOf holder =>
    simp only [State.step]
    split_ifs
    · split
      · exact hs.keep rfl
      · exact hs
    · exact hs
  | poolOfAccount holder =>
    simp only [State.step]
    split_ifs
    · exact hs.poolOfAccount htimely
    · exact hs
  | olmEngineOf holder =>
    simp only [State.step]
    split_ifs
    · exact hs.olmEngineOf hlines holder
    · exact hs
  | engineOpened ok => exact hs.engineOpened ok
  | call command call =>
    simp only [State.step]
    split
    · split_ifs
      · exact hs.keep rfl
      · exact hs
    · exact hs
  | background pool call =>
    simp only [State.step]
    split_ifs
    · exact hs.keep rfl
    · exact hs
  | move pool action =>
    simp only [State.step]
    split_ifs
    · split <;> exact hs.keep rfl
    · exact hs
  | openLink pool task =>
    simp only [State.step, State.openLink]
    split
    · exact hs.keep rfl
    · exact hs.keep rfl
    · exact hs
  | connect pool task ok =>
    simp only [State.step, State.connect]
    split
    · split_ifs <;> exact hs.keep rfl
    · exact hs
  | initConnection pool task => exact hs.initConnection hlines htimely
  | skipInitKeys pool task =>
    simp only [State.step, State.skipInitKeys]
    split
    · split_ifs
      · exact hs.keep rfl
      · exact hs
    · exact hs
  | opened pool task ok =>
    simp only [State.step, State.opened]
    split
    · exact hs.keep rfl
    · exact hs
    · exact hs.keep rfl
  | keyShareParts command => exact hs.keyShareParts htimely
  | ends table =>
    cases table with
    | roomSyncs => exact ⟨fun _ => rfl, hs.keys, hs.links, hs.engine, hs.shares⟩
    | keySyncs => exact ⟨hs.rooms, fun _ => rfl, hs.links, hs.engine, hs.shares⟩
  | finish command => exact hs.keep rfl

theorem Recent.step (hs : Recent s) (hlines : Lines s) (hgone : Gone s) {action : Action}
    (htimely : Timely s action = true) : Recent (s.step action) := by
  cases action with
  | logIn wbf =>
    simp only [State.step]
    split
    · exact hs.setLifecycle fun _ h => by cases h
    · exact hs
  | logOut =>
    simp only [State.step]
    split
    · exact { hs with entering := fun _ h => (by cases h) }
    · exact hs.setLifecycle fun _ h => by cases h
    · exact hs
  | revoke =>
    simp only [State.step]
    split
    · exact hs.revoke _
    · exact hs
  | proceed ok =>
    simp only [State.step]
    split
    · exact hs
    · rename_i phase hphase
      exact hs.proceedLogOut hlines hgone hphase ok
    · rename_i phase hphase
      exact hs.proceedLogIn hphase ok
  | sessionOf holder =>
    simp only [State.step]
    split_ifs
    · split
      · rename_i session hsealed
        exact hs.sessionOf holder hsealed
      · exact hs
    · exact hs
  | poolOfAccount holder =>
    simp only [State.step]
    split_ifs
    · exact hs.poolOfAccount htimely
    · exact hs
  | olmEngineOf holder =>
    simp only [State.step]
    split_ifs
    · exact hs.olmEngineOf holder
    · exact hs
  | engineOpened ok => exact hs.engineOpened ok
  | call command call =>
    simp only [State.step]
    split
    · split_ifs with hcall
      · exact hs.call hlines _ hcall
      · exact hs
    · exact hs
  | background pool call =>
    simp only [State.step]
    split_ifs with hcall
    · exact hs.call hlines pool (isCall_of_isBackgroundCall (Bool.and_eq_true_iff.mp hcall).2)
    · exact hs
  | move pool action =>
    by_cases hmove : isMove action = true
    · exact hs.move hlines pool hmove
    · simp only [State.step]
      rw [if_neg hmove]
      exact hs
  | openLink pool task => exact hs.openLink hlines pool task
  | connect pool task ok => exact hs.connect hlines pool task ok
  | initConnection pool task => exact hs.initConnection pool task
  | skipInitKeys pool task => exact hs.skipInitKeys pool task
  | opened pool task ok => exact hs.opened hlines pool task ok
  | keyShareParts command => exact hs.keyShareParts htimely
  | ends table =>
    cases table with
    | roomSyncs => exact { hs with rooms := fun _ h => (by cases h) }
    | keySyncs => exact { hs with keys := fun _ h => (by cases h) }
  | finish command => exact hs.setHands (known_empty _) fun _ => current_empty _ _

theorem Inv.step (hs : Inv s) {action : Action} (htimely : Timely s action = true) :
    Inv (s.step action) where
  lines := hs.lines.step htimely
  gone := hs.gone.step hs.lines htimely
  recent := hs.recent.step hs.lines hs.gone htimely

theorem inv_start : Inv .start where
  lines := lines_start
  gone := ⟨fun _ => rfl, fun _ => rfl, fun _ => rfl, fun _ => ⟨rfl, rfl⟩, fun _ => rfl⟩
  recent := {
    left := Nat.le_refl 0
    hands := fun _ => known_empty 0
    sealedSession := fun _ h => (by cases h)
    entering := fun _ h => (by cases h)
    links := fun _ h => (by cases h)
    engine := fun _ h => (by cases h)
    lock := fun _ _ h => (by cases h)
    rooms := fun _ h => (by cases h)
    keys := fun _ h => (by cases h)
    shares := fun _ h => (by cases h)
    opening := fun _ _ id role h => (LinkPool.not_hasRole_start id role h.2).elim
    tokens := fun _ id role h =>
      (LinkPool.not_hasRole_start id role (LinkPool.hasRole_of_holds h)).elim }

theorem not_drained_of_isIdle {pool id : Nat} {role : LinkRole}
    (h : isIdle (s.pools pool) id = true) : ¬s.Drained pool id role := by
  rintro ⟨call, ⟨task, htask, hin⟩, -⟩
  have hall := List.all_eq_true.mp h task (List.mem_of_getElem? htask)
  exact of_decide_eq_true (Bool.and_eq_true_iff.mp hall).2 hin

/-- A session that is not over is there no more when every session is. -/
theorem not_current {left sessions session : Nat} (hsame : left = sessions) :
    ¬Current left sessions session := by
  rintro ⟨hleft, hlt⟩
  omega

theorem Inv.separate (hs : Inv s) : Separate s := by
  have hrecent := hs.recent
  have hdark : s.left = s.sessions → ∀ pool id role, ¬(s.pools pool).Holds id role :=
    fun hsame pool id role h => not_current hsame (hrecent.tokens pool id role h)
  refine ⟨fun pool id pool' id' role h h' =>
      hs.lines.single pool id pool' id' role (.inl h) (.inl (.inl h')),
    fun pool id role h hidle => ?_, fun hsame => ⟨hdark hsame, ?_, ?_, ?_, ?_, ?_⟩,
    fun pool id role h => (hrecent.tokens pool id role h).1, fun ref h => (hrecent.links ref h).1,
    fun engine h => (hrecent.engine engine h).1, fun task h => ?_⟩
  · exact (hs.lines.home pool id role (.inl h)).resolve_right (not_drained_of_isIdle hidle)
  · cases h : s.linkPools with
    | none => rfl
    | some ref => exact (not_current hsame (hrecent.links ref h)).elim
  · cases h : s.cryptoEngines with
    | none => rfl
    | some engine => exact (not_current hsame (hrecent.engine engine h)).elim
  · cases h : s.keyShares with
    | none => rfl
    | some task => exact (not_current hsame (hrecent.shares task h).pool).elim
  · cases h : s.roomSyncs with
    | none => rfl
    | some task => exact (not_current hsame (hrecent.rooms task h).pool).elim
  · cases h : s.keySyncs with
    | none => rfl
    | some task => exact (not_current hsame (hrecent.keys task h).pool).elim
  · have htask : task.Current s.left s.sessions := by
      rcases h with h | h | h
      · exact hrecent.shares task h
      · exact hrecent.rooms task h
      · exact hrecent.keys task h
    exact ⟨htask.pool.1, fun engine hengine => (htask.engine engine hengine).1,
      fun session hline => (htask.line session hline).1⟩

/-- In every run in which nothing that was taken before a teardown is used after it, a new login
meets nothing of the old session. -/
theorem login_meets_no_old_session (actions : List Action)
    (htimely : Runs.Along State.step (fun s action => Timely s action = true) .start actions) :
    Separate (Runs.run State.step .start actions) :=
  (Runs.run_invariant_along Inv (fun _ _ htimely hs => hs.step htimely) actions _ htimely
    inv_start).separate

end Runs

/-- `log_in` on a wbf server, while no pool is in the table. -/
def exampleLogIn : List Action :=
  [.logIn true, .proceed true, .proceed true, .proceed true, .proceed true]

def exampleTake (command : Nat) : List Action :=
  [.sessionOf (.command command), .poolOfAccount (.command command)]

/-- The call has locked its slot, and `open_link` reads the session. -/
def exampleRead (pool task : Nat) : List Action :=
  [.move pool (.read task), .move pool (.lockOpening task), .move pool (.readAgain task),
    .move pool (.lockWrite task), .openLink pool task]

def exampleOpened (pool task : Nat) : List Action :=
  [.connect pool task true, .initConnection pool task, .opened pool task true,
    .move pool (.downgrade task), .move pool (.release task)]

/-- The keys line is opened and both tasks of the keys are started. -/
def exampleKeys : List Action :=
  List.flatten
    [exampleLogIn, exampleTake 0, [.call 0 (.acquire .keys)], exampleRead 0 0,
      [.connect 0 0 true, .olmEngineOf (.opening 0 0), .engineOpened true,
        .sessionOf (.opening 0 0), .poolOfAccount (.opening 0 0)],
      exampleTake 1,
      [.olmEngineOf (.command 1), .keyShareParts 1, .initConnection 0 0, .opened 0 0 true,
        .move 0 (.downgrade 0)]]

/-- `log_out` waits for the command that uses the keys line. -/
def exampleLogOut : List Action :=
  List.flatten
    [[.logOut, .revoke], List.replicate 5 (.proceed true),
      [.move 0 (.read 1), .move 0 (.release 1), .proceed true, .proceed true, .move 0 (.closeLine 2),
        .move 0 (.release 0), .move 0 (.closeLine 2), .move 0 (.closeLine 2)],
      List.replicate 7 (.proceed true)]

theorem login_meets_no_old_session_keys :
    (Runs.run State.step .start exampleKeys).keySyncs.isSome = true ∧
      (Runs.run State.step .start exampleKeys).keyShares.isSome = true ∧
      Separate (Runs.run State.step .start (exampleKeys ++ exampleLogOut ++ exampleLogIn)) := by
  refine ⟨by decide +kernel, by decide +kernel, ?_⟩
  exact login_meets_no_old_session _ (by decide +kernel)

/-- A round of `ensure_links` goes through the roles with the pool that it took. While it opens the
first line the account is logged out; its second opening fails when there is a new login; and the
third reads the new session. A command then opens a line of that role in the pool of the table. -/
def exampleRound : List Action :=
  List.flatten
    [exampleLogIn, exampleTake 0, [.call 0 (.ensureOpen .misc), .move 0 (.check 0 false)],
      exampleRead 0 0, [.logOut, .revoke], List.replicate 5 (.proceed true),
      [.move 0 (.read 1), .proceed true, .proceed true, .connect 0 0 true,
        .call 0 (.ensureOpen .upload), .move 0 (.check 3 false)],
      exampleRead 0 3, List.replicate 3 (.move 0 (.closeLine 2)), List.replicate 6 (.proceed true),
      exampleLogIn,
      [.connect 0 3 true, .call 0 (.ensureOpen .download), .move 0 (.check 4 false)],
      exampleRead 0 4, exampleOpened 0 4, exampleTake 1, [.call 1 (.acquire .download)],
      exampleRead 1 0, exampleOpened 1 0]

theorem opens_line_in_old_pool : ¬Separate (Runs.run State.step .start exampleRound) := by
  intro h
  have hold : ((Runs.run State.step .start exampleRound).pools 0).slots[3]? =
      some { role := .download, line := some { alive := true, era := 1 } } := by decide +kernel
  have hnew : ((Runs.run State.step .start exampleRound).pools 1).slots[0]? =
      some { role := .download, line := some { alive := true, era := 0 } } := by decide +kernel
  cases (h.one 0 3 1 0 .download ⟨_, hold, rfl, rfl⟩ ⟨_, hnew, rfl, rfl⟩).1

end AccountLinks
end WbfMatrixClient
