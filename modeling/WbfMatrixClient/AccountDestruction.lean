import WbfMatrixClient.Lib.Runs

/-!
# Finishing what a logout or a destroy has begun

Logging out and destroying an account take many steps, each of which can fail, and a crash can come
between any two of them. What has been begun is to be finished by destroying the account again. The
directory of the account goes last, so that it is found until then. What is not provided for is a
token that the server has revoked while the session of the account is still there.
-/

namespace WbfMatrixClient
namespace AccountDestruction

inductive BackendKind where
  | wbfSdk
  | matrixSdkClient

/-- What does not change about an account. -/
structure Account where
  backend : BackendKind
  /-- The backup on the server exists and secret storage is set up. -/
  recoverable : Bool
  /-- Another account of the server is logged in. -/
  otherLoggedIn : Bool
  /-- There is another account of the server. -/
  otherAccounts : Bool

/-- What is there of an account, here and on the server. -/
structure World where
  /-- The directory, by which the account is found. -/
  dir : Bool
  /-- `session.sealed` -/
  session : Bool
  /-- `m/` -/
  store : Bool
  /-- `k/` -/
  snapshot : Bool
  /-- `current` names the account. -/
  current : Bool
  /-- `cache.db` of the server. -/
  cache : Bool
  /-- The events in it that only this account has synced. -/
  rows : Bool
  recoveryKey : Bool
  /-- What else is in the directory of the server. -/
  serverFiles : Bool
  /-- `to_be_deleted.lock` -/
  marked : Bool
  /-- The server accepts the token of the session. -/
  tokenLive : Bool

inductive Command where
  | logOut
  | destroyAccount

inductive Step where
  | find
  | gate
  | forgetRows
  | removePoolFiles
  | callServer
  | deleteSession
  | deleteStore
  | deleteSnapshot
  | clearCurrent
  | removeCache
  | delRecoveryKey
  | markServer
  | removeServerFiles
  | removeAccountDir
  | cleanUp
deriving DecidableEq

/-- The steps of logging out when the gate has let the account go. -/
def logOutPastTheGate : List Step :=
  [.callServer, .deleteSession, .deleteStore, .deleteSnapshot, .clearCurrent, .removeCache]

def Command.steps : Command → List Step
  | .logOut => [.find, .gate] ++ logOutPastTheGate
  | .destroyAccount =>
      [.find, .gate, .forgetRows, .removePoolFiles] ++ logOutPastTheGate ++
        [.delRecoveryKey, .markServer, .removeServerFiles, .removeAccountDir, .cleanUp]

/-- How a step goes: the answer to a request can be lost when the server has done what it was asked
for. -/
inductive Outcome where
  | works
  | fails
  | lost
deriving DecidableEq

inductive Result where
  | ok
  | err
deriving DecidableEq

/-- Whether the history would not be lost with the account. -/
def gateLetsPass (account : Account) (accept : Bool) (outcome : Outcome) (world : World) : Bool :=
  if accept || !world.session then true
  else
    match account.backend with
    | .wbfSdk => outcome = .works && world.recoveryKey
    | .matrixSdkClient =>
        outcome = .works && world.tokenLive && account.recoverable && world.recoveryKey

/-- A removal that does not work leaves what it was to remove. -/
def remove (outcome : Outcome) (world removed : World) : Result × World :=
  if outcome = .works then (.ok, removed) else (.err, world)

def perform (account : Account) (accept : Bool) (outcome : Outcome) (world : World) :
    Step → Result × World
  | .find => (if outcome = .works && world.dir then .ok else .err, world)
  | .gate => (if gateLetsPass account accept outcome world then .ok else .err, world)
  | .forgetRows =>
      if !world.cache then (.ok, world) else remove outcome world { world with rows := false }
  | .removePoolFiles => remove outcome world world
  | .callServer =>
      if !world.session then (.ok, world)
      else
        match outcome with
        | .works => (if world.tokenLive then .ok else .err, { world with tokenLive := false })
        | .fails => (.err, world)
        | .lost => (.err, { world with tokenLive := false })
  | .deleteSession =>
      if !world.session then (.ok, world)
      else remove outcome world { world with session := false }
  | .deleteStore => remove outcome world { world with store := false }
  | .deleteSnapshot => remove outcome world { world with snapshot := false }
  | .clearCurrent => remove outcome world { world with current := false }
  | .removeCache =>
      if account.otherLoggedIn then (.ok, world)
      else remove outcome world { world with cache := false }
  | .delRecoveryKey =>
      if !world.recoveryKey then (.ok, world)
      else remove outcome world { world with recoveryKey := false }
  | .markServer =>
      if account.otherAccounts then (.ok, world)
      else remove outcome world { world with marked := true }
  | .removeServerFiles =>
      if account.otherAccounts then (.ok, world)
      else remove outcome world { world with cache := false, serverFiles := false }
  | .removeAccountDir =>
      remove outcome world
        { world with dir := false, session := false, store := false, snapshot := false }
  | .cleanUp =>
      -- What is left of the directory of the server is told, and is no error.
      (.ok, if outcome = .works && !account.otherAccounts then { world with marked := false }
        else world)

structure State where
  world : World
  /-- The steps that are left of the command that runs, and whether the loss of history was
  accepted. -/
  running : Option (Bool × List Step)
  /-- What the last command returned that was not killed. -/
  returned : Option Result

def State.start (world : World) : State :=
  { world := world, running := none, returned := none }

inductive Action where
  | begin (command : Command) (accept : Bool)
  | go (outcome : Outcome)
  | kill
  /-- The token is revoked by somebody else. -/
  | revoke

/-- Commands exclude each other by a lock. -/
def State.step (account : Account) (s : State) : Action → State
  | .begin command accept =>
      match s.running with
      | some _ => s
      | none => { s with running := some (accept, command.steps), returned := none }
  | .go outcome =>
      match s.running with
      | none => s
      | some (_, []) => { s with running := none, returned := some .ok }
      | some (accept, next :: rest) =>
          match perform account accept outcome s.world next with
          | (.ok, world) => { s with world := world, running := some (accept, rest) }
          | (.err, world) => { world := world, running := none, returned := some .err }
  | .kill => { s with running := none, returned := none }
  | .revoke => { s with world := { s.world with tokenLive := false } }

/-- Nothing is left of the account. -/
def Gone (world : World) : Prop :=
  world.session = false ∧ world.store = false ∧ world.snapshot = false ∧
    (world.cache = true → world.rows = false) ∧ world.recoveryKey = false ∧ world.dir = false

/-- The account is destroyed without a failure. -/
def finishing (accept : Bool) : List Action :=
  .begin .destroyAccount accept ::
    List.replicate (Command.destroyAccount.steps.length + 1) (.go .works)

/-- When nothing runs, a run that has returned an error has left the account to be found, and a last
run in which nothing fails, and which the gate lets pass, removes all. -/
def CanBeFinished (account : Account) (s : State) : Prop :=
  s.running = none →
    (s.returned = some .err → s.world.dir = true) ∧
      ∀ accept, gateLetsPass account accept .works s.world = true →
        (Runs.run (State.step account) s (finishing accept)).returned = some .ok ∧
          Gone (Runs.run (State.step account) s (finishing accept)).world

/-- The token is not revoked before the session is removed, other than by the logout itself, after
which nothing comes between; and the directory of the account is not yet removed. -/
def Clear (s : State) : Action → Bool
  | .begin _ _ => true
  | .go outcome =>
      match s.running with
      | some (_, .callServer :: _) => outcome ≠ .lost
      | some (_, .deleteSession :: _) => outcome = .works
      | some (_, .removeAccountDir :: _) => outcome ≠ .works
      | _ => true
  | .kill => !s.world.session || s.world.tokenLive
  | .revoke => !s.world.session

/-- The account is there, and a session whose token is revoked is about to be removed. -/
structure Kept (s : State) : Prop where
  dir : s.world.dir = true
  token : s.world.session = true → s.world.tokenLive = false →
    ∃ accept rest, s.running = some (accept, .deleteSession :: rest)
  part : ∀ accept left, s.running = some (accept, left) →
    ∃ command : Command, left <:+ command.steps

/-- The steps that are left when nothing fails. -/
def performAll (account : Account) (accept : Bool) : List Step → World → Result × World
  | [], world => (.ok, world)
  | next :: rest, world =>
      match perform account accept .works world next with
      | (.ok, world) => performAll account accept rest world
      | (.err, world) => (.err, world)

section Runs

variable {account : Account} {s : State} {accept : Bool} {outcome : Outcome}

variable {world : World}

theorem run_performAll {steps : List Step} {world' : World} {returned : Option Result}
    (h : performAll account accept steps world = (.ok, world')) :
    Runs.run (State.step account)
        { world := world, running := some (accept, steps), returned := returned }
        (List.replicate (steps.length + 1) (.go .works)) =
      { world := world', running := none, returned := some .ok } := by
  induction steps generalizing world with
  | nil =>
    cases h
    rfl
  | cons next rest ih =>
    rw [performAll] at h
    rw [List.length_cons, List.replicate_succ, Runs.run_cons]
    cases hperform : perform account accept .works world next with
    | mk result after =>
      rw [hperform] at h
      cases result with
      | err => cases h
      | ok =>
        simp only [State.step, hperform]
        exact ih h

/-- What is left when the account is destroyed. -/
theorem performAll_destroy (hdir : world.dir = true)
    (htoken : world.session = true → world.tokenLive = true)
    (hgate : gateLetsPass account accept .works world = true) :
    ∃ world', performAll account accept Command.destroyAccount.steps world = (.ok, world') ∧
      Gone world' := by
  obtain ⟨dir, session, store, snapshot, current, cache, rows, recoveryKey, serverFiles, marked,
    tokenLive⟩ := world
  obtain ⟨backend, recoverable, otherLoggedIn, otherAccounts⟩ := account
  cases hdir
  simp only [Command.steps, logOutPastTheGate, List.cons_append, List.nil_append, performAll,
    perform]
  cases session <;> cases cache <;> cases recoveryKey <;> cases otherLoggedIn <;>
    cases otherAccounts <;> simp_all [remove, Gone]

theorem canBeFinished (hs : Kept s) : CanBeFinished account s := by
  intro hidle
  refine ⟨fun _ => hs.dir, fun accept hgate => ?_⟩
  have htoken : s.world.session = true → s.world.tokenLive = true := by
    intro hsession
    by_contra hlive
    obtain ⟨_, _, hrunning⟩ := hs.token hsession (by simpa using hlive)
    rw [hidle] at hrunning
    cases hrunning
  obtain ⟨world', hall, hgone⟩ := performAll_destroy hs.dir htoken hgate
  have hbegun : State.step account s (.begin .destroyAccount accept) =
      { world := s.world, running := some (accept, Command.destroyAccount.steps)
        returned := none } := by
    simp only [State.step, hidle]
  rw [finishing, Runs.run_cons, hbegun, run_performAll hall]
  exact ⟨rfl, hgone⟩

theorem kept_start (hdir : world.dir = true)
    (htoken : world.session = true → world.tokenLive = true) : Kept (.start world) := by
  refine ⟨hdir, fun hsession hlive => ?_, nofun⟩
  rw [State.start, htoken hsession] at hlive
  cases hlive

/-- Only three steps have to do with the session, its token and the directory. -/
theorem perform_same {next : Step} (hcall : next ≠ .callServer) (hdelete : next ≠ .deleteSession)
    (hdir : next ≠ .removeAccountDir) :
    (perform account accept outcome world next).2.dir = world.dir ∧
      (perform account accept outcome world next).2.session = world.session ∧
      (perform account accept outcome world next).2.tokenLive = world.tokenLive := by
  cases next with
  | callServer => exact (hcall rfl).elim
  | deleteSession => exact (hdelete rfl).elim
  | removeAccountDir => exact (hdir rfl).elim
  | find | gate => exact ⟨rfl, rfl, rfl⟩
  | _ =>
    simp only [perform, remove]
    split_ifs <;> exact ⟨rfl, rfl, rfl⟩

theorem deleteSession_follows {rest : List Step} {command : Command}
    (h : .callServer :: rest <:+ command.steps) : ∃ later, rest = .deleteSession :: later := by
  cases command with
  | logOut | destroyAccount =>
    simp only [Command.steps, logOutPastTheGate, List.cons_append, List.nil_append,
      List.suffix_cons_iff, List.cons.injEq, reduceCtorEq, false_and, false_or, true_and,
      List.suffix_nil] at h
    exact ⟨_, h.resolve_right (by simp)⟩

/-- Nothing runs any more, and the token is not revoked while the session is there. -/
theorem Kept.stops {returned : Option Result} (hdir : world.dir = true)
    (htoken : world.session = true → world.tokenLive = true) :
    Kept { world := world, running := none, returned := returned } := by
  refine ⟨hdir, fun hsession hlive => ?_, nofun⟩
  rw [htoken hsession] at hlive
  cases hlive

/-- The next step has been taken, and the session still has its token. -/
theorem Kept.goesOn (hs : Kept s) {next : Step} {rest : List Step}
    (hrunning : s.running = some (accept, next :: rest)) (hdir : world.dir = true)
    (htoken : world.session = true → world.tokenLive = true) :
    Kept { s with world := world, running := some (accept, rest) } := by
  refine ⟨hdir, fun hsession hlive => ?_, fun accept' left hleft => ?_⟩
  · rw [htoken hsession] at hlive
    cases hlive
  · cases hleft
    obtain ⟨command, hsuffix⟩ := hs.part accept _ hrunning
    exact ⟨command, (List.suffix_cons next rest).trans hsuffix⟩

theorem Kept.tokenLive (hs : Kept s)
    (hnot : ∀ accept rest, s.running ≠ some (accept, .deleteSession :: rest)) :
    s.world.session = true → s.world.tokenLive = true := by
  intro hsession
  by_contra hlive
  obtain ⟨accept, rest, hrunning⟩ := hs.token hsession (by simpa using hlive)
  exact hnot accept rest hrunning

theorem Kept.go (hs : Kept s) (hclear : Clear s (.go outcome) = true) :
    Kept (s.step account (.go outcome)) := by
  cases hrunning : s.running with
  | none =>
    simp only [State.step, hrunning]
    exact hs
  | some running =>
    obtain ⟨accept, left⟩ := running
    cases left with
    | nil =>
      simp only [State.step, hrunning]
      refine Kept.stops hs.dir (hs.tokenLive fun accept' rest h => ?_)
      rw [hrunning] at h
      cases h
    | cons next rest =>
      simp only [Clear, hrunning] at hclear
      simp only [State.step, hrunning]
      by_cases hcall : next = .callServer
      · -- After the token is revoked the session is removed next.
        subst hcall
        have hlive := hs.tokenLive fun accept' rest' h => by rw [hrunning] at h; cases h
        obtain ⟨command, hsuffix⟩ := hs.part accept _ hrunning
        obtain ⟨later, rfl⟩ := deleteSession_follows hsuffix
        by_cases hsession : s.world.session = true
        · cases outcome with
          | works =>
            simp only [perform, hsession, hlive hsession, Bool.not_true, Bool.false_eq_true,
              if_false, if_true]
            refine ⟨hs.dir, fun _ _ => ⟨accept, later, rfl⟩, fun accept' left hleft => ?_⟩
            cases hleft
            exact ⟨command, (List.suffix_cons _ _).trans hsuffix⟩
          | fails =>
            simp only [perform, hsession, Bool.not_true, Bool.false_eq_true, if_false]
            exact Kept.stops hs.dir hlive
          | lost => cases hclear
        · simp only [perform, hsession, Bool.not_false, if_true]
          exact hs.goesOn hrunning hs.dir hlive
      · by_cases hdelete : next = .deleteSession
        · subst hdelete
          have hworks : outcome = .works := by simpa using hclear
          subst hworks
          simp only [perform, remove, if_true]
          split_ifs with hsession
          · refine hs.goesOn hrunning hs.dir fun hthere => ?_
            rw [hthere] at hsession
            cases hsession
          · exact hs.goesOn hrunning hs.dir nofun
        · have hlive := hs.tokenLive fun accept' rest' h => by
            rw [hrunning] at h
            cases h
            exact hdelete rfl
          by_cases hremove : next = .removeAccountDir
          · subst hremove
            have hfails : outcome ≠ .works := by simpa using hclear
            simp only [perform, remove, if_neg hfails]
            exact Kept.stops hs.dir hlive
          · have hsame : (perform account accept outcome s.world next).2.dir = s.world.dir ∧ _ :=
              perform_same hcall hdelete hremove
            obtain ⟨hdir, hsession, htoken⟩ := hsame
            cases hperform : perform account accept outcome s.world next with
            | mk result world =>
              rw [hperform] at hdir hsession htoken
              have hdir' : world.dir = true := hdir.trans hs.dir
              have htoken' : world.session = true → world.tokenLive = true := by
                intro hthere
                exact htoken.trans (hlive (hsession.symm.trans hthere))
              cases result with
              | ok => exact hs.goesOn hrunning hdir' htoken'
              | err => exact Kept.stops hdir' htoken'

theorem Kept.step {action : Action} (hs : Kept s) (hclear : Clear s action = true) :
    Kept (s.step account action) := by
  cases action with
  | begin command accept =>
    cases hrunning : s.running with
    | some running =>
      simp only [State.step, hrunning]
      exact hs
    | none =>
      simp only [State.step, hrunning]
      have hlive := hs.tokenLive fun accept' rest h => by rw [hrunning] at h; cases h
      refine ⟨hs.dir, fun hsession hnot => ?_, fun accept' left hleft => ?_⟩
      · rw [hlive hsession] at hnot
        cases hnot
      · cases hleft
        exact ⟨command, List.suffix_refl _⟩
  | go outcome => exact hs.go hclear
  | kill =>
    refine Kept.stops hs.dir fun hsession => ?_
    simp only [Clear, hsession, Bool.not_true, Bool.false_or] at hclear
    exact hclear
  | revoke =>
    refine ⟨hs.dir, fun hsession _ => ?_, hs.part⟩
    have hnone : s.world.session = false := by simpa [Clear] using hclear
    rw [show s.world.session = true from hsession] at hnone
    cases hnone

end Runs

/-- What is begun can be finished in every run in which no token is revoked without the session
being removed with it, and the directory of the account is not removed before. -/
theorem destruction_can_be_finished (account : Account) (world : World) (actions : List Action)
    (hdir : world.dir = true) (htoken : world.session = true → world.tokenLive = true)
    (hclear : Runs.Along (State.step account) (fun s action => Clear s action = true) (.start world)
      actions) :
    CanBeFinished account (Runs.run (State.step account) (.start world) actions) :=
  canBeFinished (Runs.run_invariant_along Kept (fun _ _ hclear hs => hs.step hclear) actions
    (.start world) hclear (kept_start hdir htoken))

def exampleAccount : Account :=
  { backend := .wbfSdk, recoverable := false, otherLoggedIn := false, otherAccounts := false }

def exampleWorld : World :=
  { dir := true, session := true, store := true, snapshot := true, current := true, cache := true
    rows := true, recoveryKey := true, serverFiles := true, marked := false, tokenLive := true }

/-- A logout that cannot remove the store and a destroy that is killed before its last steps. -/
def exampleActions : List Action :=
  [.begin .logOut false, .go .works, .go .works, .go .works, .go .works, .go .fails,
    .begin .destroyAccount true] ++ List.replicate 11 (.go .works) ++ [.kill]

theorem destruction_can_be_finished_killed :
    CanBeFinished exampleAccount
      (Runs.run (State.step exampleAccount) (.start exampleWorld) exampleActions) := by
  refine destruction_can_be_finished exampleAccount exampleWorld exampleActions rfl (fun _ => rfl) ?_
  exact ⟨rfl, rfl, rfl, rfl, rfl, rfl, rfl, rfl, rfl, rfl, rfl, rfl, rfl, rfl, rfl, rfl, rfl, rfl,
    rfl, trivial⟩

/-- The logout is killed when the server has revoked the token: nothing can be finished after. -/
theorem revoked_token_blocks :
    ¬CanBeFinished exampleAccount
      (Runs.run (State.step exampleAccount) (.start exampleWorld)
        [.begin .logOut true, .go .works, .go .works, .go .works, .kill]) := by
  intro h
  have hok := ((h (by decide +kernel)).2 true (by decide +kernel)).1
  revert hok
  decide +kernel

end AccountDestruction
end WbfMatrixClient
