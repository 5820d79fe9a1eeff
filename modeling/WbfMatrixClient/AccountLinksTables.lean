import WbfMatrixClient.AccountLinksTurns

/-!
# The tables of an account

`log_out` clears one table after the other, and what it has cleared stays clear until the next
login. What is in a table was taken in a session that no `log_out` has ended: the sessions before
`left` are over when it returns.
-/

namespace WbfMatrixClient
namespace AccountLinks

open LinkPool (LinkRole)

/-- What `log_out` has cleared on its way, and what is clear while nobody is logged in. -/
structure Gone (s : State) : Prop where
  rooms : s.lifecycle.past 1 = true ∨ s.sealedSession = none → s.roomSyncs = none
  keys : s.lifecycle.past 2 = true ∨ s.sealedSession = none → s.keySyncs = none
  links : s.lifecycle.past 8 = true → s.linkPools = none
  engine : s.lifecycle.past 10 = true → s.cryptoEngines = none ∧ s.engineLock = none
  shares : s.lifecycle.past 11 = true → s.keyShares = none

/-- The tables of an account, and what tells which of them are to be clear. -/
structure Tables where
  lifecycle : Lifecycle
  sealedSession : Option Nat
  roomSyncs : Option Task
  keySyncs : Option Task
  linkPools : Option PoolRef
  engineLock : Option (Holder × Nat)
  cryptoEngines : Option Nat
  keyShares : Option Task

def State.tables (s : State) : Tables where
  lifecycle := s.lifecycle
  sealedSession := s.sealedSession
  roomSyncs := s.roomSyncs
  keySyncs := s.keySyncs
  linkPools := s.linkPools
  engineLock := s.engineLock
  cryptoEngines := s.cryptoEngines
  keyShares := s.keyShares

section Gone

variable {s s' : State}

section

variable (hs : Gone s)

include hs

theorem Gone.keep (hsame : s'.tables = s.tables) : Gone s' := by
  obtain ⟨hlifecycle, hsealed, hrooms, hkeys, hlinks, hlock, hengines, hshares⟩ :=
    Tables.mk.inj hsame
  constructor
  case rooms =>
    rw [hlifecycle, hsealed, hrooms]
    exact hs.rooms
  case keys =>
    rw [hlifecycle, hsealed, hkeys]
    exact hs.keys
  case links =>
    rw [hlifecycle, hlinks]
    exact hs.links
  case engine =>
    rw [hlifecycle, hengines, hlock]
    exact hs.engine
  case shares =>
    rw [hlifecycle, hshares]
    exact hs.shares

theorem Gone.poolOfAccount {holder : Holder} (htimely : Timely s (.poolOfAccount holder) = true) :
    Gone (s.poolOfAccount holder) := by
  unfold State.poolOfAccount
  split
  · exact hs
  · rename_i session hnamed
    split
    · exact hs.keep rfl
    · rename_i hnone
      rw [Timely, hnamed, hnone] at htimely
      have hpast := (Bool.and_eq_true_iff.mp htimely).2
      refine ⟨hs.rooms, hs.keys, fun h => ?_, hs.engine, hs.shares⟩
      have h : s.lifecycle.past 8 = true := h
      rw [h] at hpast
      cases hpast

theorem Gone.olmEngineOf (hlines : Lines s) (holder : Holder) : Gone (s.olmEngineOf holder) := by
  unfold State.olmEngineOf
  split
  · exact hs
  · exact hs.keep rfl
  · split
    · rename_i session hsealed
      split_ifs
      · refine ⟨hs.rooms, hs.keys, hs.links, fun h => ?_, hs.shares⟩
        have hnone := hlines.fits.2 (past_mono (by decide) h)
        rw [hsealed] at hnone
        cases hnone
      · exact hs
    · exact hs

theorem Gone.engineOpened (ok : Bool) : Gone (s.engineOpened ok) := by
  unfold State.engineOpened
  split
  · rename_i holder session hlock
    have hclear : ∀ {P : Prop}, s.lifecycle.past 10 = true → P := by
      intro P h
      have hnone := (hs.engine h).2
      rw [hlock] at hnone
      cases hnone
    dsimp only
    split_ifs <;> exact ⟨hs.rooms, hs.keys, hs.links, fun h => hclear h, hs.shares⟩
  · exact hs

omit hs in
/-- A subscription task is started for a line that is being opened. -/
theorem held_of_connected {pool task session id : Nat} {role : LinkRole}
    (hconnected : s.openings pool task = .connected session)
    (htarget : s.target pool task = some (id, role)) :
    s.Held pool id role := .inr ⟨task, connects_of_target htarget, live_of_connected hconnected⟩

theorem Gone.initConnection (hlines : Lines s) {pool task : Nat}
    (htimely : Timely s (.initConnection pool task) = true) :
    Gone (s.initConnection pool task) := by
  unfold State.initConnection
  dsimp only
  split
  · rename_i session id hconnected htarget
    rw [Timely, htarget] at htimely
    split
    · refine ⟨fun h => ?_, hs.keys, hs.links, hs.engine, hs.shares⟩
      rcases h with hpast | hnone
      · have hpast : s.lifecycle.past 1 = true := hpast
        simp only [hpast] at htimely
        cases htimely
      · exact (hlines.unsealed hnone pool id _ (held_of_connected hconnected htarget)).elim
    · exact hs
  · rename_i session id hconnected htarget
    rw [Timely, htarget] at htimely
    split
    · refine ⟨hs.rooms, fun h => ?_, hs.links, hs.engine, hs.shares⟩
      rcases h with hpast | hnone
      · have hpast : s.lifecycle.past 2 = true := hpast
        simp only [hpast] at htimely
        cases htimely
      · exact (hlines.unsealed hnone pool id _ (held_of_connected hconnected htarget)).elim
    · exact hs
  · exact hs.keep rfl
  · exact hs

theorem Gone.keyShareParts {command : Nat} (htimely : Timely s (.keyShareParts command) = true) :
    Gone (s.keyShareParts command) := by
  have hpast := (Bool.and_eq_true_iff.mp htimely).2
  unfold State.keyShareParts
  split
  · refine ⟨hs.rooms, hs.keys, hs.links, hs.engine, fun h => ?_⟩
    have h : s.lifecycle.past 11 = true := h
    rw [h] at hpast
    cases hpast
  · exact hs

/-- What is free or logging in has cleared nothing yet, and the session stays as it is. -/
theorem Gone.enter {lifecycle : Lifecycle} (hpast : ∀ stage, lifecycle.past stage = false)
    (hlifecycle : s'.lifecycle = lifecycle)
    (hsealed : s'.sealedSession = none → s.sealedSession = none)
    (hrooms : s'.roomSyncs = s.roomSyncs) (hkeys : s'.keySyncs = s.keySyncs) : Gone s' := by
  have hnot : ∀ {stage : Nat} {P : Prop}, s'.lifecycle.past stage = true → P := by
    intro stage P h
    rw [hlifecycle, hpast] at h
    cases h
  exact ⟨fun h => hrooms.trans (hs.rooms (.inr (h.elim hnot hsealed))),
    fun h => hkeys.trans (hs.keys (.inr (h.elim hnot hsealed))), hnot, hnot, hnot⟩

/-- `log_out` goes on to the next stage: a table that is to be clear there is cleared now, or it
was before. -/
theorem Gone.stage {phase phase' : LogOut} (hphase : s.lifecycle = .loggingOut phase)
    (hphase' : s'.lifecycle = .loggingOut phase')
    (hsealed : s'.sealedSession = none → s.sealedSession = none ∨ 2 < phase.stage)
    (hrooms : s'.roomSyncs = none ∨ s'.roomSyncs = s.roomSyncs ∧ (1 < phase'.stage → 1 <
      phase.stage))
    (hkeys : s'.keySyncs = none ∨ s'.keySyncs = s.keySyncs ∧ (2 < phase'.stage → 2 < phase.stage))
    (hlinks : s'.linkPools = none ∨ s'.linkPools = s.linkPools ∧ (8 < phase'.stage → 8 <
      phase.stage))
    (hengine : s'.cryptoEngines = none ∧ s'.engineLock = none ∨ s'.cryptoEngines = s.cryptoEngines ∧
      s'.engineLock = s.engineLock ∧ (10 < phase'.stage → 10 < phase.stage))
    (hshares : s'.keyShares = none ∨ s'.keyShares = s.keyShares ∧ (11 < phase'.stage → 11 <
      phase.stage)) : Gone s' := by
  obtain ⟨hrooms₀, hkeys₀, hlinks₀, hengine₀, hshares₀⟩ := hs
  rw [hphase] at hrooms₀ hkeys₀ hlinks₀ hengine₀ hshares₀
  have hpast : ∀ {stage : Nat}, s'.lifecycle.past stage = true → stage < phase'.stage := by
    intro stage h
    rw [hphase'] at h
    exact of_decide_eq_true h
  have hbefore : ∀ {stage : Nat}, stage < phase.stage →
      (Lifecycle.loggingOut phase).past stage = true :=
    fun h => decide_eq_true h
  refine ⟨fun h => ?_, fun h => ?_, fun h => ?_, fun h => ?_, fun h => ?_⟩
  · rcases hrooms with hnone | ⟨hsame, hstage⟩
    · exact hnone
    · rw [hsame]
      refine hrooms₀ ?_
      rcases h with h | h
      · exact .inl (hbefore (hstage (hpast h)))
      · rcases hsealed h with hnone | hlate
        · exact .inr hnone
        · exact .inl (hbefore (by omega))
  · rcases hkeys with hnone | ⟨hsame, hstage⟩
    · exact hnone
    · rw [hsame]
      refine hkeys₀ ?_
      rcases h with h | h
      · exact .inl (hbefore (hstage (hpast h)))
      · exact (hsealed h).symm.imp_left hbefore
  · rcases hlinks with hnone | ⟨hsame, hstage⟩
    · exact hnone
    · rw [hsame]
      exact hlinks₀ (hbefore (hstage (hpast h)))
  · rcases hengine with hnone | ⟨hsame, hlock, hstage⟩
    · exact hnone
    · rw [hsame, hlock]
      exact hengine₀ (hbefore (hstage (hpast h)))
  · rcases hshares with hnone | ⟨hsame, hstage⟩
    · exact hnone
    · rw [hsame]
      exact hshares₀ (hbefore (hstage (hpast h)))

/-- `log_out` goes on to a stage that asks for no other table than the pools to be clear. -/
theorem Gone.setStage {phase phase' : LogOut} (hphase : s.lifecycle = .loggingOut phase)
    (hphase' : s'.lifecycle = .loggingOut phase')
    (hsame : s'.tables = { s.tables with lifecycle := s'.lifecycle, linkPools := s'.linkPools })
    (hlinks : s'.linkPools = none ∨ s'.linkPools = s.linkPools ∧ (8 < phase'.stage → 8 <
      phase.stage))
    (hstages : ∀ stage ∈ [1, 2, 10, 11], stage < phase'.stage → stage < phase.stage) : Gone s' := by
  obtain ⟨-, hsealed, hrooms, hkeys, -, hlock, hengines, hshares⟩ := Tables.mk.inj hsame
  exact hs.stage hphase hphase' (fun h => .inl (hsealed.symm.trans h))
    (.inr ⟨hrooms, hstages 1 (by decide)⟩) (.inr ⟨hkeys, hstages 2 (by decide)⟩) hlinks
    (.inr ⟨hengines, hlock, hstages 10 (by decide)⟩) (.inr ⟨hshares, hstages 11 (by decide)⟩)

omit hs in
theorem free_past (stage : Nat) :
    Lifecycle.free.past stage = false := rfl

theorem Gone.proceedLogOut {phase : LogOut} (hphase : s.lifecycle = .loggingOut phase) (ok : Bool) :
    Gone (s.proceedLogOut ok phase) := by
  have hfree : ∀ {s' : State}, s'.lifecycle = .free → s'.sealedSession = s.sealedSession →
      s'.roomSyncs = s.roomSyncs → s'.keySyncs = s.keySyncs → Gone s' :=
    fun hlifecycle hsealed hrooms hkeys =>
      hs.enter free_past hlifecycle (fun h => hsealed.symm.trans h) hrooms hkeys
  cases phase with
  | asking =>
    simp only [State.proceedLogOut]
    split_ifs
    · exact hs.setStage hphase rfl rfl (.inr ⟨rfl, by decide⟩) (by decide)
    · exact hs
    · exact hfree rfl rfl rfl rfl
  | stopRoomSync =>
    exact hs.stage hphase rfl .inl (.inl rfl) (.inr ⟨rfl, by decide⟩) (.inr ⟨rfl, by decide⟩)
      (.inr ⟨rfl, rfl, by decide⟩) (.inr ⟨rfl, by decide⟩)
  | stopKeySync =>
    exact hs.stage hphase rfl .inl (.inr ⟨rfl, by decide⟩) (.inl rfl) (.inr ⟨rfl, by decide⟩)
      (.inr ⟨rfl, rfl, by decide⟩) (.inr ⟨rfl, by decide⟩)
  | stopRoomKeyShare | stopRoomKeyShareAgain =>
    exact hs.stage hphase rfl .inl (.inr ⟨rfl, by decide⟩) (.inr ⟨rfl, by decide⟩)
      (.inr ⟨rfl, by decide⟩) (.inr ⟨rfl, rfl, by decide⟩) (.inl rfl)
  | unsubscribeKeys =>
    simp only [State.proceedLogOut]
    split
    · exact hs.setStage hphase rfl rfl (.inr ⟨rfl, show 8 < 4 → 8 < 4 by decide⟩)
        (show ∀ stage ∈ [1, 2, 10, 11], stage < 4 → stage < 4 by decide)
    · exact hs.setStage hphase rfl rfl (.inr ⟨rfl, by decide⟩) (by decide)
  | unsubscribing pool task =>
    simp only [State.proceedLogOut]
    split_ifs
    · exact hs.setStage hphase rfl rfl (.inr ⟨rfl, show 8 < 5 → 8 < 4 by decide⟩)
        (show ∀ stage ∈ [1, 2, 10, 11], stage < 5 → stage < 4 by decide)
    · exact hs
  | closeLinks =>
    simp only [State.proceedLogOut, State.closeLinks]
    split
    · exact hs.setStage hphase rfl rfl (.inl rfl)
        (show ∀ stage ∈ [1, 2, 10, 11], stage < 6 → stage < 5 by decide)
    · exact hs.setStage hphase rfl rfl (.inr ⟨rfl, by decide⟩) (by decide)
  | closing pool task =>
    simp only [State.proceedLogOut]
    split_ifs
    · exact hs.setStage hphase rfl rfl (.inr ⟨rfl, show 8 < 7 → 8 < 6 by decide⟩)
        (show ∀ stage ∈ [1, 2, 10, 11], stage < 7 → stage < 6 by decide)
    · exact hs
  | deleteSession =>
    simp only [State.proceedLogOut]
    split_ifs
    · exact hs.stage hphase rfl (fun _ => .inr (by decide)) (.inr ⟨rfl, by decide⟩)
        (.inr ⟨rfl, by decide⟩) (.inr ⟨rfl, by decide⟩) (.inr ⟨rfl, rfl, by decide⟩)
        (.inr ⟨rfl, by decide⟩)
    · exact hfree rfl rfl rfl rfl
  | closeLinksAgain =>
    simp only [State.proceedLogOut, State.closeLinks]
    split
    · exact hs.setStage hphase rfl rfl (.inl rfl)
        (show ∀ stage ∈ [1, 2, 10, 11], stage < 9 → stage < 8 by decide)
    · rename_i hnone
      exact hs.setStage hphase rfl rfl (.inl hnone) (by decide)
  | closingAgain pool task =>
    simp only [State.proceedLogOut]
    split_ifs
    · exact hs.setStage hphase rfl rfl (.inr ⟨rfl, show 8 < 10 → 8 < 9 by decide⟩)
        (show ∀ stage ∈ [1, 2, 10, 11], stage < 10 → stage < 9 by decide)
    · exact hs
  | forgetCryptoEngine =>
    simp only [State.proceedLogOut]
    split_ifs with hlock
    · exact hs.stage hphase rfl .inl (.inr ⟨rfl, by decide⟩) (.inr ⟨rfl, by decide⟩)
        (.inr ⟨rfl, by decide⟩) (.inl ⟨rfl, hlock⟩) (.inr ⟨rfl, by decide⟩)
    · exact hs
  | cleanUp =>
    simp only [State.proceedLogOut]
    split_ifs <;> exact hfree rfl rfl rfl rfl

theorem Gone.proceedLogIn (phase : LogIn) (ok : Bool) : Gone (s.proceedLogIn ok phase) := by
  have henter : ∀ {s' : State} {phase' : LogIn}, s'.lifecycle = .loggingIn phase' →
      (s'.sealedSession = none → s.sealedSession = none) → s'.roomSyncs = s.roomSyncs →
        s'.keySyncs = s.keySyncs → Gone s' :=
    fun hlifecycle hsealed hrooms hkeys => hs.enter (fun _ => rfl) hlifecycle hsealed hrooms hkeys
  have hfree : ∀ {s' : State}, s'.lifecycle = .free → s'.sealedSession = s.sealedSession →
      s'.roomSyncs = s.roomSyncs → s'.keySyncs = s.keySyncs → Gone s' :=
    fun hlifecycle hsealed hrooms hkeys =>
      hs.enter free_past hlifecycle (fun h => hsealed.symm.trans h) hrooms hkeys
  cases phase with
  | asking wbf =>
    simp only [State.proceedLogIn]
    split_ifs
    · exact henter rfl (fun h => h) rfl rfl
    · exact hfree rfl rfl rfl rfl
  | closeLinks session =>
    simp only [State.proceedLogIn, State.closeLinks]
    split <;> exact henter rfl (fun h => h) rfl rfl
  | closing session pool task =>
    simp only [State.proceedLogIn]
    split_ifs
    · exact henter rfl (fun h => h) rfl rfl
    · exact hs
  | sealSession session =>
    simp only [State.proceedLogIn]
    split_ifs
    · exact henter rfl (fun h => by cases h) rfl rfl
    · exact hfree rfl rfl rfl rfl
  | closeLinksAgain session =>
    simp only [State.proceedLogIn, State.closeLinks]
    split
    · exact henter rfl (fun h => h) rfl rfl
    · exact hfree rfl rfl rfl rfl
  | closingAgain session pool task =>
    simp only [State.proceedLogIn]
    split_ifs
    · exact hfree rfl rfl rfl rfl
    · exact hs

end

end Gone

end AccountLinks
end WbfMatrixClient
