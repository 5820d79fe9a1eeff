import WbfMatrixClient.AccountLinksLines

/-!
# What a login and a logout do to the lines

One lemma for each stage that does more than go on to the next: the token is taken back, the links
are closed and waited for, and the session is deleted or another one sealed.
-/

namespace WbfMatrixClient
namespace AccountLinks

open Function

open LinkPool (LinkRole)

section Turns

variable {s : State}

section

variable (hs : Lines s)

include hs

/-- Going on to the next stage changes nothing else. -/
theorem Lines.setLifecycle {lifecycle : Lifecycle}
    (howner : ∀ pool task id role, (s.pools pool).Drains task id role → lifecycle.closes = some
      (pool, task)) (hfits : s.Fits lifecycle)
    (hleaving : lifecycle.past 5 = true → ∀ pool id role, s.Held pool id role → s.Drained pool id
      role) :
    Lines (s.setLifecycle lifecycle) :=
  hs.turn ⟨rfl, rfl, fun _ _ h => h⟩ howner hfits hleaving hs.unsealed

/-- While no call closes lines, a turn only has to fit the stage that it goes to. -/
theorem Lines.turnIdle {s' : State} (hcloses : s.lifecycle.closes = none) (hsame : SamePools s s')
    (hfits : s'.Fits s'.lifecycle)
    (hleaving : s'.lifecycle.past 5 = true → ∀ pool id role, s.Held pool id role → s.Drained pool id
      role) (hunsealed : s'.sealedSession = none → ∀ pool id role, ¬s.Held pool id role) :
    Lines s' :=
  hs.turn hsame (fun pool task id role h => (hs.not_drains hcloses pool task id role h).elim) hfits
    hleaving hunsealed

/-- The `close_all` that is waited for is done. -/
theorem Lines.doneClosing {lifecycle : Lifecycle} {place call : Nat}
    (hcloses : s.lifecycle.closes = some (place, call)) (hdone : s.isDone place call = true)
    (hfits : s.Fits lifecycle)
    (hleaving : lifecycle.past 5 = true → ∀ pool id role, s.Held pool id role → s.Drained pool id
      role) : Lines (s.setLifecycle lifecycle) :=
  hs.setLifecycle
    (fun pool task id role h => (hs.not_drains_of_closed hcloses hdone pool task id role h).elim)
    hfits hleaving

theorem Lines.giveUp (hcloses : s.lifecycle.closes = none) : Lines s.giveUp :=
  hs.turnIdle hcloses ⟨rfl, rfl, fun _ _ h => h⟩ ⟨fun h => (by cases h), fun h => (by cases h)⟩
    (fun h => by cases h) hs.unsealed

/-- A stage of `log_out` that is no `close_all` goes on. -/
theorem Lines.nextStage {phase phase' : LogOut} {s' : State}
    (hphase : s.lifecycle = .loggingOut phase)
    (hcloses : (Lifecycle.loggingOut phase).closes = none) (hsame : SamePools s s')
    (hsealed : s'.sealedSession = s.sealedSession) (hrevoked : s'.revoked = s.revoked)
    (hphase' : s'.lifecycle = .loggingOut phase')
    (hstages : 0 < phase.stage ∧ ∀ stage ∈ [5, 7], stage < phase'.stage → stage < phase.stage) :
    Lines s' := by
  obtain ⟨hzero, hstages⟩ := hstages
  have hfits := hs.fits
  have hleaving := hs.leaving
  rw [hphase] at hfits hleaving
  refine hs.turnIdle (by rw [hphase, hcloses]) hsame ⟨fun _ => ?_, fun h => ?_⟩ (fun h => ?_)
    fun hnone => ?_
  · rw [hsealed, hrevoked]
    exact hfits.1 (decide_eq_true hzero)
  · rw [hphase'] at h
    rw [hsealed]
    exact hfits.2 (decide_eq_true (hstages 7 (by decide) (of_decide_eq_true h)))
  · rw [hphase'] at h
    exact hleaving (decide_eq_true (hstages 5 (by decide) (of_decide_eq_true h)))
  · rw [hsealed] at hnone
    exact hs.unsealed hnone

theorem Lines.proceedLogOut {phase : LogOut} (hphase : s.lifecycle = .loggingOut phase)
    (ok : Bool) : Lines (s.proceedLogOut ok phase) := by
  have hfits := hs.fits
  have hleaving := hs.leaving
  rw [hphase] at hfits hleaving
  cases phase with
  | asking =>
    simp only [State.proceedLogOut]
    split_ifs with hok hrevoked
    · refine hs.turnIdle (by rw [hphase]; rfl) ⟨rfl, rfl, fun _ _ h => h⟩
        ⟨fun _ session hsession => ?_, fun h => (by cases h)⟩ (fun h => by cases h) hs.unsealed
      have hsession : s.sealedSession = some session := hsession
      rwa [hsession] at hrevoked
    · exact hs
    · exact hs.giveUp (by rw [hphase]; rfl)
  | stopRoomSync => exact hs.nextStage hphase rfl ⟨rfl, rfl, fun _ _ h => h⟩ rfl rfl rfl (by decide)
  | stopKeySync => exact hs.nextStage hphase rfl ⟨rfl, rfl, fun _ _ h => h⟩ rfl rfl rfl (by decide)
  | stopRoomKeyShare | stopRoomKeyShareAgain =>
    exact hs.nextStage hphase rfl ⟨rfl, rfl, fun _ _ h => h⟩ rfl rfl rfl (by decide)
  | unsubscribeKeys =>
    simp only [State.proceedLogOut]
    split
    · rename_i ref href
      have hstep : Lines (s.stepPool ref.id (.reuse .keys)) := hs.quiet (quiet_call hs ref.id rfl)
      exact hstep.nextStage hphase rfl ⟨rfl, rfl, fun _ _ h => h⟩ rfl rfl rfl
        (show 0 < 4 ∧ ∀ stage ∈ [5, 7], stage < 4 → stage < 4 by decide)
    · exact hs.nextStage hphase rfl ⟨rfl, rfl, fun _ _ h => h⟩ rfl rfl rfl (by decide)
  | unsubscribing pool task =>
    simp only [State.proceedLogOut]
    split_ifs
    · exact hs.nextStage hphase rfl ⟨rfl, rfl, fun _ _ h => h⟩ rfl rfl rfl
        (show 0 < 4 ∧ ∀ stage ∈ [5, 7], stage < 5 → stage < 4 by decide)
    · exact hs
  | closeLinks =>
    simp only [State.proceedLogOut]
    refine hs.closeLinks (by rw [hphase]; rfl) (fun _ _ => rfl) (fun _ _ => ?_) ?_
    · exact ⟨fun _ => hfits.1 rfl, fun h => (by cases h)⟩
    · exact ⟨fun _ => hfits.1 rfl, fun h => (by cases h)⟩
  | closing pool task =>
    simp only [State.proceedLogOut]
    split_ifs with hdone
    · exact hs.doneClosing (by rw [hphase]; rfl) hdone
        ⟨fun _ => hfits.1 rfl, fun h => (by cases h)⟩ fun _ => hleaving rfl
    · exact hs
  | deleteSession =>
    simp only [State.proceedLogOut]
    have hidle := hs.not_drains (by rw [hphase]; rfl)
    split_ifs with hok
    · have hfree : ∀ pool id role, ¬s.Held pool id role := by
        intro pool id role h
        obtain ⟨task, hdrains⟩ := hleaving rfl pool id role h
        exact hidle pool task id role hdrains
      exact hs.turnIdle (by rw [hphase]; rfl) ⟨rfl, rfl, fun _ _ h => h⟩
        ⟨fun _ session h => (by cases h), fun _ => rfl⟩
        (fun _ pool id role h => (hfree pool id role h).elim) fun _ => hfree
    · exact hs.giveUp (by rw [hphase]; rfl)
  | closeLinksAgain =>
    simp only [State.proceedLogOut]
    refine hs.closeLinks (by rw [hphase]; rfl) (fun _ _ => rfl) (fun _ _ => ?_) ?_
    · exact ⟨fun _ => hfits.1 rfl, fun _ => hfits.2 rfl⟩
    · exact ⟨fun _ => hfits.1 rfl, fun _ => hfits.2 rfl⟩
  | closingAgain pool task =>
    simp only [State.proceedLogOut]
    split_ifs with hdone
    · exact hs.doneClosing (by rw [hphase]; rfl) hdone
        ⟨fun _ => hfits.1 rfl, fun _ => hfits.2 rfl⟩ fun _ => hleaving rfl
    · exact hs
  | forgetCryptoEngine =>
    simp only [State.proceedLogOut]
    split_ifs
    · exact hs.nextStage hphase rfl ⟨rfl, rfl, fun _ _ h => h⟩ rfl rfl rfl (by decide)
    · exact hs
  | cleanUp =>
    simp only [State.proceedLogOut]
    split_ifs
    · exact hs.turnIdle (by rw [hphase]; rfl) ⟨rfl, rfl, fun _ _ h => h⟩
        ⟨fun h => (by cases h), fun h => (by cases h)⟩ (fun h => by cases h) hs.unsealed
    · exact hs.giveUp (by rw [hphase]; rfl)

omit hs in
/-- A token that is taken back makes no opening live. -/
theorem live_of_revoke {revoked : Nat → Bool} {session : Nat} {opening : Opening}
    (h : opening.Live (update revoked session true)) : opening.Live revoked := by
  cases opening with
  | asked | connected _ | ready _ => exact h
  | read other =>
    have h : update revoked session true other = false := h
    by_cases hsame : other = session
    · rw [hsame, update_self] at h
      cases h
    · rw [update_of_ne hsame] at h
      exact h

omit hs in
/-- A stage of `log_in` asks nothing of the session that it replaces. -/
theorem fits_loggingIn (s : State) (phase : LogIn) :
    s.Fits (.loggingIn phase) := ⟨fun h => (by cases h), fun h => (by cases h)⟩

theorem Lines.proceedLogIn {phase : LogIn} (hphase : s.lifecycle = .loggingIn phase) (ok : Bool) :
    Lines (s.proceedLogIn ok phase) := by
  cases phase with
  | asking wbf =>
    simp only [State.proceedLogIn]
    split_ifs
    · exact hs.turnIdle (by rw [hphase]; rfl) ⟨rfl, rfl, fun _ _ h => h⟩ (fits_loggingIn _ _)
        (fun h => by cases h) hs.unsealed
    · exact hs.giveUp (by rw [hphase]; rfl)
  | closeLinks session =>
    simp only [State.proceedLogIn]
    exact hs.closeLinks (by rw [hphase]; rfl) (fun _ _ => rfl) (fun _ _ => fits_loggingIn _ _)
      (fits_loggingIn _ _)
  | closing session pool task =>
    simp only [State.proceedLogIn]
    split_ifs with hdone
    · exact hs.doneClosing (by rw [hphase]; rfl) hdone (fits_loggingIn _ _) fun h => by cases h
    · exact hs
  | sealSession session =>
    simp only [State.proceedLogIn]
    split_ifs
    · exact hs.turnIdle (by rw [hphase]; rfl) ⟨rfl, rfl, fun _ _ h => h⟩ (fits_loggingIn _ _)
        (fun h => by cases h) fun h => by cases h
    · exact hs.turnIdle (by rw [hphase]; rfl) ⟨rfl, rfl, fun pool task h => live_of_revoke h⟩
        ⟨fun h => (by cases h), fun h => (by cases h)⟩ (fun h => by cases h) hs.unsealed
  | closeLinksAgain session =>
    simp only [State.proceedLogIn]
    exact hs.closeLinks (by rw [hphase]; rfl) (fun _ _ => rfl) (fun _ _ => fits_loggingIn _ _)
      ⟨fun h => (by cases h), fun h => (by cases h)⟩
  | closingAgain session pool task =>
    simp only [State.proceedLogIn]
    split_ifs with hdone
    · exact hs.doneClosing (by rw [hphase]; rfl) hdone
        ⟨fun h => (by cases h), fun h => (by cases h)⟩ fun h => by cases h
    · exact hs

theorem Lines.logOut : Lines (s.step .logOut) := by
  simp only [State.step]
  split
  · rename_i session hfree hsealed
    exact hs.turnIdle (by rw [hfree]; rfl) ⟨rfl, rfl, fun _ _ h => h⟩
      ⟨fun h => (by cases h), fun h => (by cases h)⟩ (fun h => by cases h) hs.unsealed
  · rename_i hfree hsealed
    refine hs.turnIdle (by rw [hfree]; rfl) ⟨rfl, rfl, fun _ _ h => h⟩
      ⟨fun _ session h => ?_, fun _ => hsealed⟩
      (fun _ pool id role h => (hs.unsealed hsealed pool id role h).elim) hs.unsealed
    have h : s.sealedSession = some session := h
    rw [hsealed] at h
    cases h
  · exact hs

theorem Lines.logIn (wbf : Bool) : Lines (s.step (.logIn wbf)) := by
  simp only [State.step]
  split
  · rename_i hfree
    exact hs.turnIdle (by rw [hfree]; rfl) ⟨rfl, rfl, fun _ _ h => h⟩ (fits_loggingIn _ _)
      (fun h => by cases h) hs.unsealed
  · exact hs

theorem Lines.revoke : Lines (s.step .revoke) := by
  simp only [State.step]
  split
  · rename_i session hasking hsealed
    refine hs.turnIdle (by rw [hasking]; rfl) ⟨rfl, rfl, fun _ _ h => live_of_revoke h⟩ ?_ ?_
      hs.unsealed
    · rw [hasking]
      exact ⟨fun h => (by cases h), fun h => (by cases h)⟩
    · rw [hasking]
      intro h
      cases h
  · exact hs

/-- What happens in a pool between its calls stores no line, and an opening starts afresh. -/
theorem quiet_move (pool : Nat) {action : LinkPool.Action} (hmove : isMove action = true) :
    Quiet s (s.step (.move pool action)) := by
  simp only [State.step]
  rw [if_pos hmove]
  have hclose : action ≠ .closeAll := by
    rintro rfl
    cases hmove
  have hstores : action.stores = none := by
    cases action with
    | opened task ok => cases hmove
    | _ => rfl
  split
  · rename_i task
    refine quiet_of_step hs pool (.lockWrite task) hclose (fun _ h => by cases h) rfl
      (fun place other h => ?_) (fun other h => ?_) rfl ⟨rfl, rfl, rfl⟩
    · rcases live_setOpening h with ⟨-, -, hlive⟩ | hbefore
      · exact hlive.elim
      · exact hbefore
    · cases h
      intro hlive
      simp only [State.Live, State.setOpening, update_self] at hlive
      exact hlive
  · rename_i hnot
    refine quiet_stepPool hs pool hclose (fun _ h => by rw [hstores] at h; cases h) ?_
    cases action with
    | lockWrite task => exact (hnot task rfl).elim
    | _ => rfl

theorem Lines.step {action : Action} (htimely : Timely s action = true) :
    Lines (s.step action) := by
  cases action with
  | logIn wbf => exact hs.logIn wbf
  | logOut => exact hs.logOut
  | revoke => exact hs.revoke
  | proceed ok =>
    simp only [State.step]
    split
    · exact hs
    · rename_i phase hphase
      exact hs.proceedLogOut hphase ok
    · rename_i phase hphase
      exact hs.proceedLogIn hphase ok
  | sessionOf holder =>
    simp only [State.step]
    split_ifs
    · split
      · exact hs.quiet (quiet_setHands hs _ _)
      · exact hs
    · exact hs
  | poolOfAccount holder =>
    simp only [State.step]
    split_ifs
    · exact hs.quiet (quiet_poolOfAccount hs holder)
    · exact hs
  | olmEngineOf holder =>
    simp only [State.step]
    split_ifs
    · exact hs.quiet (quiet_olmEngineOf hs holder)
    · exact hs
  | engineOpened ok => exact hs.quiet (quiet_engineOpened hs ok)
  | call command call =>
    simp only [State.step]
    split
    · split_ifs with hcall
      · exact hs.quiet (quiet_call hs _ hcall)
      · exact hs
    · exact hs
  | background pool call =>
    simp only [State.step]
    split_ifs with hcall
    · exact hs.quiet
        (quiet_call hs pool (isCall_of_isBackgroundCall (Bool.and_eq_true_iff.mp hcall).2))
    · exact hs
  | move pool action =>
    by_cases hmove : isMove action = true
    · exact hs.quiet (quiet_move hs pool hmove)
    · simp only [State.step]
      rw [if_neg hmove]
      exact hs
  | openLink pool task => exact hs.openLink htimely
  | connect pool task ok => exact hs.quiet (quiet_connect hs pool task ok)
  | initConnection pool task => exact hs.quiet (quiet_initConnection hs pool task)
  | skipInitKeys pool task => exact hs.quiet (quiet_skipInitKeys hs pool task)
  | opened pool task ok => exact hs.quiet (quiet_opened hs pool task ok)
  | keyShareParts command => exact hs.quiet (quiet_keyShareParts hs command)
  | ends table =>
    cases table with
    | roomSyncs => exact hs.quiet (quiet_of_pools hs ⟨rfl, rfl, fun _ _ h => h⟩ ⟨rfl, rfl, rfl⟩)
    | keySyncs => exact hs.quiet (quiet_of_pools hs ⟨rfl, rfl, fun _ _ h => h⟩ ⟨rfl, rfl, rfl⟩)
  | finish command => exact hs.quiet (quiet_setHands hs _ _)

end

theorem lines_start : Lines .start := by
  have hheld : ∀ pool id role, ¬State.start.Held pool id role := by
    rintro pool id role (h | ⟨task, h, -⟩)
    · exact LinkPool.not_hasRole_start id role (LinkPool.hasRole_of_holds h)
    · exact LinkPool.not_hasRole_start id role h.2
  exact ⟨fun _ => LinkPool.wired_start,
    fun pool task id role h => (LinkPool.not_hasRole_start id role h.2).elim,
    fun pool id role h => (hheld pool id role h).elim,
    fun pool id _ _ role h => (hheld pool id role h).elim,
    ⟨fun h => (by cases h), fun h => (by cases h)⟩, fun h => (by cases h), fun _ => hheld⟩

end Turns

end AccountLinks
end WbfMatrixClient
