import WbfMatrixClient.AccountLinksTables

/-!
# The sessions of an account

Whatever is open or in a table belongs to a session that no `log_out` has ended, and whatever a
command or an opening has taken belongs to a session that there has been. An opening that is live
asks for its pool and its engine itself, so what it has taken is as recent as its line.
-/

namespace WbfMatrixClient
namespace AccountLinks

open Function

open LinkPool (LinkRole)

/-- The session is one of those that no `log_out` has ended. -/
def Current (left sessions session : Nat) : Prop :=
  left ≤ session ∧ session < sessions

structure Hands.Known (sessions : Nat) (hands : Hands) : Prop where
  named : ∀ session, hands.named = some session → session < sessions
  pool : ∀ ref, hands.pool = some ref → ref.session < sessions
  engine : ∀ engine, hands.engine = some engine → engine < sessions

structure Hands.Current (left sessions : Nat) (hands : Hands) : Prop where
  pool : ∀ ref, hands.pool = some ref → AccountLinks.Current left sessions ref.session
  engine : ∀ engine, hands.engine = some engine → AccountLinks.Current left sessions engine

structure Task.Current (left sessions : Nat) (task : Task) : Prop where
  line : ∀ session, task.line = some session → AccountLinks.Current left sessions session
  pool : AccountLinks.Current left sessions task.pool.session
  engine : ∀ engine, task.engine = some engine → AccountLinks.Current left sessions engine

structure Recent (s : State) : Prop where
  left : s.left ≤ s.sessions
  hands : ∀ holder, (s.hands holder).Known s.sessions
  sealedSession : ∀ session, s.sealedSession = some session → Current s.left s.sessions session
  entering : ∀ session, s.lifecycle.session = some session → Current s.left s.sessions session
  links : ∀ ref, s.linkPools = some ref → Current s.left s.sessions ref.session
  engine : ∀ engine, s.cryptoEngines = some engine → Current s.left s.sessions engine
  lock : ∀ holder session, s.engineLock = some (holder, session) →
    Current s.left s.sessions session
  rooms : ∀ task, s.roomSyncs = some task → task.Current s.left s.sessions
  keys : ∀ task, s.keySyncs = some task → task.Current s.left s.sessions
  shares : ∀ task, s.keyShares = some task → task.Current s.left s.sessions
  opening : ∀ pool task id role, (s.pools pool).Connects task id role → s.Live pool task →
    (∀ session, (s.openings pool task).session = some session →
      Current s.left s.sessions session) ∧
        (s.hands (.opening pool task)).Current s.left s.sessions
  tokens : ∀ pool id role, (s.pools pool).Holds id role →
    Current s.left s.sessions (s.tokens pool id)

section Sessions

variable {s s' : State}

theorem known_empty (sessions : Nat) : Hands.empty.Known sessions where
  named session h := by cases h
  pool ref h := by cases h
  engine engine h := by cases h

theorem current_empty (left sessions : Nat) : Hands.empty.Current left sessions where
  pool ref h := by cases h
  engine engine h := by cases h

section

variable (hs : Recent s)

include hs

/-- Somebody takes something. -/
theorem Recent.setHands {holder : Holder} {hands : Hands} (hknown : hands.Known s.sessions)
    (hcurrent : (s.hands holder).Current s.left s.sessions → hands.Current s.left s.sessions) :
    Recent (s.setHands holder hands) :=
  { hs with
    hands := by
      intro other
      simp only [State.setHands, update_apply]
      split_ifs
      · exact hknown
      · exact hs.hands other
    opening := by
      intro pool task id role hconn hlive
      obtain ⟨hsession, hbefore⟩ := hs.opening pool task id role hconn hlive
      refine ⟨hsession, ?_⟩
      simp only [State.setHands, update_apply]
      split_ifs with hsame
      · rw [hsame] at hbefore
        exact hcurrent hbefore
      · exact hbefore }

/-- The pools go on: no line is there that was not, and nobody opens one who did not. -/
theorem Recent.setPools {pools : Nat → LinkPool.State}
    (hholds : ∀ pool id role, (pools pool).Holds id role → (s.pools pool).Holds id role)
    (hconnects : ∀ pool task id role, (pools pool).Connects task id role → s.Live pool task →
      (s.pools pool).Connects task id role) :
    Recent { s with pools := pools } :=
  { hs with
    opening := fun pool task id role hconn hlive =>
      hs.opening pool task id role (hconnects pool task id role hconn hlive) hlive
    tokens := fun pool id role hlit => hs.tokens pool id role (hholds pool id role hlit) }

theorem Recent.newPool (place : Nat) :
    Recent { s with pools := update s.pools place .start } := by
  refine hs.setPools (fun pool id role h => ?_) fun pool task id role h _ => ?_
  · rw [update_apply] at h
    split_ifs at h
    · exact (LinkPool.not_hasRole_start id role (LinkPool.hasRole_of_holds h)).elim
    · exact h
  · rw [update_apply] at h
    split_ifs at h
    · exact (LinkPool.not_hasRole_start id role h.2).elim
    · exact h

theorem Recent.poolOfAccount {holder : Holder} (htimely : Timely s (.poolOfAccount holder) = true) :
    Recent (s.poolOfAccount holder) := by
  have hknown := hs.hands holder
  unfold State.poolOfAccount
  split
  · exact hs
  · rename_i session hnamed
    split
    · rename_i ref href
      refine hs.setHands ⟨fun _ h => (by cases h), fun other h => ?_, hknown.engine⟩
        fun hcurrent => ⟨fun other h => ?_, hcurrent.engine⟩
      · cases h
        exact (hs.links ref href).2
      · cases h
        exact hs.links ref href
    · rename_i hnone
      rw [Timely, hnamed, hnone] at htimely
      have hcurrent : Current s.left s.sessions session :=
        ⟨of_decide_eq_true (Bool.and_eq_true_iff.mp htimely).1, hknown.named session hnamed⟩
      have hnew : Recent
          { s with
            made := s.made + 1
            pools := update s.pools s.made .start
            linkPools := some { id := s.made, session := session } } :=
        { hs.newPool s.made with
          links := by
            intro ref href
            cases href
            exact hcurrent }
      refine hnew.setHands ⟨fun _ h => (by cases h), fun other h => ?_, hknown.engine⟩
        fun hbefore => ⟨fun other h => ?_, hbefore.engine⟩
      · cases h
        exact hcurrent.2
      · cases h
        exact hcurrent

theorem Recent.sessionOf {session : Nat} (holder : Holder)
    (hsealed : s.sealedSession = some session) :
    Recent (s.setHands holder { s.hands holder with named := some session }) := by
  have hknown := hs.hands holder
  refine hs.setHands ⟨fun other h => ?_, hknown.pool, hknown.engine⟩
    fun hcurrent => ⟨hcurrent.pool, hcurrent.engine⟩
  cases h
  exact (hs.sealedSession session hsealed).2

/-- The engine of the table, or the one that was opened, is taken. -/
theorem Recent.takeEngine (holder : Holder) {engine : Nat}
    (hengine : Current s.left s.sessions engine) :
    Recent (s.setHands holder { s.hands holder with engine := some engine }) := by
  have hknown := hs.hands holder
  refine hs.setHands ⟨hknown.named, hknown.pool, fun other h => ?_⟩
    fun hcurrent => ⟨hcurrent.pool, fun other h => ?_⟩
  · cases h
    exact hengine.2
  · cases h
    exact hengine

theorem Recent.olmEngineOf (holder : Holder) : Recent (s.olmEngineOf holder) := by
  unfold State.olmEngineOf
  split
  · exact hs
  · rename_i engine _ hengine
    exact hs.takeEngine holder (hs.engine engine hengine)
  · split
    · rename_i session hsealed
      split_ifs
      · refine { hs with lock := ?_ }
        intro other session' h
        cases h
        exact hs.sealedSession session hsealed
      · exact hs
    · exact hs

theorem Recent.engineOpened (ok : Bool) : Recent (s.engineOpened ok) := by
  unfold State.engineOpened
  split
  · rename_i holder session hlock
    have hcurrent := hs.lock holder session hlock
    have hfree : Recent { s with engineLock := none } :=
      { hs with lock := fun _ _ h => (by cases h) }
    dsimp only
    split_ifs
    · have hstored : Recent { s with engineLock := none, cryptoEngines := some session } :=
        { hfree with
          engine := by
            intro engine h
            cases h
            exact hcurrent }
      exact hstored.takeEngine holder hcurrent
    · exact hfree
  · exact hs

theorem Recent.stepPool (hlines : Lines s) (pool : Nat) (action : LinkPool.Action)
    (hclose : action ≠ .closeAll) (hstores : action.stores = none)
    (hstarts : action.starts = none) : Recent (s.stepPool pool action) := by
  have hframe := LinkPool.frame_step (hlines.wired pool) _ hclose
  refine hs.setPools (fun place id role h => ?_) fun place task id role h _ => ?_
  · rw [update_apply] at h
    split_ifs at h with hplace
    · subst hplace
      refine (hframe.holds id role h).resolve_right ?_
      rintro ⟨task, hstore, -⟩
      rw [hstores] at hstore
      cases hstore
    · exact h
  · rw [update_apply] at h
    split_ifs at h with hplace
    · subst hplace
      refine (hframe.connects task id role h).resolve_right fun hstart => ?_
      rw [hstarts] at hstart
      cases hstart
    · exact h

omit hs in
theorem openings_setOpening_of_ne {pool task place other : Nat} {opening : Opening}
    (hne : ¬(place = pool ∧ other = task)) :
    (s.setOpening pool task opening).openings place other = s.openings place other := by
  simp only [State.setOpening, update_apply]
  split_ifs with hplace
  · subst hplace
    rw [update_of_ne fun hother => hne ⟨rfl, hother⟩]
  · rfl

/-- An opening goes on: what it has is recent, if it is live. -/
theorem Recent.setOpening {pool task : Nat} {opening : Opening}
    (hopening : ∀ id role, (s.pools pool).Connects task id role → opening.Live s.revoked → (∀
      session, opening.session = some session → Current s.left s.sessions session) ∧ (s.hands
      (.opening pool task)).Current s.left s.sessions) :
    Recent (s.setOpening pool task opening) :=
  { hs with
    opening := by
      intro place other id role hconn hlive
      by_cases hsame : place = pool ∧ other = task
      · obtain ⟨rfl, rfl⟩ := hsame
        simp only [State.Live, State.setOpening, update_self] at hlive ⊢
        exact hopening id role hconn hlive
      · rcases live_setOpening hlive with ⟨hplace, hother, -⟩ | hbefore
        · exact (hsame ⟨hplace, hother⟩).elim
        · rw [openings_setOpening_of_ne hsame]
          exact hs.opening place other id role hconn hbefore }

/-- A live opening goes on with the session that it has. -/
theorem Recent.advance {pool task session : Nat} {opening : Opening} (hlive : s.Live pool task)
    (hbefore : (s.openings pool task).session = some session)
    (hsession : opening.session = some session) : Recent (s.setOpening pool task opening) := by
  refine hs.setOpening fun id role hconn _ => ?_
  obtain ⟨hcurrent, hhands⟩ := hs.opening pool task id role hconn hlive
  refine ⟨fun other h => hcurrent other ?_, hhands⟩
  rw [hbefore, ← hsession, h]

theorem Recent.openLink (hlines : Lines s) (pool task : Nat) : Recent (s.openLink pool task) := by
  unfold State.openLink
  split
  · rename_i target session htarget hasked hsealed
    have hhands : Recent (s.setHands (.opening pool task) .empty) :=
      hs.setHands (known_empty _) fun _ => current_empty _ _
    have hread : Recent
        ((s.setHands (.opening pool task) .empty).setOpening pool task (.read session)) := by
      refine hhands.setOpening fun id role _ _ => ⟨fun other h => ?_, ?_⟩
      · cases h
        exact hs.sealedSession session hsealed
      · simp only [State.setHands, update_self]
        exact current_empty _ _
    exact hread
  · exact hs.stepPool hlines pool _ (by intro h; cases h) rfl rfl
  · exact hs

theorem Recent.connect (hlines : Lines s) (pool task : Nat) (ok : Bool) :
    Recent (s.connect pool task ok) := by
  unfold State.connect
  split
  · rename_i session hread
    split_ifs with htaken
    · refine hs.advance ?_ (by rw [hread]; rfl) rfl
      rw [State.Live, hread]
      exact (Bool.not_eq_true' _).mp (Bool.and_eq_true_iff.mp htaken).2
    · exact hs.stepPool hlines pool _ (by intro h; cases h) rfl rfl
  · exact hs

theorem Recent.initConnection (pool task : Nat) : Recent (s.initConnection pool task) := by
  have hready : ∀ {session : Nat}, s.openings pool task = .connected session →
      Recent (s.setOpening pool task (.ready session)) :=
    fun hconnected => hs.advance (live_of_connected hconnected) (by rw [hconnected]; rfl) rfl
  have htask : ∀ {session : Nat} {target : Nat × LinkRole} {own : PoolRef} {engine : Option Nat},
      s.openings pool task = .connected session → s.target pool task = some target →
        (s.hands (.opening pool task)).pool = some own →
          (s.hands (.opening pool task)).engine = engine →
            Task.Current s.left s.sessions
              { line := some session, pool := own, engine := engine } := by
    rintro session ⟨id, role⟩ own engine hconnected htarget hpool rfl
    obtain ⟨hcurrent, hhands⟩ := hs.opening pool task id role (connects_of_target htarget)
      (live_of_connected hconnected)
    refine ⟨fun other h => hcurrent other ?_, hhands.pool own hpool, hhands.engine⟩
    rw [hconnected, ← h]
    rfl
  unfold State.initConnection
  dsimp only
  split
  · rename_i session id hconnected htarget
    split
    · rename_i own hpool
      refine { hready hconnected with rooms := ?_ }
      intro found h
      cases h
      exact htask hconnected htarget hpool rfl
    · exact hs
  · rename_i session id hconnected htarget
    split
    · rename_i own engine hpool hengine
      refine { hready hconnected with keys := ?_ }
      intro found h
      cases h
      exact htask hconnected htarget hpool hengine
    · exact hs
  · rename_i session id role _ _ hconnected htarget
    exact hready hconnected
  · exact hs

theorem Recent.skipInitKeys (pool task : Nat) : Recent (s.skipInitKeys pool task) := by
  unfold State.skipInitKeys
  split
  · rename_i session id hconnected htarget
    split_ifs
    · exact hs.advance (live_of_connected hconnected) (by rw [hconnected]; rfl) rfl
    · exact hs
  · exact hs

theorem Recent.keyShareParts {command : Nat} (htimely : Timely s (.keyShareParts command) = true) :
    Recent (s.keyShareParts command) := by
  have hknown := hs.hands (.command command)
  obtain ⟨htimely, -⟩ := Bool.and_eq_true_iff.mp htimely
  obtain ⟨hpools, hengines⟩ := Bool.and_eq_true_iff.mp htimely
  unfold State.keyShareParts
  split
  · rename_i pool engine hpool hengine hnone
    rw [hpool, Option.all_some] at hpools
    rw [hengine, Option.all_some] at hengines
    refine { hs with shares := ?_ }
    intro task h
    cases h
    refine ⟨fun _ h => (by cases h), ⟨of_decide_eq_true hpools, hknown.pool pool hpool⟩,
      fun other h => ?_⟩
    cases h
    exact ⟨of_decide_eq_true hengines, hknown.engine engine hengine⟩
  · exact hs

theorem Recent.opened (hlines : Lines s) (pool task : Nat) (ok : Bool) :
    Recent (s.opened pool task ok) := by
  unfold State.opened
  split
  · rename_i session id role hready htarget
    have hconn := connects_of_target htarget
    have hlive : s.Live pool task := by
      rw [State.Live, hready]
      trivial
    have hcurrent : Current s.left s.sessions session :=
      (hs.opening pool task id role hconn hlive).1 session (by rw [hready]; rfl)
    have hframe := LinkPool.frame_step (hlines.wired pool) (.opened task true)
      (by intro h; cases h)
    refine { hs with
      opening := fun place other id' role' h hlive' => hs.opening place other id' role' ?_ hlive'
      tokens := fun place id' role' h => ?_ }
    · simp only [State.stepPool, update_apply] at h
      split_ifs at h with hplace
      · subst hplace
        exact (hframe.connects other id' role' h).resolve_right fun hstart => by cases hstart
      · exact h
    · by_cases hplace : place = pool
      · subst hplace
        simp only [State.stepPool, update_self] at h ⊢
        by_cases hid : id' = id
        · rw [hid, update_self]
          exact hcurrent
        · rw [update_of_ne hid]
          refine hs.tokens place id' role' ((hframe.holds id' role' h).resolve_right ?_)
          rintro ⟨other, hstore, hother⟩
          cases hstore
          obtain ⟨⟨found, hfound, hphase⟩, -⟩ := hconn
          obtain ⟨⟨found', hfound', hphase'⟩, -⟩ := hother
          rw [hfound] at hfound'
          cases hfound'
          rw [hphase] at hphase'
          cases hphase'
          exact hid rfl
      · simp only [State.stepPool, update_of_ne hplace] at h ⊢
        exact hs.tokens place id' role' h
  · exact hs
  · exact hs.stepPool hlines pool _ (by intro h; cases h) rfl rfl

theorem Recent.call (hlines : Lines s) (pool : Nat) {call : LinkPool.Action}
    (hcall : isCall call = true) : Recent (s.stepPool pool call) := by
  obtain ⟨hclose, hstores, hstarts⟩ := isCall_quiet hcall
  exact hs.stepPool hlines pool call hclose hstores hstarts

theorem Recent.move (hlines : Lines s) (pool : Nat) {action : LinkPool.Action}
    (hmove : isMove action = true) : Recent (s.step (.move pool action)) := by
  simp only [State.step]
  rw [if_pos hmove]
  have hclose : action ≠ .closeAll := by
    rintro rfl
    cases hmove
  have hstores : action.stores = none := by
    cases action with
    | opened task ok => cases hmove
    | _ => rfl
  split
  · rename_i task
    have hframe := LinkPool.frame_step (hlines.wired pool) _ hclose
    refine { hs with
      opening := fun place other id role h hlive => ?_
      tokens := fun place id role h => hs.tokens place id role ?_ }
    · rcases live_setOpening hlive with ⟨-, -, hfalse⟩ | hbefore
      · exact hfalse.elim
      · have hne : ¬(place = pool ∧ other = task) := by
          rintro ⟨rfl, rfl⟩
          simp only [State.Live, State.setOpening, update_self] at hlive
          exact hlive
        rw [openings_setOpening_of_ne hne]
        refine hs.opening place other id role ?_ hbefore
        simp only [State.setOpening, State.stepPool, update_apply] at h
        split_ifs at h with hplace
        · subst hplace
          refine (hframe.connects other id role h).resolve_right fun hstart => ?_
          cases hstart
          exact hne ⟨rfl, rfl⟩
        · exact h
    · simp only [State.setOpening, State.stepPool, update_apply] at h
      split_ifs at h with hplace
      · subst hplace
        refine (hframe.holds id role h).resolve_right ?_
        rintro ⟨_, hstore, _⟩
        cases hstore
      · exact h
  · rename_i hnot
    refine hs.stepPool hlines pool _ hclose hstores ?_
    cases action with
    | lockWrite task => exact (hnot task rfl).elim
    | _ => rfl

/-- A pool is taken out of its table, and its lines are to be closed. -/
theorem Recent.closeAll (pool : Nat) : Recent (s.stepPool pool .closeAll) := by
  refine hs.setPools (fun place id role h => ?_) fun place task id role h _ => ?_
  · rw [update_apply] at h
    split_ifs at h with hplace
    · subst hplace
      exact h
    · exact h
  · rw [update_apply] at h
    split_ifs at h with hplace
    · subst hplace
      exact LinkPool.closeAll_connects.mp h
    · exact h

theorem Recent.closeLinks {closing : Nat → Nat → Lifecycle} {next : Lifecycle}
    (hclosing : ∀ pool task session, (closing pool task).session = some session → Current s.left
      s.sessions session)
    (hnext : ∀ session, next.session = some session → Current s.left s.sessions session) :
    Recent (s.closeLinks closing next) := by
  unfold State.closeLinks
  split
  · rename_i ref href
    exact { hs.closeAll ref.id with
      entering := hclosing _ _
      links := fun _ h => (by cases h) }
  · exact { hs with entering := hnext }

theorem Recent.setLifecycle {lifecycle : Lifecycle}
    (hentering : ∀ session, lifecycle.session = some session → Current s.left s.sessions session) :
    Recent (s.setLifecycle lifecycle) := { hs with entering := hentering }

theorem Recent.giveUp : Recent s.giveUp := { hs with entering := fun _ h => (by cases h) }

/-- When `log_out` returns, every session that there has been is over: nothing of any is left. -/
theorem Recent.logOutReturns (hlines : Lines s) (hgone : Gone s)
    (hphase : s.lifecycle = .loggingOut .cleanUp) :
    Recent { s with lifecycle := .free, left := s.sessions } := by
  have hpast : ∀ stage < 12, s.lifecycle.past stage = true := by
    intro stage h
    rw [hphase]
    exact decide_eq_true h
  have hsealed : s.sealedSession = none := hlines.fits.2 (hpast 7 (by decide))
  have hheld := hlines.unsealed hsealed
  exact {
    left := Nat.le_refl _
    hands := hs.hands
    sealedSession := fun session h => by
      have h : s.sealedSession = some session := h
      rw [hsealed] at h
      cases h
    entering := fun _ h => (by cases h)
    links := fun ref h => by
      have h : s.linkPools = some ref := h
      rw [hgone.links (hpast 8 (by decide))] at h
      cases h
    engine := fun engine h => by
      have h : s.cryptoEngines = some engine := h
      rw [(hgone.engine (hpast 10 (by decide))).1] at h
      cases h
    lock := fun holder session h => by
      have h : s.engineLock = some (holder, session) := h
      rw [(hgone.engine (hpast 10 (by decide))).2] at h
      cases h
    rooms := fun task h => by
      have h : s.roomSyncs = some task := h
      rw [hgone.rooms (.inr hsealed)] at h
      cases h
    keys := fun task h => by
      have h : s.keySyncs = some task := h
      rw [hgone.keys (.inr hsealed)] at h
      cases h
    shares := fun task h => by
      have h : s.keyShares = some task := h
      rw [hgone.shares (hpast 11 (by decide))] at h
      cases h
    opening := fun pool task id role hconn hlive =>
      (hheld pool id role (.inr ⟨task, hconn, hlive⟩)).elim
    tokens := fun pool id role h => (hheld pool id role (.inl h)).elim }

theorem Recent.proceedLogOut (hlines : Lines s) (hgone : Gone s) {phase : LogOut}
    (hphase : s.lifecycle = .loggingOut phase) (ok : Bool) : Recent (s.proceedLogOut ok phase) := by
  cases phase with
  | asking =>
    simp only [State.proceedLogOut]
    split_ifs
    · exact hs.setLifecycle fun _ h => by cases h
    · exact hs
    · exact hs.giveUp
  | stopRoomSync =>
    exact { hs with entering := fun _ h => (by cases h), rooms := fun _ h => (by cases h) }
  | stopKeySync =>
    exact { hs with entering := fun _ h => (by cases h), keys := fun _ h => (by cases h) }
  | stopRoomKeyShare | stopRoomKeyShareAgain =>
    exact { hs with entering := fun _ h => (by cases h), shares := fun _ h => (by cases h) }
  | unsubscribeKeys =>
    simp only [State.proceedLogOut]
    split
    · rename_i ref href
      have hstep : Recent (s.stepPool ref.id (.reuse .keys)) := hs.call hlines ref.id rfl
      exact hstep.setLifecycle fun _ h => by cases h
    · exact hs.setLifecycle fun _ h => by cases h
  | unsubscribing pool task | closing pool task | closingAgain pool task =>
    simp only [State.proceedLogOut]
    split_ifs
    · exact hs.setLifecycle fun _ h => by cases h
    · exact hs
  | closeLinks | closeLinksAgain =>
    simp only [State.proceedLogOut]
    exact hs.closeLinks (fun _ _ _ h => by cases h) fun _ h => by cases h
  | deleteSession =>
    simp only [State.proceedLogOut]
    split_ifs
    · exact { hs with
        entering := fun _ h => (by cases h)
        sealedSession := fun _ h => (by cases h) }
    · exact hs.giveUp
  | forgetCryptoEngine =>
    simp only [State.proceedLogOut]
    split_ifs
    · exact { hs with entering := fun _ h => (by cases h), engine := fun _ h => (by cases h) }
    · exact hs
  | cleanUp =>
    simp only [State.proceedLogOut]
    split_ifs
    · exact hs.logOutReturns hlines hgone hphase
    · exact hs.giveUp

theorem Recent.newSession (wbf : Bool) :
    Recent
      { s with
        sessions := s.sessions + 1
        wbf := update s.wbf s.sessions wbf
        lifecycle := .loggingIn (.closeLinks s.sessions) } := by
  have hmore : ∀ {session : Nat}, Current s.left s.sessions session →
      Current s.left (s.sessions + 1) session :=
    fun h => ⟨h.1, Nat.lt_succ_of_lt h.2⟩
  have htask : ∀ {task : Task}, task.Current s.left s.sessions →
      task.Current s.left (s.sessions + 1) :=
    fun h => ⟨fun session hline => hmore (h.line session hline), hmore h.pool,
      fun engine hengine => hmore (h.engine engine hengine)⟩
  have hhands : ∀ {hands : Hands}, hands.Current s.left s.sessions →
      hands.Current s.left (s.sessions + 1) :=
    fun h => ⟨fun ref href => hmore (h.pool ref href),
      fun engine hengine => hmore (h.engine engine hengine)⟩
  have hknown : ∀ {hands : Hands}, hands.Known s.sessions → hands.Known (s.sessions + 1) :=
    fun h => ⟨fun session hnamed => Nat.lt_succ_of_lt (h.named session hnamed),
      fun ref href => Nat.lt_succ_of_lt (h.pool ref href),
      fun engine hengine => Nat.lt_succ_of_lt (h.engine engine hengine)⟩
  exact {
    left := Nat.le_succ_of_le hs.left
    hands := fun holder => hknown (hs.hands holder)
    sealedSession := fun session h => hmore (hs.sealedSession session h)
    entering := fun session h => by
      cases h
      exact ⟨hs.left, Nat.lt_succ_self _⟩
    links := fun ref h => hmore (hs.links ref h)
    engine := fun engine h => hmore (hs.engine engine h)
    lock := fun holder session h => hmore (hs.lock holder session h)
    rooms := fun task h => htask (hs.rooms task h)
    keys := fun task h => htask (hs.keys task h)
    shares := fun task h => htask (hs.shares task h)
    opening := fun pool task id role hconn hlive =>
      let ⟨hsession, hbefore⟩ := hs.opening pool task id role hconn hlive
      ⟨fun session h => hmore (hsession session h), hhands hbefore⟩
    tokens := fun pool id role h => hmore (hs.tokens pool id role h) }

theorem Recent.revoke (session : Nat) :
    Recent { s with revoked := update s.revoked session true } :=
  { hs with
    opening := fun pool task id role hconn hlive =>
      hs.opening pool task id role hconn (live_of_revoke hlive) }

theorem Recent.proceedLogIn {phase : LogIn} (hphase : s.lifecycle = .loggingIn phase) (ok : Bool) :
    Recent (s.proceedLogIn ok phase) := by
  have hentering := hs.entering
  rw [hphase] at hentering
  cases phase with
  | asking wbf =>
    simp only [State.proceedLogIn]
    split_ifs
    · exact hs.newSession wbf
    · exact hs.giveUp
  | closeLinks session =>
    simp only [State.proceedLogIn]
    exact hs.closeLinks (fun _ _ => hentering) hentering
  | closing session pool task =>
    simp only [State.proceedLogIn]
    split_ifs
    · exact hs.setLifecycle hentering
    · exact hs
  | sealSession session =>
    simp only [State.proceedLogIn]
    split_ifs
    · exact { hs with entering := hentering, sealedSession := hentering }
    · exact hs.giveUp.revoke session
  | closeLinksAgain session =>
    simp only [State.proceedLogIn]
    exact hs.closeLinks (fun _ _ => hentering) fun _ h => by cases h
  | closingAgain session pool task =>
    simp only [State.proceedLogIn]
    split_ifs
    · exact hs.setLifecycle fun _ h => by cases h
    · exact hs

end

end Sessions

end AccountLinks
end WbfMatrixClient
