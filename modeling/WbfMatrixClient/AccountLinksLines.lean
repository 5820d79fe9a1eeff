import WbfMatrixClient.AccountLinks

/-!
# The lines of an account

A slot is held when it has a line or one is being opened in it with a token that the server takes
yet. A held slot is one of the pool in the table or one that a `close_all` comes to yet; there is
one of a role; and from the moment `log_out` has taken the token back none is added.
-/

namespace WbfMatrixClient
namespace AccountLinks

open Function

open LinkPool (LinkRole)

/-- The opening has a session whose token the server took or takes yet. -/
def Opening.Live (revoked : Nat → Bool) : Opening → Prop
  | .asked => False
  | .read session => revoked session = false
  | .connected _ | .ready _ => True

namespace State

def Live (s : State) (pool task : Nat) : Prop :=
  (s.openings pool task).Live s.revoked

def Held (s : State) (pool id : Nat) (role : LinkRole) : Prop :=
  (s.pools pool).Holds id role ∨ ∃ task, (s.pools pool).Connects task id role ∧ s.Live pool task

/-- A `close_all` of the pool comes to the slot yet. -/
def Drained (s : State) (pool id : Nat) (role : LinkRole) : Prop :=
  ∃ task, (s.pools pool).Drains task id role

def Registered (s : State) (pool id : Nat) (role : LinkRole) : Prop :=
  ∃ ref, s.linkPools = some ref ∧ ref.id = pool ∧ (s.pools pool).map role = some id

/-- What has come about when `log_out` is past a stage: the token is taken back, and then the
session is gone. -/
def Fits (s : State) (lifecycle : Lifecycle) : Prop :=
  (lifecycle.past 0 = true → ∀ session, s.sealedSession = some session →
    s.revoked session = true) ∧
  (lifecycle.past 7 = true → s.sealedSession = none)

end State

/-- The lines of an account, and what of them is left at each stage of `log_out`. -/
structure Lines (s : State) : Prop where
  wired : ∀ pool, (s.pools pool).Wired
  owner : ∀ pool task id role, (s.pools pool).Drains task id role →
    s.lifecycle.closes = some (pool, task)
  home : ∀ pool id role, s.Held pool id role →
    s.Registered pool id role ∨ s.Drained pool id role
  single : ∀ pool id pool' id' role, s.Held pool id role →
    s.Held pool' id' role ∨ s.Drained pool' id' role → pool = pool' ∧ id = id'
  fits : s.Fits s.lifecycle
  leaving : s.lifecycle.past 5 = true → ∀ pool id role, s.Held pool id role →
    s.Drained pool id role
  unsealed : s.sealedSession = none → ∀ pool id role, ¬s.Held pool id role

/-- The lifecycle, the session and the tokens are as they were. -/
structure Unmoved (s s' : State) : Prop where
  lifecycle : s'.lifecycle = s.lifecycle
  sealedSession : s'.sealedSession = s.sealedSession
  revoked : s'.revoked = s.revoked

/-- The pools are as they were, and no opening has come by a session. -/
structure SamePools (s s' : State) : Prop where
  pools : s'.pools = s.pools
  linkPools : s'.linkPools = s.linkPools
  live : ∀ pool task, s'.Live pool task → s.Live pool task

/-- A step of the commands: no slot is held that was not, and none is passed over that is held. -/
structure Quiet (s s' : State) : Prop extends Unmoved s s' where
  wired : ∀ pool, (s'.pools pool).Wired
  held : ∀ pool id role, s'.Held pool id role → s.Held pool id role
  drains : ∀ pool task id role, (s'.pools pool).Drains task id role →
    (s.pools pool).Drains task id role
  passed : ∀ pool id role, s.Drained pool id role → s'.Held pool id role →
    s'.Drained pool id role
  registered : ∀ pool id role, s.Registered pool id role → s'.Held pool id role →
    s'.Registered pool id role

section Lines

variable {s s' : State}

variable {pool id : Nat} {role : LinkRole}

theorem Quiet.drained (h : Quiet s s') (hdrained : s'.Drained pool id role) :
    s.Drained pool id role := by
  obtain ⟨task, htask⟩ := hdrained
  exact ⟨task, h.drains pool task id role htask⟩

theorem Lines.quiet (hs : Lines s) (h : Quiet s s') :
    Lines s' where
  wired := h.wired
  owner pool task id role hdrains := by
    rw [h.lifecycle]
    exact hs.owner pool task id role (h.drains pool task id role hdrains)
  home pool id role hheld := by
    rcases hs.home pool id role (h.held pool id role hheld) with hregistered | hdrained
    · exact .inl (h.registered pool id role hregistered hheld)
    · exact .inr (h.passed pool id role hdrained hheld)
  single pool id pool' id' role hheld hother :=
    hs.single pool id pool' id' role (h.held pool id role hheld)
      (hother.imp (h.held pool' id' role) h.drained)
  fits := by
    rw [h.lifecycle, State.Fits, h.sealedSession, h.revoked]
    exact hs.fits
  leaving hpast pool id role hheld := by
    rw [h.lifecycle] at hpast
    exact h.passed pool id role (hs.leaving hpast pool id role (h.held pool id role hheld)) hheld
  unsealed hnone pool id role hheld := by
    rw [h.sealedSession] at hnone
    exact hs.unsealed hnone pool id role (h.held pool id role hheld)

theorem quiet_of_pools (hs : Lines s) (hpools : SamePools s s') (hsame : Unmoved s s') :
    Quiet s s' where
  toUnmoved := hsame
  wired pool := by
    rw [hpools.pools]
    exact hs.wired pool
  held pool id role hheld := by
    rw [State.Held, hpools.pools] at hheld
    rcases hheld with hholds | ⟨task, hconn, htask⟩
    · exact .inl hholds
    · exact .inr ⟨task, hconn, hpools.live pool task htask⟩
  drains pool task id role hdrains := by
    rw [hpools.pools] at hdrains
    exact hdrains
  passed pool id role hdrained _ := by
    rw [State.Drained, hpools.pools]
    exact hdrained
  registered pool id role hregistered _ := by
    rw [State.Registered, hpools.pools, hpools.linkPools]
    exact hregistered

/-- One pool takes a step that is no `close_all`, and stores a line only for a live opening. -/
theorem quiet_of_step (hs : Lines s) (pool : Nat) (action : LinkPool.Action)
    (hclose : action ≠ .closeAll) (hstores : ∀ task, action.stores = some task → s.Live pool task)
    (hpools : s'.pools = update s.pools pool ((s.pools pool).step action))
    (hlive : ∀ place task, s'.Live place task → s.Live place task)
    (hstarts : ∀ task, action.starts = some task → ¬s'.Live pool task)
    (hlinks : s'.linkPools = s.linkPools) (hunmoved : Unmoved s s') : Quiet s s' := by
  have hframe := LinkPool.frame_step (hs.wired pool) action hclose
  have hsame : s'.pools pool = (s.pools pool).step action := by rw [hpools, update_self]
  have hother : ∀ place, place ≠ pool → s'.pools place = s.pools place := by
    intro place hne
    rw [hpools, update_of_ne hne]
  refine ⟨hunmoved, fun place => ?_, fun place id role hheld => ?_,
    fun place task id role hdrains => ?_, fun place id role hdrained hheld => ?_,
    fun place id role hregistered _ => ?_⟩
  · by_cases hplace : place = pool
    · rw [hplace, hsame]
      exact hframe.wired
    · rw [hother place hplace]
      exact hs.wired place
  · by_cases hplace : place = pool
    · subst hplace
      rcases hheld with hholds | ⟨task, hconn, htask⟩
      · rw [hsame] at hholds
        rcases hframe.holds id role hholds with hbefore | ⟨task, hstore, hconn⟩
        · exact .inl hbefore
        · exact .inr ⟨task, hconn, hstores task hstore⟩
      · rw [hsame] at hconn
        rcases hframe.connects task id role hconn with hbefore | hstart
        · exact .inr ⟨task, hbefore, hlive place task htask⟩
        · exact (hstarts task hstart htask).elim
    · rw [State.Held, hother place hplace] at hheld
      rcases hheld with hholds | ⟨task, hconn, htask⟩
      · exact .inl hholds
      · exact .inr ⟨task, hconn, hlive place task htask⟩
  · by_cases hplace : place = pool
    · subst hplace
      rw [hsame] at hdrains
      exact hframe.drains task id role hdrains
    · rw [hother place hplace] at hdrains
      exact hdrains
  · by_cases hplace : place = pool
    · subst hplace
      obtain ⟨task, htask⟩ := hdrained
      rw [State.Held, hsame] at hheld
      rw [State.Drained, hsame]
      rcases hframe.passed task id role htask with hlater | hgone
      · exact ⟨task, hlater⟩
      · rcases hheld with hholds | ⟨other, hconn, -⟩
        · exact ((hgone role).1 hholds).elim
        · exact ((hgone role).2 other hconn).elim
    · rw [State.Drained, hother place hplace]
      exact hdrained
  · obtain ⟨ref, href, rfl, hmap⟩ := hregistered
    refine ⟨ref, hlinks.trans href, rfl, ?_⟩
    by_cases hplace : ref.id = pool
    · rw [hplace, hsame]
      rw [hplace] at hmap
      exact hframe.map role id hmap
    · rw [hother ref.id hplace]
      exact hmap

/-- A step of what has the lifecycle lock that leaves the pools alone. -/
theorem Lines.turn (hs : Lines s) (hsame : SamePools s s')
    (howner : ∀ pool task id role, (s.pools pool).Drains task id role → s'.lifecycle.closes = some
      (pool, task)) (hfits : s'.Fits s'.lifecycle)
    (hleaving : s'.lifecycle.past 5 = true → ∀ pool id role, s.Held pool id role → s.Drained pool id
      role) (hunsealed : s'.sealedSession = none → ∀ pool id role, ¬s.Held pool id role) :
    Lines s' := by
  obtain ⟨hpools, hlinks, hlive⟩ := hsame
  have hheld : ∀ {pool id : Nat} {role : LinkRole}, s'.Held pool id role → s.Held pool id role := by
    intro pool id role h
    rw [State.Held, hpools] at h
    exact h.imp_right fun ⟨task, hconn, htask⟩ => ⟨task, hconn, hlive pool task htask⟩
  have hdrained : ∀ pool id role, s'.Drained pool id role ↔ s.Drained pool id role := by
    intro pool id role
    rw [State.Drained, State.Drained, hpools]
  have hregistered : ∀ pool id role, s'.Registered pool id role ↔ s.Registered pool id role := by
    intro pool id role
    rw [State.Registered, State.Registered, hpools, hlinks]
  refine ⟨fun pool => ?_, fun pool task id role h => ?_, fun pool id role h => ?_,
    fun pool id pool' id' role h hother => ?_, hfits, fun hpast pool id role h => ?_,
    fun hnone pool id role h => hunsealed hnone pool id role (hheld h)⟩
  · rw [hpools]
    exact hs.wired pool
  · rw [hpools] at h
    exact howner pool task id role h
  · rw [hregistered, hdrained]
    exact hs.home pool id role (hheld h)
  · rw [hdrained] at hother
    exact hs.single pool id pool' id' role (hheld h) (hother.imp_left hheld)
  · rw [hdrained]
    exact hleaving hpast pool id role (hheld h)

/-- When no `close_all` is waited for, none comes to a slot yet. -/
theorem Lines.not_drains (hs : Lines s) (hcloses : s.lifecycle.closes = none) (pool task id : Nat)
    (role : LinkRole) : ¬(s.pools pool).Drains task id role := by
  intro h
  have howner := hs.owner pool task id role h
  rw [hcloses] at howner
  cases howner

variable {place : Nat}

/-- The `close_all` that is waited for is done, and comes to no slot any more. -/
theorem Lines.not_drains_of_closed (hs : Lines s) {call : Nat}
    (hcloses : s.lifecycle.closes = some (place, call)) (hclosed : s.isDone place call = true)
    (pool task id : Nat) (role : LinkRole) : ¬(s.pools pool).Drains task id role := by
  intro h
  have howner := hs.owner pool task id role h
  rw [hcloses] at howner
  cases howner
  obtain ⟨⟨found, hfound, hin⟩, -⟩ := h
  rw [State.isDone, hfound, Option.any_some] at hclosed
  rw [of_decide_eq_true hclosed] at hin
  cases hin

/-- After a `close_links` every slot that is held is closed yet. -/
theorem Lines.closeLinks (hs : Lines s) {closing : Nat → Nat → Lifecycle} {next : Lifecycle}
    (hcloses : s.lifecycle.closes = none)
    (hclosing : ∀ pool task, (closing pool task).closes = some (pool, task))
    (hfits : ∀ pool task, s.Fits (closing pool task)) (hnext : s.Fits next) :
    Lines (s.closeLinks closing next) := by
  have hidle := hs.not_drains hcloses
  have hhome : ∀ {pool id : Nat} {role : LinkRole}, s.Held pool id role →
      s.Registered pool id role := by
    intro pool id role h
    exact (hs.home pool id role h).resolve_right fun ⟨task, hdrains⟩ =>
      hidle pool task id role hdrains
  unfold State.closeLinks
  split
  · rename_i ref href
    have hsame : ∀ {pool id : Nat} {role : LinkRole}, s.Held pool id role →
        pool = ref.id ∧ (s.pools ref.id).map role = some id := by
      intro pool id role h
      obtain ⟨other, hother, rfl, hmap⟩ := hhome h
      rw [href] at hother
      cases hother
      exact ⟨rfl, hmap⟩
    have hpool : ∀ place, place ≠ ref.id →
        (s.stepPool ref.id .closeAll).pools place = s.pools place :=
      fun place hne => update_of_ne hne ..
    have hself : (s.stepPool ref.id .closeAll).pools ref.id = (s.pools ref.id).step .closeAll :=
      update_self ..
    have hheld : ∀ {pool id : Nat} {role : LinkRole},
        (s.stepPool ref.id .closeAll).Held pool id role → s.Held pool id role := by
      intro pool id role h
      rw [State.Held] at h
      by_cases hplace : pool = ref.id
      · subst hplace
        rw [hself] at h
        exact h.imp_right fun ⟨task, hconn, htask⟩ =>
          ⟨task, LinkPool.closeAll_connects.mp hconn, htask⟩
      · rw [hpool pool hplace] at h
        exact h
    have hdrains : ∀ {pool task id : Nat} {role : LinkRole},
        ((s.stepPool ref.id .closeAll).pools pool).Drains task id role ↔
          pool = ref.id ∧ task = (s.pools ref.id).tasks.length ∧
            (s.pools ref.id).map role = some id := by
      intro pool task id role
      by_cases hplace : pool = ref.id
      · subst hplace
        rw [hself, LinkPool.closeAll_drains (hs.wired ref.id)]
        refine ⟨fun h => ⟨rfl, h.resolve_left (hidle ref.id task id role)⟩, fun h => .inr h.2⟩
      · rw [hpool pool hplace]
        exact ⟨fun h => (hidle pool task id role h).elim, fun h => (hplace h.1).elim⟩
    have hdrained : ∀ {pool id : Nat} {role : LinkRole}, s.Held pool id role →
        (s.stepPool ref.id .closeAll).Drained pool id role :=
      fun h => ⟨_, hdrains.mpr ⟨(hsame h).1, rfl, (hsame h).2⟩⟩
    refine ⟨fun pool => ?_, fun pool task id role h => ?_,
      fun pool id role h => .inr (hdrained (hheld h)),
      fun pool id pool' id' role h hother => ?_, hfits _ _,
      fun _ pool id role h => hdrained (hheld h), fun hnone pool id role h => ?_⟩
    · by_cases hplace : pool = ref.id
      · subst hplace
        exact hself ▸ LinkPool.closeAll_wired (hs.wired ref.id)
      · exact (hpool pool hplace).symm ▸ hs.wired pool
    · obtain ⟨rfl, rfl, -⟩ := hdrains.mp h
      exact hclosing _ _
    · obtain ⟨rfl, hmap⟩ := hsame (hheld h)
      rcases hother with hother | ⟨task, hother⟩
      · obtain ⟨rfl, hmap'⟩ := hsame (hheld hother)
        exact ⟨rfl, Option.some.inj (hmap.symm.trans hmap')⟩
      · obtain ⟨rfl, -, hmap'⟩ := hdrains.mp hother
        exact ⟨rfl, Option.some.inj (hmap.symm.trans hmap')⟩
    · exact hs.unsealed hnone pool id role (hheld h)
  · rename_i hnone
    have hfree : ∀ pool id role, ¬s.Held pool id role := by
      intro pool id role h
      obtain ⟨ref, href, -⟩ := hhome h
      rw [hnone] at href
      cases href
    exact hs.turn ⟨rfl, rfl, fun _ _ h => h⟩
      (fun pool task id role h => (hidle pool task id role h).elim) hnext
      (fun _ pool id role h => (hfree pool id role h).elim) fun _ => hfree

variable {task : Nat} {opening : Opening}

theorem live_setOpening {other : Nat} (h : (s.setOpening pool task opening).Live place other) :
    place = pool ∧ other = task ∧ opening.Live s.revoked ∨ s.Live place other := by
  simp only [State.Live, State.setOpening, update_apply] at h
  by_cases hplace : place = pool
  · subst hplace
    rw [if_pos rfl] at h
    simp only [update_apply] at h
    split_ifs at h with hother
    · exact .inl ⟨rfl, hother, h⟩
    · exact .inr h
  · rw [if_neg hplace] at h
    exact .inr h

/-- An opening goes on, and is live only if it was. -/
theorem live_setOpening_of_live (hopening : opening.Live s.revoked → s.Live pool task) :
    ∀ place other, (s.setOpening pool task opening).Live place other → s.Live place other := by
  intro place other h
  rcases live_setOpening h with ⟨rfl, rfl, hlive⟩ | hbefore
  · exact hopening hlive
  · exact hbefore

theorem quiet_refl (hs : Lines s) :
    Quiet s s := quiet_of_pools hs ⟨rfl, rfl, fun _ _ h => h⟩ ⟨rfl, rfl, rfl⟩

theorem quiet_setHands (hs : Lines s) (holder : Holder) (hands : Hands) :
    Quiet s (s.setHands holder hands) :=
  quiet_of_pools hs ⟨rfl, rfl, fun _ _ h => h⟩ ⟨rfl, rfl, rfl⟩

theorem quiet_setOpening (hs : Lines s) (hopening : opening.Live s.revoked → s.Live pool task) :
    Quiet s (s.setOpening pool task opening) :=
  quiet_of_pools hs ⟨rfl, rfl, live_setOpening_of_live hopening⟩ ⟨rfl, rfl, rfl⟩

theorem quiet_stepPool (hs : Lines s) (pool : Nat) {action : LinkPool.Action}
    (hclose : action ≠ .closeAll) (hstores : ∀ task, action.stores = some task → s.Live pool task)
    (hstarts : action.starts = none) :
    Quiet s (s.stepPool pool action) :=
  quiet_of_step hs pool action hclose hstores rfl (fun _ _ h => h)
    (fun task h => by rw [hstarts] at h; cases h) rfl ⟨rfl, rfl, rfl⟩

theorem quiet_newPool (hs : Lines s) (hnone : s.linkPools = none)
    (hpools : s'.pools = update s.pools place .start)
    (hlive : ∀ pool task, s'.Live pool task → s.Live pool task) (hunmoved : Unmoved s s') :
    Quiet s s' := by
  have hnew : s'.pools place = .start := by rw [hpools, update_self]
  have hother : ∀ pool, pool ≠ place → s'.pools pool = s.pools pool := by
    intro pool hne
    rw [hpools, update_of_ne hne]
  have hheld : ∀ {pool id : Nat} {role : LinkRole}, s'.Held pool id role → pool ≠ place := by
    rintro pool id role h rfl
    rw [State.Held, hnew] at h
    rcases h with h | ⟨task, h, -⟩
    · exact LinkPool.not_hasRole_start id role (LinkPool.hasRole_of_holds h)
    · exact LinkPool.not_hasRole_start id role h.2
  refine ⟨hunmoved, fun pool => ?_, fun pool id role h => ?_, fun pool task id role h => ?_,
    fun pool id role h hlater => ?_, fun pool id role h _ => ?_⟩
  · by_cases hpool : pool = place
    · rw [hpool, hnew]
      exact LinkPool.wired_start
    · rw [hother pool hpool]
      exact hs.wired pool
  · have hpool := hheld h
    rw [State.Held, hother pool hpool] at h
    exact h.imp_right fun ⟨task, hconn, htask⟩ => ⟨task, hconn, hlive pool task htask⟩
  · by_cases hpool : pool = place
    · rw [hpool, hnew] at h
      exact (LinkPool.not_hasRole_start id role h.2).elim
    · rw [hother pool hpool] at h
      exact h
  · rw [State.Drained, hother pool (hheld hlater)]
    exact h
  · obtain ⟨ref, href, -⟩ := h
    rw [hnone] at href
    cases href

variable {call : LinkPool.Action}

theorem isCall_quiet (h : isCall call = true) :
    call ≠ .closeAll ∧ call.stores = none ∧ call.starts = none := by
  cases call with
  | acquire | ensureOpen | reuse | close => exact ⟨(by intro h; cases h), rfl, rfl⟩
  | _ => cases h

theorem isCall_of_isBackgroundCall (h : isBackgroundCall call = true) : isCall call = true := by
  cases call with
  | reuse | close => rfl
  | _ => cases h

section

variable (hs : Lines s)

include hs

theorem quiet_call (pool : Nat) (hcall : isCall call = true) : Quiet s (s.stepPool pool call) := by
  obtain ⟨hclose, hstores, hstarts⟩ := isCall_quiet hcall
  exact quiet_stepPool hs pool hclose (fun _ h => by rw [hstores] at h; cases h) hstarts

theorem quiet_poolOfAccount (holder : Holder) : Quiet s (s.poolOfAccount holder) := by
  unfold State.poolOfAccount
  split
  · exact quiet_refl hs
  · split
    · exact quiet_setHands hs _ _
    · rename_i hnone
      exact quiet_newPool hs hnone rfl (fun _ _ h => h) ⟨rfl, rfl, rfl⟩

theorem quiet_olmEngineOf (holder : Holder) : Quiet s (s.olmEngineOf holder) := by
  unfold State.olmEngineOf
  split
  · exact quiet_refl hs
  · exact quiet_setHands hs _ _
  · split
    · split_ifs
      · exact quiet_of_pools hs ⟨rfl, rfl, fun _ _ h => h⟩ ⟨rfl, rfl, rfl⟩
      · exact quiet_refl hs
    · exact quiet_refl hs

theorem quiet_engineOpened (ok : Bool) : Quiet s (s.engineOpened ok) := by
  unfold State.engineOpened
  split
  · dsimp only
    split_ifs <;> exact quiet_of_pools hs ⟨rfl, rfl, fun _ _ h => h⟩ ⟨rfl, rfl, rfl⟩
  · exact quiet_refl hs

theorem quiet_openingFails (pool task : Nat) :
    Quiet s (s.stepPool pool (.opened task false)) :=
  quiet_stepPool hs pool (by intro h; cases h) (fun _ h => by cases h) rfl

theorem quiet_connect (pool task : Nat) (ok : Bool) : Quiet s (s.connect pool task ok) := by
  unfold State.connect
  split
  · rename_i session hread
    split_ifs with htaken
    · refine quiet_setOpening hs fun _ => ?_
      rw [State.Live, hread]
      exact (Bool.not_eq_true' _).mp (Bool.and_eq_true_iff.mp htaken).2
    · exact quiet_openingFails hs pool task
  · exact quiet_refl hs

omit hs in
theorem live_of_connected {session : Nat} (h : s.openings pool task = .connected session) :
    s.Live pool task := by
  rw [State.Live, h]
  trivial

theorem quiet_initConnection (pool task : Nat) : Quiet s (s.initConnection pool task) := by
  unfold State.initConnection
  dsimp only
  split
  · rename_i session id hconnected htarget
    split
    · exact quiet_of_pools hs
        ⟨rfl, rfl, live_setOpening_of_live fun _ => live_of_connected hconnected⟩ ⟨rfl, rfl, rfl⟩
    · exact quiet_refl hs
  · rename_i session id hconnected htarget
    split
    · exact quiet_of_pools hs
        ⟨rfl, rfl, live_setOpening_of_live fun _ => live_of_connected hconnected⟩ ⟨rfl, rfl, rfl⟩
    · exact quiet_refl hs
  · rename_i session id role _ _ hconnected htarget
    exact quiet_setOpening hs fun _ => live_of_connected hconnected
  · exact quiet_refl hs

theorem quiet_skipInitKeys (pool task : Nat) : Quiet s (s.skipInitKeys pool task) := by
  unfold State.skipInitKeys
  split
  · rename_i session id hconnected htarget
    split_ifs
    · exact quiet_setOpening hs fun _ => live_of_connected hconnected
    · exact quiet_refl hs
  · exact quiet_refl hs

theorem quiet_opened (pool task : Nat) (ok : Bool) : Quiet s (s.opened pool task ok) := by
  unfold State.opened
  split
  · rename_i session id role hready htarget
    refine quiet_of_step hs pool (.opened task true) (by intro h; cases h) (fun other h => ?_) rfl
      (fun _ _ h => h) (fun other h => by cases h) rfl ⟨rfl, rfl, rfl⟩
    cases h
    rw [State.Live, hready]
    trivial
  · exact quiet_refl hs
  · exact quiet_openingFails hs pool task

theorem quiet_keyShareParts (command : Nat) : Quiet s (s.keyShareParts command) := by
  unfold State.keyShareParts
  split
  · exact quiet_of_pools hs ⟨rfl, rfl, fun _ _ h => h⟩ ⟨rfl, rfl, rfl⟩
  · exact quiet_refl hs

end

theorem past_mono {lifecycle : Lifecycle} {stage stage' : Nat} (hle : stage ≤ stage')
    (h : lifecycle.past stage' = true) : lifecycle.past stage = true := by
  cases lifecycle with
  | free | loggingIn phase => cases h
  | loggingOut phase => exact decide_eq_true (Nat.lt_of_le_of_lt hle (of_decide_eq_true h))

theorem connects_of_target (h : s.target pool task = some (id, role)) :
    (s.pools pool).Connects task id role := by
  unfold State.target at h
  split at h
  · rename_i born place htask
    obtain ⟨slot, hslot, heq⟩ := Option.map_eq_some_iff.mp h
    cases heq
    exact ⟨⟨_, htask, rfl⟩, slot, hslot, rfl⟩
  · cases h

theorem registered_of_isRegistered (h : s.isRegistered pool id role = true) :
    s.Registered pool id role := by
  unfold State.isRegistered at h
  cases href : s.linkPools with
  | none =>
    rw [href] at h
    cases h
  | some ref =>
    rw [href, Option.any_some, Bool.and_eq_true] at h
    exact ⟨ref, href, of_decide_eq_true h.1, of_decide_eq_true h.2⟩

theorem Lines.not_drained_of_closesAnother (hs : Lines s) (h : s.closesAnother pool id role = false)
    {other : Nat} (hdrained : s.Drained place other role) : place = pool ∧ other = id := by
  obtain ⟨task, hdrains⟩ := hdrained
  have howner := hs.owner place task other role hdrains
  obtain ⟨⟨found, hfound, hin⟩, slot, hslot, hrole⟩ := hdrains
  by_contra hne
  have htrue : s.closesAnother pool id role = true := by
    rw [State.closesAnother, howner]
    simp only [hfound, Option.any_some, List.any_eq_true]
    refine ⟨other, hin, ?_⟩
    rw [hslot, Option.any_some, Bool.and_eq_true]
    refine ⟨?_, decide_eq_true hrole⟩
    rw [Bool.not_eq_true', Bool.and_eq_false_iff, decide_eq_false_iff_not, decide_eq_false_iff_not]
    exact not_and_or.mp hne
  rw [h] at htrue
  cases htrue

/-- A session is read for a slot where nothing stands in the way. -/
theorem Lines.openLink (hs : Lines s) {pool task : Nat}
    (htimely : Timely s (.openLink pool task) = true) : Lines (s.openLink pool task) := by
  unfold State.openLink
  split
  · rename_i target session htarget hasked hsealed
    obtain ⟨id, role⟩ := target
    have hconn := connects_of_target htarget
    rw [Timely, htarget, hsealed] at htimely
    by_cases hrevoked : s.revoked session = true
    · have hopening : Lines (s.setOpening pool task (.read session)) := by
        refine hs.quiet (quiet_setOpening hs fun hlive => ?_)
        have hfalse : s.revoked session = false := hlive
        rw [hrevoked] at hfalse
        cases hfalse
      exact hopening.quiet (quiet_setHands hopening _ _)
    · simp only [hrevoked, Bool.false_or, Bool.and_eq_true, Bool.or_eq_true,
        Bool.not_eq_true'] at htimely
      obtain ⟨hplace, hnone⟩ := htimely
      have hown : s.Registered pool id role ∨ s.Drained pool id role := by
        refine hplace.imp registered_of_isRegistered fun hdrained => ?_
        obtain ⟨call, found, hfound, hin⟩ := LinkPool.isDrained_iff.mp hdrained
        exact ⟨call, ⟨found, hfound, hin⟩, hconn.2⟩
      have halone : ∀ {place other : Nat}, s.Drained place other role → place = pool ∧ other = id :=
        hs.not_drained_of_closesAnother hnone
      -- A slot of the role that was held before is the same one.
      have hsingle : ∀ {place other : Nat}, s.Held place other role →
          place = pool ∧ other = id := by
        intro place other hheld
        rcases hs.home place other role hheld with ⟨ref, href, rfl, hmap⟩ | hdrained
        · rcases hown with ⟨ref', href', rfl, hmap'⟩ | hdrained
          · rw [href] at href'
            cases href'
            exact ⟨rfl, Option.some.inj (hmap.symm.trans hmap')⟩
          · exact hs.single ref.id other pool id role hheld (.inr hdrained)
        · exact halone hdrained
      have hheld : ∀ {place other : Nat} {role' : LinkRole},
          ((s.setOpening pool task (.read session)).setHands (.opening pool task) .empty).Held place
            other role' → s.Held place other role' ∨ place = pool ∧ other = id ∧ role' = role := by
        rintro place other role' (hholds | ⟨call, hcall, hlive⟩)
        · exact .inl (.inl hholds)
        · rcases live_setOpening hlive with ⟨rfl, rfl, -⟩ | hbefore
          · right
            obtain ⟨⟨found, hfound, hphase⟩, hrole⟩ := hcall
            obtain ⟨⟨found', hfound', hphase'⟩, hrole'⟩ := hconn
            have hfound : (s.pools place).tasks[call]? = some found := hfound
            rw [hfound] at hfound'
            cases hfound'
            rw [hphase] at hphase'
            cases hphase'
            exact ⟨rfl, rfl, LinkPool.hasRole_unique hrole hrole'⟩
          · exact .inl (.inr ⟨call, hcall, hbefore⟩)
      refine ⟨hs.wired, hs.owner, fun place other role' h => ?_,
        fun place other place' other' role' h h' => ?_, hs.fits, fun hpast => ?_,
        fun hsealed' => ?_⟩
      · rcases hheld h with hbefore | ⟨rfl, rfl, rfl⟩
        · exact hs.home place other role' hbefore
        · exact hown
      · rcases hheld h with hbefore | ⟨rfl, rfl, rfl⟩
        · rcases h' with h' | h'
          · rcases hheld h' with hbefore' | ⟨rfl, rfl, rfl⟩
            · exact hs.single place other place' other' role' hbefore (.inl hbefore')
            · exact hsingle hbefore
          · exact hs.single place other place' other' role' hbefore (.inr h')
        · rcases h' with h' | h'
          · rcases hheld h' with hbefore' | ⟨rfl, rfl, -⟩
            · exact (hsingle hbefore').imp Eq.symm Eq.symm
            · exact ⟨rfl, rfl⟩
          · exact (halone h').imp Eq.symm Eq.symm
      · exact (hrevoked (hs.fits.1 (past_mono (Nat.zero_le 5) hpast) session hsealed)).elim
      · have hsealed' : s.sealedSession = none := hsealed'
        rw [hsealed] at hsealed'
        cases hsealed'
  · exact hs.quiet (quiet_openingFails hs pool task)
  · exact hs

end Lines

end AccountLinks
end WbfMatrixClient
