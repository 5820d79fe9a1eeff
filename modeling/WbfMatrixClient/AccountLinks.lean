import WbfMatrixClient.LinkPoolFrame

/-!
# The lines of an account from one login to the next

`log_in` and `log_out` have the lifecycle lock one at a time; the commands do not take it. Each of
them takes the account's pool with `pool_of_account` or its engine with `olm_engine_of` and keeps
what it took, and a line is opened with the session that is sealed when `open_link` reads it. The
server keeps the tokens: it takes a token that it gave out until a logout takes it back.

An account has one pool at a time in `link_pools`, but a pool that was taken out of it is there as
long as somebody has it.
-/

namespace WbfMatrixClient
namespace AccountLinks

open Function

open LinkPool (LinkRole)

/-- What takes a pool and an engine: a command, or the opening of a line on its own behalf. -/
inductive Holder where
  | command (id : Nat)
  | opening (pool task : Nat)
deriving DecidableEq

/-- A pool, with the session that was read when it was made. -/
structure PoolRef where
  id : Nat
  session : Nat

structure Hands where
  /-- The session that `pool_of_account` has read and not yet looked up the pool of. -/
  named : Option Nat
  pool : Option PoolRef
  /-- The session that the engine was opened with. -/
  engine : Option Nat

def Hands.empty : Hands where
  named := none
  pool := none
  engine := none

/-- Where `open_link` stands, with the session that it read. -/
inductive Opening where
  | asked
  | read (session : Nat)
  | connected (session : Nat)
  | ready (session : Nat)

def Opening.session : Opening → Option Nat
  | .asked => none
  | .read session | .connected session | .ready session => some session

/-- A background task of the account. -/
structure Task where
  /-- The session of the line that it listens on, when it does. -/
  line : Option Nat
  pool : PoolRef
  engine : Option Nat

inductive LogOut where
  | asking
  | stopRoomSync
  | stopKeySync
  | stopRoomKeyShare
  | unsubscribeKeys
  | unsubscribing (pool task : Nat)
  | closeLinks
  | closing (pool task : Nat)
  | deleteSession
  | closeLinksAgain
  | closingAgain (pool task : Nat)
  | forgetCryptoEngine
  | stopRoomKeyShareAgain
  | cleanUp
deriving DecidableEq

def LogOut.stage : LogOut → Nat
  | .asking => 0
  | .stopRoomSync => 1
  | .stopKeySync => 2
  | .stopRoomKeyShare => 3
  | .unsubscribeKeys | .unsubscribing _ _ => 4
  | .closeLinks => 5
  | .closing _ _ => 6
  | .deleteSession => 7
  | .closeLinksAgain => 8
  | .closingAgain _ _ => 9
  | .forgetCryptoEngine => 10
  | .stopRoomKeyShareAgain => 11
  | .cleanUp => 12

/-- Where `log_in` stands, with the session that the server has given. -/
inductive LogIn where
  | asking (wbf : Bool)
  | closeLinks (session : Nat)
  | closing (session pool task : Nat)
  | sealSession (session : Nat)
  | closeLinksAgain (session : Nat)
  | closingAgain (session pool task : Nat)
deriving DecidableEq

def LogIn.session : LogIn → Option Nat
  | .asking _ => none
  | .closeLinks session | .closing session _ _ | .sealSession session | .closeLinksAgain session
  | .closingAgain session _ _ => some session

/-- Who has the lifecycle lock. -/
inductive Lifecycle where
  | free
  | loggingOut (phase : LogOut)
  | loggingIn (phase : LogIn)
deriving DecidableEq

/-- `log_out` is past the stage. -/
def Lifecycle.past : Lifecycle → Nat → Bool
  | .loggingOut phase, stage => stage < phase.stage
  | _, _ => false

/-- The `close_all` that is waited for: the pool, and the call in it. -/
def Lifecycle.closes : Lifecycle → Option (Nat × Nat)
  | .loggingOut (.closing pool task) | .loggingOut (.closingAgain pool task)
  | .loggingIn (.closing _ pool task) | .loggingIn (.closingAgain _ pool task) => some (pool, task)
  | _ => none

def Lifecycle.session : Lifecycle → Option Nat
  | .loggingIn phase => phase.session
  | _ => none

structure State where
  /-- How many sessions the server has given out; they are numbered in order. -/
  sessions : Nat
  /-- Whether the session is with a wbf server. -/
  wbf : Nat → Bool
  revoked : Nat → Bool
  sealedSession : Option Nat
  lifecycle : Lifecycle
  loggingOut : Bool
  /-- How many pools were made. -/
  made : Nat
  pools : Nat → LinkPool.State
  linkPools : Option PoolRef
  /-- Who has the lock of `crypto_engines` while it opens an engine with a session. -/
  engineLock : Option (Holder × Nat)
  cryptoEngines : Option Nat
  roomSyncs : Option Task
  keySyncs : Option Task
  keyShares : Option Task
  hands : Holder → Hands
  openings : Nat → Nat → Opening
  /-- The session that a line was opened with, by pool and slot. -/
  tokens : Nat → Nat → Nat
  /-- How many sessions there had been when `log_out` last returned Ok. -/
  left : Nat

def State.start : State where
  sessions := 0
  wbf := fun _ => false
  revoked := fun _ => false
  sealedSession := none
  lifecycle := .free
  loggingOut := false
  made := 0
  pools := fun _ => .start
  linkPools := none
  engineLock := none
  cryptoEngines := none
  roomSyncs := none
  keySyncs := none
  keyShares := none
  hands := fun _ => .empty
  openings := fun _ _ => .asked
  tokens := fun _ _ => 0
  left := 0

/-- The tables of background tasks whose tasks end by themselves when their line is gone. -/
inductive Table where
  | roomSyncs
  | keySyncs

inductive Action where
  | logIn (wbf : Bool)
  | logOut
  /-- The server takes back the token of the session that is being logged out. -/
  | revoke
  /-- What has the lifecycle lock goes on; `ok` says how what it waited for came out. -/
  | proceed (ok : Bool)
  | sessionOf (holder : Holder)
  | poolOfAccount (holder : Holder)
  | olmEngineOf (holder : Holder)
  | engineOpened (ok : Bool)
  | call (command : Nat) (call : LinkPool.Action)
  | background (pool : Nat) (call : LinkPool.Action)
  | move (pool : Nat) (action : LinkPool.Action)
  | openLink (pool task : Nat)
  | connect (pool task : Nat) (ok : Bool)
  | initConnection (pool task : Nat)
  | skipInitKeys (pool task : Nat)
  | opened (pool task : Nat) (ok : Bool)
  | keyShareParts (command : Nat)
  | ends (table : Table)
  | finish (command : Nat)

/-- What who has the pool may ask it for. -/
def isCall : LinkPool.Action → Bool
  | .acquire _ | .ensureOpen _ | .reuse _ | .close _ => true
  | _ => false

/-- A background task does not open lines. -/
def isBackgroundCall : LinkPool.Action → Bool
  | .reuse _ | .close _ => true
  | _ => false

/-- What happens in a pool between its calls. -/
def isMove : LinkPool.Action → Bool
  | .acquire _ | .ensureOpen _ | .reuse _ | .close _ | .closeAll | .opened _ _ => false
  | _ => true

namespace State

def stepPool (s : State) (pool : Nat) (action : LinkPool.Action) : State :=
  { s with pools := update s.pools pool ((s.pools pool).step action) }

def setHands (s : State) (holder : Holder) (hands : Hands) : State :=
  { s with hands := update s.hands holder hands }

def setOpening (s : State) (pool task : Nat) (opening : Opening) : State :=
  { s with
    openings := update s.openings pool (update (s.openings pool) task opening) }

def setLifecycle (s : State) (lifecycle : Lifecycle) : State :=
  { s with lifecycle := lifecycle }

/-- The slot that the call opens a line in, with its role. -/
def target (s : State) (pool task : Nat) : Option (Nat × LinkRole) :=
  match (s.pools pool).tasks[task]? with
  | some { phase := .connecting id, .. } =>
      ((s.pools pool).slots[id]?).map fun slot => (id, slot.role)
  | _ => none

/-- An opening asks for the pool and the engine when its line is connected. -/
def mayAsk (s : State) : Holder → Bool
  | .command _ => true
  | .opening pool task =>
      match s.openings pool task with
      | .connected _ => (s.target pool task).isSome
      | _ => false

/-- The pool is taken out of the table, and then its lines are closed. -/
def closeLinks (s : State) (closing : Nat → Nat → Lifecycle) (next : Lifecycle) : State :=
  match s.linkPools with
  | some pool =>
      { s.stepPool pool.id .closeAll with
        linkPools := none
        lifecycle := closing pool.id (s.pools pool.id).tasks.length }
  | none => s.setLifecycle next

/-- The call has come to its end. -/
def isDone (s : State) (pool task : Nat) : Bool :=
  ((s.pools pool).tasks[task]?).any fun task => task.phase = .done

/-- The lock is released: the error of one of the steps is returned. -/
def giveUp (s : State) : State :=
  { s with lifecycle := .free, loggingOut := false }

def proceedLogOut (s : State) (ok : Bool) : LogOut → State
  | .asking =>
      if ok then
        if s.sealedSession.all s.revoked then s.setLifecycle (.loggingOut .stopRoomSync) else s
      else
        s.giveUp
  | .stopRoomSync => { s with roomSyncs := none, lifecycle := .loggingOut .stopKeySync }
  | .stopKeySync => { s with keySyncs := none, lifecycle := .loggingOut .stopRoomKeyShare }
  | .stopRoomKeyShare => { s with keyShares := none, lifecycle := .loggingOut .unsubscribeKeys }
  | .unsubscribeKeys =>
      match s.linkPools with
      | some pool =>
          (s.stepPool pool.id (.reuse .keys)).setLifecycle
            (.loggingOut (.unsubscribing pool.id (s.pools pool.id).tasks.length))
      | none => s.setLifecycle (.loggingOut .closeLinks)
  | .unsubscribing pool task =>
      if s.isDone pool task then s.setLifecycle (.loggingOut .closeLinks) else s
  | .closeLinks =>
      s.closeLinks (fun pool task => .loggingOut (.closing pool task)) (.loggingOut .deleteSession)
  | .closing pool task =>
      if s.isDone pool task then s.setLifecycle (.loggingOut .deleteSession) else s
  | .deleteSession =>
      if ok then
        { s with
          sealedSession := none
          loggingOut := false
          lifecycle := .loggingOut .closeLinksAgain }
      else
        s.giveUp
  | .closeLinksAgain =>
      s.closeLinks (fun pool task => .loggingOut (.closingAgain pool task))
        (.loggingOut .forgetCryptoEngine)
  | .closingAgain pool task =>
      if s.isDone pool task then s.setLifecycle (.loggingOut .forgetCryptoEngine) else s
  | .forgetCryptoEngine =>
      if s.engineLock = none then
        { s with cryptoEngines := none, lifecycle := .loggingOut .stopRoomKeyShareAgain }
      else
        s
  | .stopRoomKeyShareAgain => { s with keyShares := none, lifecycle := .loggingOut .cleanUp }
  | .cleanUp => if ok then { s with lifecycle := .free, left := s.sessions } else s.giveUp

def proceedLogIn (s : State) (ok : Bool) : LogIn → State
  | .asking wbf =>
      if ok then
        { s with
          sessions := s.sessions + 1
          wbf := update s.wbf s.sessions wbf
          lifecycle := .loggingIn (.closeLinks s.sessions) }
      else
        s.giveUp
  | .closeLinks session =>
      s.closeLinks (fun pool task => .loggingIn (.closing session pool task))
        (.loggingIn (.sealSession session))
  | .closing session pool task =>
      if s.isDone pool task then s.setLifecycle (.loggingIn (.sealSession session)) else s
  | .sealSession session =>
      if ok then
        { s with
          sealedSession := some session
          lifecycle := .loggingIn (.closeLinksAgain session) }
      else
        -- The token of a login that fails here is logged out again.
        { s.giveUp with revoked := update s.revoked session true }
  | .closeLinksAgain session =>
      s.closeLinks (fun pool task => .loggingIn (.closingAgain session pool task)) .free
  | .closingAgain _ pool task => if s.isDone pool task then s.setLifecycle .free else s

/-- The second half of `pool_of_account`: the pool of the table, or a new one. -/
def poolOfAccount (s : State) (holder : Holder) : State :=
  match (s.hands holder).named with
  | none => s
  | some session =>
      match s.linkPools with
      | some pool => s.setHands holder { s.hands holder with named := none, pool := some pool }
      | none =>
          let pool : PoolRef := { id := s.made, session := session }
          let s : State :=
            { s with
              made := s.made + 1
              pools := update s.pools s.made .start
              linkPools := some pool }
          s.setHands holder { s.hands holder with named := none, pool := some pool }

def olmEngineOf (s : State) (holder : Holder) : State :=
  match s.engineLock, s.cryptoEngines with
  | some _, _ => s
  | none, some engine => s.setHands holder { s.hands holder with engine := some engine }
  | none, none =>
      match s.sealedSession with
      | some session => if s.wbf session then { s with engineLock := some (holder, session) } else s
      | none => s

def engineOpened (s : State) (ok : Bool) : State :=
  match s.engineLock with
  | some (holder, session) =>
      let s : State := { s with engineLock := none }
      if ok then
        { s with cryptoEngines := some session }.setHands holder
          { s.hands holder with engine := some session }
      else
        s
  | none => s

def openLink (s : State) (pool task : Nat) : State :=
  match s.target pool task, s.openings pool task, s.sealedSession with
  | some _, .asked, some session =>
      (s.setOpening pool task (.read session)).setHands (.opening pool task) .empty
  | some _, .asked, none => s.stepPool pool (.opened task false)
  | _, _, _ => s

/-- The server takes the token unless it took it back. -/
def connect (s : State) (pool task : Nat) (ok : Bool) : State :=
  match s.openings pool task with
  | .read session =>
      if ok && !s.revoked session then s.setOpening pool task (.connected session)
      else s.stepPool pool (.opened task false)
  | _ => s

/-- `init_connection`: the two subscription lines start their background task. -/
def initConnection (s : State) (pool task : Nat) : State :=
  let hands := s.hands (.opening pool task)
  match s.openings pool task, s.target pool task with
  | .connected session, some (_, .rooms) =>
      match hands.pool with
      | some own =>
          { s with
            roomSyncs := some { line := some session, pool := own, engine := hands.engine }
          }.setOpening pool task (.ready session)
      | none => s
  | .connected session, some (_, .keys) =>
      match hands.pool, hands.engine with
      | some own, some engine =>
          { s with
            keySyncs := some { line := some session, pool := own, engine := some engine }
          }.setOpening pool task (.ready session)
      | _, _ => s
  | .connected session, some (_, _) => s.setOpening pool task (.ready session)
  | _, _ => s

/-- The keys of an account that is not on a wbf server are not here. -/
def skipInitKeys (s : State) (pool task : Nat) : State :=
  match s.openings pool task, s.target pool task with
  | .connected session, some (_, .keys) =>
      if s.sealedSession.any fun session => !s.wbf session then
        s.setOpening pool task (.ready session)
      else
        s
  | _, _ => s

def opened (s : State) (pool task : Nat) (ok : Bool) : State :=
  match ok, s.openings pool task, s.target pool task with
  | true, .ready session, some (id, _) =>
      { s.stepPool pool (.opened task true) with
        tokens := update s.tokens pool (update (s.tokens pool) id session) }
  | true, _, _ => s
  | false, _, _ => s.stepPool pool (.opened task false)

/-- The end of `key_share_parts`: another one may have started the task meanwhile. -/
def keyShareParts (s : State) (command : Nat) : State :=
  match (s.hands (.command command)).pool, (s.hands (.command command)).engine, s.keyShares with
  | some pool, some engine, none =>
      { s with keyShares := some { line := none, pool := pool, engine := some engine } }
  | _, _, _ => s

def step (s : State) : Action → State
  | .logIn wbf =>
      match s.lifecycle with
      | .free => s.setLifecycle (.loggingIn (.asking wbf))
      | _ => s
  | .logOut =>
      match s.lifecycle, s.sealedSession with
      | .free, some _ => { s with lifecycle := .loggingOut .asking, loggingOut := true }
      | .free, none => s.setLifecycle (.loggingOut .closeLinksAgain)
      | _, _ => s
  | .revoke =>
      match s.lifecycle, s.sealedSession with
      | .loggingOut .asking, some session =>
          { s with revoked := update s.revoked session true }
      | _, _ => s
  | .proceed ok =>
      match s.lifecycle with
      | .free => s
      | .loggingOut phase => s.proceedLogOut ok phase
      | .loggingIn phase => s.proceedLogIn ok phase
  | .sessionOf holder =>
      if s.mayAsk holder && !s.loggingOut then
        match s.sealedSession with
        | some session => s.setHands holder { s.hands holder with named := some session }
        | none => s
      else
        s
  | .poolOfAccount holder => if s.mayAsk holder then s.poolOfAccount holder else s
  | .olmEngineOf holder => if s.mayAsk holder then s.olmEngineOf holder else s
  | .engineOpened ok => s.engineOpened ok
  | .call command call =>
      match (s.hands (.command command)).pool with
      | some pool => if isCall call then s.stepPool pool.id call else s
      | none => s
  | .background pool call =>
      if pool < s.made && isBackgroundCall call then s.stepPool pool call else s
  | .move pool action =>
      if isMove action then
        match action with
        | .lockWrite task => (s.stepPool pool action).setOpening pool task .asked
        | _ => s.stepPool pool action
      else
        s
  | .openLink pool task => s.openLink pool task
  | .connect pool task ok => s.connect pool task ok
  | .initConnection pool task => s.initConnection pool task
  | .skipInitKeys pool task => s.skipInitKeys pool task
  | .opened pool task ok => s.opened pool task ok
  | .keyShareParts command => s.keyShareParts command
  | .ends .roomSyncs => { s with roomSyncs := none }
  | .ends .keySyncs => { s with keySyncs := none }
  | .finish command => s.setHands (.command command) .empty

/-- The slot is one of the pool in the table. -/
def isRegistered (s : State) (pool id : Nat) (role : LinkRole) : Bool :=
  s.linkPools.any fun ref => ref.id = pool && (s.pools pool).map role = some id

/-- The `close_all` under way comes to another slot of the role yet. -/
def closesAnother (s : State) (pool id : Nat) (role : LinkRole) : Bool :=
  match s.lifecycle.closes with
  | none => false
  | some (place, task) =>
      ((s.pools place).tasks[task]?).any fun task =>
        task.phase.drains.any fun other =>
          !(place = pool && other = id) &&
            ((s.pools place).slots[other]?).any fun slot => slot.role = role

end State

/-- What a command or an opening took before a teardown came past is not used after it: no session
is read for a line outside the pool of the table and outside what is closed yet, or while another
slot of the role is closed yet; a pool, a subscription task or a key task is put into its table
only before `log_out` comes past that table for the last time. -/
def Timely (s : State) : Action → Bool
  | .poolOfAccount holder =>
      match (s.hands holder).named, s.linkPools with
      | some session, none => s.left ≤ session && !s.lifecycle.past 8
      | _, _ => true
  | .openLink pool task =>
      match s.target pool task, s.sealedSession with
      | some (id, role), some session =>
          s.revoked session || (s.isRegistered pool id role || (s.pools pool).isDrained id) &&
            !s.closesAnother pool id role
      | _, _ => true
  | .initConnection pool task =>
      match s.target pool task with
      | some (_, .rooms) => !s.lifecycle.past 1
      | some (_, .keys) => !s.lifecycle.past 2
      | _ => true
  | .keyShareParts command =>
      (s.hands (.command command)).pool.all (fun pool => s.left ≤ pool.session) &&
        (s.hands (.command command)).engine.all (fun engine => s.left ≤ engine) &&
          !s.lifecycle.past 11
  | _ => true

end AccountLinks
end WbfMatrixClient
