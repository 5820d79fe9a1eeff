import WbfMatrixClient.Lib.Runs

/-!
# The cache of a server and its removal

All accounts of a server share one cache, which stays open in a registry while commands take it and
give it back. When nobody is logged in any more it is closed and its files are removed. The registry
has a lock, and the removal of the files comes after the lock is given back: a command that has begun
before the logout can open the cache again in between.
-/

namespace WbfMatrixClient
namespace ServerCaches

/-- The files that an open cache has: the database and the log of its writes. A file that has been
removed is another one than the next of the same name. -/
structure CacheFiles where
  database : Nat
  log : Nat
deriving DecidableEq

inductive OpenWhen where
  | always
  | fileExists

/-- An open cache with the writes that are queued. -/
structure ServerCache (W : Type) where
  id : Nat
  files : CacheFiles
  queue : List W

/-- How far a logout or a destruction has come that has found nobody left. -/
inductive Phase where
  | idle
  | closing
  | closed
  | removing
deriving DecidableEq

/-- The directory of one server and what is open of it. -/
structure ServerDir (A W : Type) where
  accounts : List A
  loggedIn : List A
  database : Option Nat
  log : Option Nat
  /-- Which server a database is of, if it can be opened and has the schema of today. -/
  recorded : Nat → Option String
  contents : CacheFiles → List W
  next : Nat
  caches : List (ServerCache W)
  registry : Option Nat
  /-- The open caches that commands hold, once for each command. -/
  held : List Nat
  /-- A logout or a destruction keeps the others and all logins out. -/
  phase : Phase
  /-- What was committed since the last removal has begun. -/
  committed : List W

inductive Action (A W : Type) where
  | logIn (account : A)
  | logOut (account : A)
  | removeAccountDirs (account : A)
  | openCache (server : String) (openWhen : OpenWhen)
  | giveBack (id : Nat)
  | send (id : Nat) (work : W)
  /-- The writer takes the next job, which succeeds or not. -/
  | write (id : Nat) (isOk : Bool)
  | closeCache
  | startRemoval
  | removeDatabase
  | removeLog
  | endRemoval

section Dirs

variable {A W : Type} [DecidableEq A] (hostOf : String → String) (path : String)

namespace ServerDir

/-- The database that is there, if it can be used. -/
def usable (d : ServerDir A W) : Option (Nat × String) :=
  d.database.bind fun database => (d.recorded database).map fun server => (database, server)

/-- The files are opened as they are, or new ones take their place. -/
def openFiles (d : ServerDir A W) (server : String) : ServerDir A W × CacheFiles :=
  match d.usable with
  | some (database, _) =>
      let log := d.log.getD d.next
      ({ d with log := some log, next := d.next + 1 }, ⟨database, log⟩)
  | none =>
      ({ d with
          database := some d.next
          log := some (d.next + 1)
          recorded := Function.update d.recorded d.next (some server)
          next := d.next + 2 }, ⟨d.next, d.next + 1⟩)

def register (d : ServerDir A W) (files : CacheFiles) : ServerDir A W :=
  { d with
    caches := ⟨d.next, files, []⟩ :: d.caches
    registry := some d.next
    held := d.next :: d.held
    next := d.next + 1 }

def openServerCache (d : ServerDir A W) (server : String) (openWhen : OpenWhen) :
    ServerDir A W × Except String (Option Nat) :=
  match d.registry with
  | some id => ({ d with held := id :: d.held }, .ok (some id))
  | none =>
      match d.usable, openWhen with
      | some (_, recorded), _ =>
          if hostOf recorded ≠ hostOf server then
            (d, .error ("the cache in " ++ path ++ " belongs to " ++ recorded ++ ", not " ++ server ++
              "; it was left untouched"))
          else
            let (opened, files) := d.openFiles recorded
            (opened.register files, .ok (some opened.next))
      | none, .fileExists => (d, .ok none)
      | none, .always =>
          let (opened, files) := d.openFiles server
          (opened.register files, .ok (some opened.next))

/-- These writes are committed to the files. -/
def commit (d : ServerDir A W) (files : CacheFiles) (works : List W) : ServerDir A W :=
  { d with
    contents := Function.update d.contents files (d.contents files ++ works)
    committed := d.committed ++ works }

def updateCache (d : ServerDir A W) (id : Nat) (f : ServerCache W → ServerCache W) :
    ServerDir A W :=
  { d with caches := d.caches.map fun cache => if cache.id = id then f cache else cache }

def findCache (d : ServerDir A W) (id : Nat) : Option (ServerCache W) :=
  d.caches.find? fun cache => cache.id = id

/-- Nobody else has it: what is queued is written, and the cache is closed. -/
def closeServerCache (d : ServerDir A W) : ServerDir A W × Except String Bool :=
  match d.registry with
  | none => (d, .ok false)
  | some id =>
      if id ∈ d.held then
        (d, .error ("cache.db is still in use by another request, so it cannot be closed and removed " ++
          "yet; try again"))
      else
        match d.findCache id with
        | none => ({ d with registry := none }, .ok true)
        | some cache =>
            ({ d.commit cache.files cache.queue with
                registry := none
                caches := d.caches.filter fun other => other.id ≠ id }, .ok true)

def step (d : ServerDir A W) : Action A W → ServerDir A W
  | .logIn account =>
      if d.phase = .idle then
        { d with
          accounts := account :: d.accounts.erase account
          loggedIn := account :: d.loggedIn.erase account }
      else d
  | .logOut account =>
      if d.phase = .idle then
        let loggedIn := d.loggedIn.filter fun other => other ≠ account
        { d with loggedIn := loggedIn, phase := if loggedIn.isEmpty then .closing else .idle }
      else d
  | .removeAccountDirs account =>
      if d.phase = .idle then
        let accounts := d.accounts.filter fun other => other ≠ account
        { d with accounts := accounts, phase := if accounts.isEmpty then .closing else .idle }
      else d
  | .openCache server openWhen => (d.openServerCache hostOf path server openWhen).1
  | .giveBack id => { d with held := d.held.erase id }
  | .send id work =>
      if id ∈ d.held then
        d.updateCache id fun cache => { cache with queue := cache.queue ++ [work] }
      else d
  | .write id isOk =>
      match d.findCache id with
      | none => d
      | some cache =>
          match cache.queue with
          | [] => d
          | work :: rest =>
              let written := if isOk then d.commit cache.files [work] else d
              written.updateCache id fun cache => { cache with queue := rest }
  | .closeCache =>
      if d.phase = .closing then
        match d.closeServerCache with
        | (after, .ok _) => { after with phase := .closed }
        | (after, .error _) => { after with phase := .idle }
      else d
  | .startRemoval =>
      if d.phase = .closed then { d with phase := .removing, committed := [] } else d
  | .removeDatabase => if d.phase = .removing then { d with database := none } else d
  | .removeLog => if d.phase = .removing then { d with log := none } else d
  | .endRemoval => { d with phase := .idle }

/-- Nothing is open yet. -/
def start (accounts loggedIn : List A) (database log : Option Nat)
    (recorded : Nat → Option String) (contents : CacheFiles → List W) (next : Nat) :
    ServerDir A W where
  accounts := accounts
  loggedIn := loggedIn
  database := database
  log := log
  recorded := recorded
  contents := contents
  next := next
  caches := []
  registry := none
  held := []
  phase := .idle
  committed := []

end ServerDir

end Dirs

section Alone

variable {A W : Type} {hostOf : String → String} {path : String} {d : ServerDir A W}

/-- There is no open cache, or it is the one of the registry, and all commands hold that one. -/
def IsAlone (d : ServerDir A W) : Prop :=
  (d.caches = [] ∧ d.registry = none ∧ d.held = []) ∨
    ∃ cache, d.caches = [cache] ∧ d.registry = some cache.id ∧ ∀ id ∈ d.held, id = cache.id

/-- The files are there, and the database can be used. -/
def AreThere (d : ServerDir A W) (files : CacheFiles) : Prop :=
  d.database = some files.database ∧ d.log = some files.log ∧
    (d.recorded files.database).isSome = true

/-- What opening the files leaves: they are there, and they are those that were there before if these
can be used. -/
theorem openFiles_cases (d : ServerDir A W) (server : String) :
    let opened := d.openFiles server
    AreThere opened.1 opened.2 ∧ (∀ files, AreThere d files → opened.2 = files) ∧
      opened.1.caches = d.caches ∧ opened.1.held = d.held ∧ opened.1.phase = d.phase ∧
        opened.1.committed = d.committed ∧ opened.1.contents = d.contents := by
  unfold ServerDir.openFiles
  cases husable : d.usable with
  | some p =>
    obtain ⟨database, recorded⟩ := p
    obtain ⟨found, hfound, hmap⟩ := Option.bind_eq_some_iff.mp husable
    obtain ⟨server, hserver, heq⟩ := Option.map_eq_some_iff.mp hmap
    cases heq
    refine ⟨⟨hfound, rfl, ?_⟩, ?_, rfl, rfl, rfl, rfl, rfl⟩
    · dsimp only
      rw [hserver]
      rfl
    · rintro ⟨other, log⟩ ⟨hdatabase, hlog, -⟩
      cases hfound.symm.trans hdatabase
      dsimp only at hlog ⊢
      rw [hlog, Option.getD_some]
  | none =>
    refine ⟨⟨rfl, rfl, ?_⟩, ?_, rfl, rfl, rfl, rfl, rfl⟩
    · dsimp only
      rw [Function.update_self]
      rfl
    · rintro files ⟨hdatabase, -, hrecorded⟩
      obtain ⟨server, hserver⟩ := Option.isSome_iff_exists.mp hrecorded
      rw [ServerDir.usable, hdatabase, Option.bind_some, hserver] at husable
      cases husable

/-- A cache is opened anew. -/
def Opens (hostOf : String → String) (d : ServerDir A W) (server : String) (openWhen : OpenWhen) :
    Prop :=
  d.registry = none ∧
    match d.usable, openWhen with
    | some (_, recorded), _ => hostOf recorded = hostOf server
    | none, .fileExists => False
    | none, .always => True

/-- Opening changes nothing, or gives out the open cache once more, or opens the files. -/
theorem openServerCache_cases (hostOf : String → String) (path : String) (d : ServerDir A W)
    (server : String) (openWhen : OpenWhen) :
    let after := (d.openServerCache hostOf path server openWhen).1
    after = d ∨ (∃ id, d.registry = some id ∧ after = { d with held := id :: d.held }) ∨
      ∃ server', Opens hostOf d server openWhen ∧
        after = (d.openFiles server').1.register (d.openFiles server').2 := by
  unfold ServerDir.openServerCache Opens
  cases hregistry : d.registry with
  | some id => exact .inr (.inl ⟨id, rfl, rfl⟩)
  | none =>
    cases husable : d.usable with
    | some p =>
      obtain ⟨database, recorded⟩ := p
      dsimp only
      by_cases hhost : hostOf recorded ≠ hostOf server
      · rw [if_pos hhost]
        exact .inl rfl
      · rw [if_neg hhost]
        exact .inr (.inr ⟨recorded, ⟨rfl, not_not.mp hhost⟩, rfl⟩)
    | none =>
      cases openWhen with
      | fileExists => exact .inl rfl
      | always => exact .inr (.inr ⟨server, ⟨rfl, trivial⟩, rfl⟩)

theorem IsAlone.of_eq {d' : ServerDir A W} (h : IsAlone d) (hcaches : d'.caches = d.caches)
    (hregistry : d'.registry = d.registry) (hheld : d'.held = d.held) : IsAlone d' := by
  rw [IsAlone, hcaches, hregistry, hheld]
  exact h

theorem IsAlone.updateCache (h : IsAlone d) (id : Nat) {f : ServerCache W → ServerCache W}
    (hf : ∀ cache, (f cache).id = cache.id) : IsAlone (d.updateCache id f) := by
  rcases h with ⟨hcaches, hregistry, hheld⟩ | ⟨cache, hcaches, hregistry, hheld⟩
  · refine .inl ⟨?_, hregistry, hheld⟩
    rw [ServerDir.updateCache, hcaches]
    rfl
  · refine .inr ⟨if cache.id = id then f cache else cache, ?_, ?_, ?_⟩
    · rw [ServerDir.updateCache, hcaches]
      rfl
    · split
      · exact hregistry.trans (congrArg some (hf cache).symm)
      · exact hregistry
    · intro other hother
      split
      · exact (hheld other hother).trans (hf cache).symm
      · exact hheld other hother

theorem caches_length (h : IsAlone d) : d.caches.length ≤ 1 := by
  rcases h with ⟨hcaches, -⟩ | ⟨cache, hcaches, -⟩
  · rw [hcaches]
    exact Nat.zero_le 1
  · rw [hcaches]
    exact Nat.le_refl 1

/-- Where the registry is empty, nothing is open. -/
theorem IsAlone.nothing (h : IsAlone d) (hregistry : d.registry = none) :
    d.caches = [] ∧ d.held = [] := by
  rcases h with ⟨hcaches, -, hheld⟩ | ⟨cache, -, hsome, -⟩
  · exact ⟨hcaches, hheld⟩
  · rw [hregistry] at hsome
    cases hsome

/-- What closing leaves: nothing has changed, or the one cache has written what it had and is gone. -/
theorem closeServerCache_cases (h : IsAlone d) :
    let after := d.closeServerCache
    (after.1 = d ∧ (∃ error, after.2 = .error error) ∨
      after.1 = d ∧ d.caches = [] ∧ after.2 = .ok false) ∨
      ∃ cache, d.caches = [cache] ∧ after.2 = .ok true ∧
        after.1 = { d.commit cache.files cache.queue with registry := none, caches := [] } ∧
          d.held = [] := by
  unfold ServerDir.closeServerCache
  rcases h with ⟨hcaches, hregistry, hheld⟩ | ⟨cache, hcaches, hregistry, hheld⟩
  · rw [hregistry]
    exact .inl (.inr ⟨rfl, hcaches, rfl⟩)
  · rw [hregistry]
    dsimp only
    by_cases hmem : cache.id ∈ d.held
    · rw [if_pos hmem]
      exact .inl (.inl ⟨rfl, _, rfl⟩)
    · rw [if_neg hmem]
      have hfind : d.findCache cache.id = some cache := by
        rw [ServerDir.findCache, hcaches, List.find?_cons_of_pos (by simp)]
      have hnone : d.held = [] := by
        cases hlist : d.held with
        | nil => rfl
        | cons id rest =>
          rw [hlist] at hmem hheld
          exact absurd (hheld id List.mem_cons_self ▸ List.mem_cons_self) hmem
      rw [hfind]
      refine .inr ⟨cache, hcaches, rfl, ?_, hnone⟩
      have hfilter : (d.caches.filter fun other => other.id ≠ cache.id) = [] := by
        rw [hcaches, List.filter_cons_of_neg (by simp), List.filter_nil]
      simp only [hfilter]

end Alone

section Runs

variable {A W : Type} {hostOf : String → String} {path : String} {d : ServerDir A W}

/-- A cache is opened between the closing and the end of the removal. -/
def OpensInRemoval (hostOf : String → String) (d : ServerDir A W) (action : Action A W) : Prop :=
  (d.phase = .closed ∨ d.phase = .removing) ∧
    ∃ server openWhen, action = .openCache server openWhen ∧ Opens hostOf d server openWhen

/-- A file of the cache is removed. -/
def Removes (d : ServerDir A W) (action : Action A W) : Prop :=
  d.phase = .removing ∧
    (action = .removeDatabase ∧ d.database.isSome = true ∨
      action = .removeLog ∧ d.log.isSome = true)

/-- Nothing is open while files are removed, and what was committed is in the files that are there,
which all that is open has. -/
structure Sound (d : ServerDir A W) : Prop where
  alone : IsAlone d
  closed : d.phase = .closed ∨ d.phase = .removing → d.caches = []
  removed : d.phase = .removing → d.committed = []
  kept : d.committed = [] ∧ d.caches = [] ∨ ∃ files, AreThere d files ∧
    (∀ work ∈ d.committed, work ∈ d.contents files) ∧ ∀ cache ∈ d.caches, cache.files = files

/-- Nothing but the accounts and the phase has changed, and nothing is removed now. -/
theorem Sound.of_phase {d' : ServerDir A W} (h : Sound d) (hcaches : d'.caches = d.caches)
    (halone : IsAlone d') (hphase : d'.phase = d.phase ∨ d'.phase = .idle ∨ d'.phase = .closing)
    (hcommitted : d'.committed = d.committed) (hcontents : d'.contents = d.contents)
    (hdatabase : d'.database = d.database) (hlog : d'.log = d.log)
    (hrecorded : d'.recorded = d.recorded) : Sound d' := by
  refine ⟨halone, ?_, ?_, ?_⟩
  · rw [hcaches]
    rcases hphase with hphase | hphase | hphase <;> rw [hphase]
    · exact h.closed
    · rintro (h | h) <;> cases h
    · rintro (h | h) <;> cases h
  · rw [hcommitted]
    rcases hphase with hphase | hphase | hphase <;> rw [hphase]
    · exact h.removed
    · exact fun h => (by cases h)
    · exact fun h => (by cases h)
  · unfold AreThere
    rw [hcommitted, hcaches, hcontents, hdatabase, hlog, hrecorded]
    exact h.kept

/-- These writes are committed to the files of the open cache. -/
theorem Sound.commit (h : Sound d) {cache : ServerCache W} (hcache : cache ∈ d.caches)
    (works : List W) : Sound (d.commit cache.files works) := by
  have hopen : d.caches ≠ [] := List.ne_nil_of_mem hcache
  refine ⟨h.alone, h.closed, fun hphase => absurd (h.closed (.inr hphase)) hopen, ?_⟩
  rcases h.kept with ⟨-, hnone⟩ | ⟨files, hthere, hin, hall⟩
  · exact absurd hnone hopen
  · obtain rfl := hall cache hcache
    refine .inr ⟨cache.files, hthere, fun work hwork => ?_, hall⟩
    have hcontents : (d.commit cache.files works).contents cache.files =
        d.contents cache.files ++ works := Function.update_self ..
    rw [hcontents]
    rcases List.mem_append.mp hwork with hold | hnew
    · exact List.mem_append_left _ (hin work hold)
    · exact List.mem_append_right _ hnew

theorem Sound.updateCache (h : Sound d) (id : Nat) {f : ServerCache W → ServerCache W}
    (hid : ∀ cache, (f cache).id = cache.id) (hfiles : ∀ cache, (f cache).files = cache.files) :
    Sound (d.updateCache id f) := by
  have hnil : d.caches = [] → (d.updateCache id f).caches = [] := by
    intro hnil
    rw [ServerDir.updateCache, hnil]
    rfl
  refine ⟨h.alone.updateCache id hid, fun hphase => hnil (h.closed hphase), h.removed, ?_⟩
  rcases h.kept with ⟨hnone, hclosed⟩ | ⟨files, hthere, hin, hall⟩
  · exact .inl ⟨hnone, hnil hclosed⟩
  · refine .inr ⟨files, hthere, hin, fun cache hcache => ?_⟩
    obtain ⟨other, hother, rfl⟩ := List.mem_map.mp hcache
    split
    · exact (hfiles other).trans (hall other hother)
    · exact hall other hother

theorem Sound.remove {d' : ServerDir A W} (h : Sound d) (hphase : d.phase = .removing)
    (hcaches : d'.caches = d.caches) (hregistry : d'.registry = d.registry)
    (hheld : d'.held = d.held) (hcommitted : d'.committed = d.committed) : Sound d' := by
  have hclosed := hcaches.trans (h.closed (.inr hphase))
  have hnone := hcommitted.trans (h.removed hphase)
  exact ⟨h.alone.of_eq hcaches hregistry hheld, fun _ => hclosed, fun _ => hnone,
    .inl ⟨hnone, hclosed⟩⟩

variable [DecidableEq A]

/-- The closing before a removal: it does not come now, or nothing was open, or another request has
the cache, or the one cache has written what it had and is gone. -/
theorem closeCache_cases (hostOf : String → String) (path : String) (h : IsAlone d) :
    let after := d.step hostOf path .closeCache
    after = d ∨ (d.caches = [] ∧ after = { d with phase := .closed }) ∨
      after = { d with phase := .idle } ∨
        ∃ cache, d.caches = [cache] ∧ d.held = [] ∧
          after = { d.commit cache.files cache.queue with
            registry := none
            caches := []
            phase := .closed } := by
  rw [ServerDir.step]
  split
  · obtain ⟨⟨hsame, error, herror⟩ | ⟨hsame, hcaches, hok⟩⟩ | ⟨cache, hcaches, hok, heq, hheld⟩ :=
      closeServerCache_cases h
    · have hpair : d.closeServerCache = (d, .error error) := Prod.ext hsame herror
      rw [hpair]
      exact .inr (.inr (.inl rfl))
    · have hpair : d.closeServerCache = (d, .ok false) := Prod.ext hsame hok
      rw [hpair]
      exact .inr (.inl ⟨hcaches, rfl⟩)
    · have hpair : d.closeServerCache =
          ({ d.commit cache.files cache.queue with registry := none, caches := [] }, .ok true) :=
        Prod.ext heq hok
      rw [hpair]
      exact .inr (.inr (.inr ⟨cache, hcaches, hheld, rfl⟩))
  · exact .inl rfl

theorem IsAlone.step (hostOf : String → String) (path : String) (h : IsAlone d)
    (action : Action A W) : IsAlone (d.step hostOf path action) := by
  cases action with
  | logIn account | logOut account | removeAccountDirs account =>
    rw [ServerDir.step]
    split <;> exact h
  | openCache server openWhen =>
    rcases openServerCache_cases hostOf path d server openWhen with
      heq | ⟨id, hregistry, heq⟩ | ⟨server', hopens, heq⟩
    · rw [ServerDir.step, heq]
      exact h
    · rw [ServerDir.step, heq]
      rcases h with ⟨-, hnone, -⟩ | ⟨cache, hcaches, hsome, hheld⟩
      · rw [hregistry] at hnone
        cases hnone
      · refine .inr ⟨cache, hcaches, hsome, fun other hother => ?_⟩
        rcases List.mem_cons.mp hother with rfl | hother
        · exact Option.some.inj (hregistry.symm.trans hsome)
        · exact hheld other hother
    · rw [ServerDir.step, heq]
      obtain ⟨-, -, hcaches, hheld, -⟩ := openFiles_cases d server'
      obtain ⟨hnone, hempty⟩ := h.nothing hopens.1
      refine .inr ⟨⟨(d.openFiles server').1.next, (d.openFiles server').2, []⟩, ?_, rfl, ?_⟩
      · rw [ServerDir.register, hcaches, hnone]
      · intro id hid
        rw [ServerDir.register, hheld, hempty] at hid
        exact List.mem_singleton.mp hid
  | giveBack id =>
    rcases h with ⟨hcaches, hregistry, hheld⟩ | ⟨cache, hcaches, hregistry, hheld⟩
    · refine .inl ⟨hcaches, hregistry, ?_⟩
      rw [ServerDir.step, hheld]
      rfl
    · refine .inr ⟨cache, hcaches, hregistry, fun other hother => ?_⟩
      exact hheld other (List.mem_of_mem_erase hother)
  | send id work =>
    rw [ServerDir.step]
    split
    · exact h.updateCache id fun _ => rfl
    · exact h
  | write id isOk =>
    rw [ServerDir.step]
    split
    · exact h
    · split
      · exact h
      · refine IsAlone.updateCache ?_ id fun _ => rfl
        cases isOk <;> exact h
  | closeCache =>
    rcases closeCache_cases hostOf path h with heq | ⟨-, heq⟩ | heq | ⟨cache, -, hheld, heq⟩
    · rw [heq]
      exact h
    · rw [heq]
      exact h
    · rw [heq]
      exact h
    · rw [heq]
      exact .inl ⟨rfl, rfl, hheld⟩
  | startRemoval | removeDatabase | removeLog =>
    rw [ServerDir.step]
    split <;> exact h
  | endRemoval => exact h

theorem Sound.step (h : Sound d) {action : Action A W} (hopens : ¬OpensInRemoval hostOf d action) :
    Sound (d.step hostOf path action) := by
  have halone := h.alone.step hostOf path action
  cases action with
  | logIn account =>
    rw [ServerDir.step]
    split
    · exact h.of_phase rfl h.alone (.inl rfl) rfl rfl rfl rfl rfl
    · exact h
  | logOut account | removeAccountDirs account =>
    rw [ServerDir.step]
    split
    · refine h.of_phase rfl h.alone ?_ rfl rfl rfl rfl rfl
      dsimp only
      split
      · exact .inr (.inr rfl)
      · exact .inr (.inl rfl)
    · exact h
  | openCache server openWhen =>
    rcases openServerCache_cases hostOf path d server openWhen with
      heq | ⟨id, hregistry, heq⟩ | ⟨server', hnew, heq⟩
    · rw [ServerDir.step, heq]
      exact h
    · rw [ServerDir.step, heq] at halone ⊢
      exact ⟨halone, h.closed, h.removed, h.kept⟩
    · rw [ServerDir.step, heq] at halone ⊢
      have hphase : ¬(d.phase = .closed ∨ d.phase = .removing) :=
        fun hphase => hopens ⟨hphase, server, openWhen, rfl, hnew⟩
      obtain ⟨hthere, hsame, hcaches, -, hkeep, hcommitted, hcontents⟩ :=
        openFiles_cases d server'
      obtain ⟨hnone, -⟩ := h.alone.nothing hnew.1
      refine ⟨halone, fun hclosed => absurd (hkeep ▸ hclosed) hphase,
        fun hremoving => absurd (.inr (hkeep ▸ hremoving)) hphase, ?_⟩
      refine .inr ⟨(d.openFiles server').2, hthere, ?_, ?_⟩
      · intro work hwork
        replace hwork : work ∈ d.committed := hcommitted ▸ hwork
        rcases h.kept with ⟨hempty, -⟩ | ⟨files, hfiles, hin, -⟩
        · rw [hempty] at hwork
          cases hwork
        · rw [hsame files hfiles]
          exact hcontents ▸ hin work hwork
      · intro cache hcache
        rw [ServerDir.register, hcaches, hnone] at hcache
        rw [List.mem_singleton.mp hcache]
  | giveBack id => exact ⟨halone, h.closed, h.removed, h.kept⟩
  | send id work =>
    rw [ServerDir.step]
    split
    · exact h.updateCache id (fun _ => rfl) fun _ => rfl
    · exact h
  | write id isOk =>
    rw [ServerDir.step]
    split
    · exact h
    · rename_i cache hfind
      split
      · exact h
      · refine Sound.updateCache ?_ id (fun _ => rfl) fun _ => rfl
        cases isOk with
        | true => exact h.commit (List.mem_of_find?_eq_some hfind) _
        | false => exact h
  | closeCache =>
    rcases closeCache_cases hostOf path h.alone with
      heq | ⟨hnone, heq⟩ | heq | ⟨cache, hcaches, hheld, heq⟩
    · rw [heq]
      exact h
    · rw [heq]
      exact ⟨h.alone, fun _ => hnone, fun h => (by cases h), h.kept⟩
    · rw [heq]
      exact h.of_phase rfl h.alone (.inr (.inl rfl)) rfl rfl rfl rfl rfl
    · rw [heq]
      have hcommit := h.commit (hcaches ▸ List.mem_singleton_self cache) cache.queue
      refine ⟨.inl ⟨rfl, rfl, hheld⟩, fun _ => rfl, fun h => (by cases h), ?_⟩
      rcases hcommit.kept with ⟨hnone, -⟩ | ⟨files, hthere, hin, -⟩
      · exact .inl ⟨hnone, rfl⟩
      · exact .inr ⟨files, hthere, hin, fun _ h => (by cases h)⟩
  | startRemoval =>
    rw [ServerDir.step]
    split
    · rename_i hphase
      have hnone := h.closed (.inl hphase)
      exact ⟨h.alone, fun _ => hnone, fun _ => rfl, .inl ⟨rfl, hnone⟩⟩
    · exact h
  | removeDatabase | removeLog =>
    rw [ServerDir.step]
    split
    · rename_i hphase
      exact h.remove hphase rfl rfl rfl rfl
    · exact h
  | endRemoval => exact h.of_phase rfl h.alone (.inr (.inl rfl)) rfl rfl rfl rfl rfl

/-- At most one cache of a server is open, in every run. If none is opened between the closing and
the end of a removal, then nothing is open while files are removed, and every open cache has all
that was committed since the last removal has begun. -/
theorem cache_always_there (hostOf : String → String) (path : String) (accounts loggedIn : List A)
    (database log : Option Nat) (recorded : Nat → Option String) (contents : CacheFiles → List W)
    (next : Nat) (actions : List (Action A W)) :
    let first := ServerDir.start accounts loggedIn database log recorded contents next
    let d := Runs.run (ServerDir.step hostOf path) first actions
    d.caches.length ≤ 1 ∧
      (Runs.Along (ServerDir.step hostOf path) (fun d action => ¬OpensInRemoval hostOf d action)
          first actions →
        (∀ action, Removes d action → d.caches = []) ∧
          ∀ cache ∈ d.caches, ∀ work ∈ d.committed, work ∈ d.contents cache.files) := by
  intro first d
  have halone : IsAlone d :=
    Runs.run_invariant IsAlone (fun _ action h => h.step hostOf path action) actions _ (.inl ⟨rfl, rfl, rfl⟩)
  refine ⟨caches_length halone, fun hopens => ?_⟩
  have hsound : Sound d := by
    refine Runs.run_invariant_along Sound (fun _ _ hcond h => h.step hcond) actions _ hopens ?_
    exact ⟨.inl ⟨rfl, rfl, rfl⟩, fun _ => rfl, fun _ => rfl, .inl ⟨rfl, rfl⟩⟩
  refine ⟨fun action hremoves => hsound.closed (.inr hremoves.1), fun cache hcache work hwork => ?_⟩
  rcases hsound.kept with ⟨hnone, -⟩ | ⟨files, -, hin, hall⟩
  · rw [hnone] at hwork
    cases hwork
  · rw [hall cache hcache]
    exact hin work hwork

end Runs

section Examples

/-- A server with one account, and no cache yet. -/
def oneAccount : ServerDir String String :=
  .start ["alice"] ["alice"] none none (fun _ => none) (fun _ => []) 0

theorem cache_always_there_in_turn :
    let d := Runs.run (ServerDir.step id "s") oneAccount
      [.openCache "server" .always, .send 2 "work", .write 2 true]
    d.caches.length ≤ 1 ∧ ∀ cache ∈ d.caches, ∀ work ∈ d.committed, work ∈ d.contents cache.files := by
  have hthere := cache_always_there id "s" ["alice"] ["alice"] none none (fun _ => none)
    (fun _ => ([] : List String)) 0 [.openCache "server" .always, .send 2 "work", .write 2 true]
  refine ⟨hthere.1, (hthere.2 ⟨?_, ?_, ?_, trivial⟩).2⟩
  · rintro ⟨h | h, -⟩ <;> cases h
  · rintro ⟨h | h, -⟩ <;> cases h
  · rintro ⟨h | h, -⟩ <;> cases h

/-- A command that knows the session from before opens the cache again while the last account is
logged out. The database is removed under it. -/
theorem cache_removed_while_open :
    let d := Runs.run (ServerDir.step id "s") oneAccount
      [.openCache "server" .always, .giveBack 2, .logOut "alice", .closeCache,
        .openCache "server" .always, .startRemoval]
    ¬∀ action, Removes d action → d.caches = [] := by
  intro d h
  have hremoves : Removes d .removeDatabase := ⟨by decide +kernel, .inl ⟨rfl, by decide +kernel⟩⟩
  have hopen : d.caches.length = 1 := by decide +kernel
  rw [h _ hremoves] at hopen
  cases hopen

end Examples

end ServerCaches
end WbfMatrixClient
