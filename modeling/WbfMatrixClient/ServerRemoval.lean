import WbfMatrixClient.Lib.Runs

/-!
# Removing the directory of a server

The last account of a server takes the whole directory of the server with it, and its own
directory is removed last: a marker refuses logins from before the first removal, and the empty
rest gets another name before the marker goes. Each operation can fail, and a crash leaves what
any number of steps has made.
-/

namespace WbfMatrixClient
namespace ServerRemoval

inductive Node where
  | file
  | dir (entries : List (String × Node))

namespace Node

def entries : Node → List (String × Node)
  | .file => []
  | .dir entries => entries

def find (node : Node) (name : String) : Option Node :=
  (node.entries.find? fun entry => entry.1 = name).map Prod.snd

def erase : Node → String → Node
  | .file, _ => .file
  | .dir entries, name => .dir (entries.filter fun entry => entry.1 ≠ name)

def put : Node → String → Node → Node
  | .file, _, _ => .file
  | .dir entries, name, node => .dir (entries.filter (fun entry => entry.1 ≠ name) ++ [(name, node)])

end Node

def accountsDirName : String := "a"

def toBeDeletedLockFileName : String := "to_be_deleted.lock"

/-- The directory of the server, and what is at the name it gets before it is removed. -/
structure Fs where
  server : Option Node
  renamed : Option Node

/-- How an operation goes: a removal of a tree that fails leaves anything of it. -/
inductive Outcome where
  | ok
  | fail (left : List (String × Node))

/-- What was not removed after the account. -/
inductive Place where
  | serverLock
  | accountsDir
  | serverDir
  | renamedLock
  | renamedDir
deriving DecidableEq

structure ServerDirRemoval where
  accountDirRemoved : Bool
  serverDirRemoved : Bool
  leftBehind : Option Place
deriving DecidableEq

/-- The operation that comes next, or the result. -/
inductive Pc where
  | start
  | mark
  | list
  | removeOthers (others : List String)
  | checkAccounts
  | removeAccountOnly
  | takeMarkerBack (removed : Bool)
  | removeAccount
  | removeAccountsDir (removed : Bool)
  | checkRenamed (removed : Bool)
  | rename (removed : Bool)
  | removeRenamedLock (removed : Bool)
  | removeRenamed (removed : Bool)
  | done (result : Option ServerDirRemoval)
deriving DecidableEq

structure State where
  fs : Fs
  pc : Pc
  /-- The marker was put there. -/
  marked : Bool
  /-- The marker was taken back because of another account. -/
  takenBack : Bool
  /-- The accounts could not be read. -/
  unread : Bool
  /-- It could not be seen what is at the other name. -/
  unseen : Bool

def State.start (fs : Fs) : State where
  fs := fs
  pc := .start
  marked := false
  takenBack := false
  unread := false
  unseen := false

namespace Fs

def accounts (fs : Fs) : Option Node :=
  fs.server.bind fun server => server.find accountsDirName

def hasMarker (fs : Fs) : Bool :=
  (fs.server.bind fun server => server.find toBeDeletedLockFileName).isSome

def hasAccount (fs : Fs) (account : String) : Bool :=
  fs.accounts.any fun accounts => (accounts.find account).isSome

/-- The entries of other accounts. -/
def otherAccounts (fs : Fs) (account : String) : List (String × Node) :=
  (fs.accounts.map Node.entries).getD [] |>.filter fun entry => entry.1 ≠ account

/-- Whether anything but the account is there, or cannot be read. -/
def hasAnotherAccountEntry (fs : Fs) (account : String) : Outcome → Bool
  | .ok =>
      match fs.accounts with
      | some (.dir _) => !(fs.otherAccounts account).isEmpty
      | some .file => true
      | none => false
  | .fail _ => true

def setServer (fs : Fs) (server : Node) : Fs :=
  { fs with server := some server }

end Fs

/-- A path is removed, a directory with all that is in it: what was there, and what is left. -/
def removePathIfPresent (parent : Node) (name : String) : Outcome → Option Bool × Node
  | .ok => (some (parent.find name).isSome, parent.erase name)
  | .fail left =>
      match parent.find name with
      | some (.dir _) => (none, parent.put name (.dir left))
      | _ => (none, parent)

/-- The account is removed from the directory of the accounts. -/
def removeAccountDir (server : Node) (account : String) (outcome : Outcome) :
    Option Bool × Node :=
  match server.find accountsDirName, outcome with
  | none, .ok => (some false, server)
  | none, .fail _ => (none, server)
  | some .file, _ => (none, server)
  | some (.dir entries), outcome =>
      let removal := removePathIfPresent (.dir entries) account outcome
      (removal.1, server.put accountsDirName removal.2)

def incomplete (removed : Bool) (place : Place) : Pc :=
  .done (some { accountDirRemoved := removed, serverDirRemoved := false, leftBehind := some place })

def State.goto (s : State) (pc : Pc) : State :=
  { s with pc := pc }

/-- The next operation of the removal of the account. -/
def step (account : String) (s : State) (outcome : Outcome) : State :=
  match s.pc, s.fs.server with
  | .start, some _ => s.goto (match outcome with
      | .ok => .mark
      | .fail _ => .done (some ⟨false, false, none⟩))
  | .start, none => s.goto (.done (some ⟨false, false, none⟩))
  | .mark, some server =>
      match outcome, server, server.find toBeDeletedLockFileName with
      | .fail _, _, _ | .ok, .file, _ | .ok, _, some (.dir _) => s.goto (.done none)
      | .ok, .dir _, _ =>
          { s with
            fs := s.fs.setServer (server.put toBeDeletedLockFileName .file)
            pc := .list
            marked := true }
  | .list, some server =>
      match outcome with
      | .ok => s.goto (.removeOthers ((server.entries.map Prod.fst).filter fun name =>
          name ≠ accountsDirName ∧ name ≠ toBeDeletedLockFileName))
      | .fail _ => s.goto (.done none)
  | .removeOthers [], some _ => s.goto .checkAccounts
  | .removeOthers (other :: others), some server =>
      let removal := removePathIfPresent server other outcome
      { s with
        fs := s.fs.setServer removal.2
        pc := if removal.1.isSome then .removeOthers others else .done none }
  | .checkAccounts, some _ =>
      { s with
        pc := if s.fs.hasAnotherAccountEntry account outcome then .removeAccountOnly
          else .removeAccount
        unread :=
          match outcome, s.fs.accounts with
          | .fail _, _ | .ok, some .file => true
          | _, _ => false }
  | .removeAccountOnly, some server =>
      let removal := removeAccountDir server account outcome
      { s with
        fs := s.fs.setServer removal.2
        pc := match removal.1 with
          | some removed => .takeMarkerBack removed
          | none => .done none }
  | .takeMarkerBack removed, some server =>
      match outcome with
      | .ok =>
          { s with
            fs := s.fs.setServer (server.erase toBeDeletedLockFileName)
            pc := .done (some ⟨removed, false, none⟩)
            takenBack := true }
      | .fail _ => s.goto (incomplete removed .serverLock)
  | .removeAccount, some server =>
      let removal := removeAccountDir server account outcome
      { s with
        fs := s.fs.setServer removal.2
        pc := match removal.1 with
          | some removed => .removeAccountsDir removed
          | none => .done none }
  | .removeAccountsDir removed, some server =>
      match outcome, server.find accountsDirName with
      | .ok, none => s.goto (.checkRenamed removed)
      | .ok, some (.dir []) =>
          { s with
            fs := s.fs.setServer (server.erase accountsDirName)
            pc := .checkRenamed removed }
      | _, _ => s.goto (incomplete removed .accountsDir)
  | .checkRenamed removed, some _ =>
      match outcome, s.fs.renamed with
      | .ok, some _ => s.goto (incomplete removed .serverDir)
      | .ok, none => s.goto (.rename removed)
      | .fail _, _ => { s with pc := .rename removed, unseen := true }
  | .rename removed, some server =>
      match outcome, s.fs.renamed with
      | .ok, none | .ok, some (.dir []) =>
          { s with
            fs := { server := none, renamed := some server }
            pc := .removeRenamedLock removed }
      | _, _ => s.goto (incomplete removed .serverDir)
  | .removeRenamedLock removed, _ =>
      match outcome, s.fs.renamed with
      | .ok, some renamed =>
          { s with
            fs := { s.fs with renamed := some (renamed.erase toBeDeletedLockFileName) }
            pc := .removeRenamed removed }
      | .ok, none => s.goto (.removeRenamed removed)
      | .fail _, _ => s.goto (incomplete removed .renamedLock)
  | .removeRenamed removed, _ =>
      match outcome, s.fs.renamed with
      | .ok, some (.dir []) =>
          { s with
            fs := { s.fs with renamed := none }
            pc := .done (some ⟨removed, true, none⟩) }
      | .ok, none => s.goto (.done (some ⟨removed, true, none⟩))
      | _, _ => s.goto (incomplete removed .renamedDir)
  | _, _ => s

/-- The account has not been removed before this, or its removal has failed. -/
def Pc.beforeAccount : Pc → Bool
  | .start | .mark | .list | .removeOthers _ | .checkAccounts | .removeAccountOnly | .removeAccount
  | .done none => true
  | _ => false

/-- What holds while an operation is still to come. -/
structure Busy (start : Fs) (s : State) : Prop where
  marked : s.marked = true
  marker : s.fs.hasMarker = true
  renamed : s.fs.renamed = start.renamed
  takenBack : s.takenBack = false

/-- What holds before an operation. -/
def Stage (start : Fs) (account : String) (s : State) : Prop :=
  match s.pc with
  | .start | .mark => s.fs = start ∧ s.marked = false ∧ s.takenBack = false
  | .list | .checkAccounts => Busy start s
  | .removeOthers others =>
      Busy start s ∧ ∀ other ∈ others, other ≠ accountsDirName ∧ other ≠ toBeDeletedLockFileName
  | .removeAccountOnly | .takeMarkerBack _ =>
      Busy start s ∧ (start.otherAccounts account ≠ [] ∨ s.unread = true)
  | .removeAccount | .removeAccountsDir _ | .checkRenamed _ =>
      Busy start s ∧ start.otherAccounts account = []
  | .rename _ =>
      Busy start s ∧ start.otherAccounts account = [] ∧
        (start.renamed = none ∨ s.unseen = true)
  | .removeRenamedLock _ | .removeRenamed _ =>
      s.marked = true ∧ s.fs.server = none ∧
        (start.renamed = none ∨ s.unseen = true ∧ start.renamed = some (.dir []))
  | .done _ => True

structure Kept (start : Fs) (account : String) (s : State) : Prop where
  untouched : s.marked = false → s.fs = start
  guarded : s.marked = true → s.fs.hasMarker = true ∨ s.fs.server = none ∨ s.takenBack = true
  others : s.fs.otherAccounts account = start.otherAccounts account
  renamed : s.fs.renamed = start.renamed ∨ start.renamed = none ∨
    s.unseen = true ∧ start.renamed = some (.dir [])
  takenBack : s.takenBack = true → start.otherAccounts account ≠ [] ∨ s.unread = true
  still : s.pc.beforeAccount = true → s.fs.hasAccount account = start.hasAccount account
  stage : Stage start account s

theorem kept_start (start : Fs) (account : String) :
    Kept start account (.start start) :=
  ⟨fun _ => rfl, fun h => (by cases h), rfl, .inl rfl, fun h => (by cases h), fun _ => rfl,
    ⟨rfl, rfl, rfl⟩⟩

section Steps

variable {name other : String}

theorem find?_filter_ne {entries : List (String × Node)} (hne : other ≠ name) :
    ((entries.filter fun entry => entry.1 ≠ name).find? fun entry => entry.1 = other) =
      entries.find? fun entry => entry.1 = other := by
  induction entries with
  | nil => rfl
  | cons entry rest ih =>
    by_cases hname : entry.1 = name
    · have hother : ¬entry.1 = other := fun h => hne (h.symm.trans hname)
      simp only [List.filter_cons, hname, ne_eq, not_true_eq_false, decide_false, List.find?_cons]
      simpa [hname ▸ hother, hname] using ih
    · simp only [List.filter_cons, hname, ne_eq, not_false_eq_true, decide_true, List.find?_cons,
        if_true]
      rw [ih]

@[simp] theorem Node.find_erase_ne (node : Node) (hne : other ≠ name) :
    (node.erase name).find other = node.find other := by
  cases node with
  | file => rfl
  | dir entries => simp only [Node.erase, Node.find, Node.entries, find?_filter_ne hne]

@[simp] theorem Node.find_put_ne (node child : Node) (hne : other ≠ name) :
    (node.put name child).find other = node.find other := by
  cases node with
  | file => rfl
  | dir entries =>
    simp only [Node.put, Node.find, Node.entries, List.find?_append, find?_filter_ne hne]
    simp [Ne.symm hne]

theorem Node.find_put_self (entries : List (String × Node)) (name : String) (child : Node) :
    ((Node.dir entries).put name child).find name = some child := by
  have hnone : (entries.filter fun entry => entry.1 ≠ name).find? (fun entry => entry.1 = name) =
      none := by
    rw [List.find?_eq_none]
    intro entry hentry
    have hne := (List.mem_filter.mp hentry).2
    simpa using hne
  simp only [Node.put, Node.find, Node.entries, List.find?_append, hnone]
  simp

/-- A removal is of one name only. -/
theorem removePathIfPresent_find (parent : Node) (outcome : Outcome) (hne : other ≠ name) :
    (removePathIfPresent parent name outcome).2.find other = parent.find other := by
  unfold removePathIfPresent
  split
  · exact parent.find_erase_ne hne
  · split
    · exact parent.find_put_ne _ hne
    · rfl

/-- A removal that fails leaves the name. -/
theorem removePathIfPresent_failed (parent : Node) (name : String) (outcome : Outcome)
    (hfailed : (removePathIfPresent parent name outcome).1 = none) :
    ((removePathIfPresent parent name outcome).2.find name).isSome = (parent.find name).isSome := by
  unfold removePathIfPresent at hfailed ⊢
  split
  · cases hfailed
  · split
    · rename_i left entries hfound
      rw [hfound]
      cases parent with
      | file => cases hfound
      | dir all =>
        rw [Node.find_put_self]
        rfl
    · rfl

theorem removePathIfPresent_others (entries : List (String × Node)) (name : String)
    (outcome : Outcome) :
    ((removePathIfPresent (.dir entries) name outcome).2.entries.filter fun entry => entry.1 ≠ name) =
      entries.filter fun entry => entry.1 ≠ name := by
  unfold removePathIfPresent
  split
  · simp [Node.erase, Node.entries, List.filter_filter]
  · split
    · simp [Node.put, Node.entries, List.filter_filter, List.filter_append]
    · rfl

theorem removeAccountDir_find (server : Node) (account : String) (outcome : Outcome)
    (hne : other ≠ accountsDirName) :
    (removeAccountDir server account outcome).2.find other = server.find other := by
  unfold removeAccountDir
  split
  · rfl
  · rfl
  · rfl
  · exact server.find_put_ne _ hne

variable {start : Fs} {account : String} {s : State}

variable {fs : Fs} {server server' : Node}

section

variable (hserver : fs.server = some server)

include hserver

theorem Fs.hasMarker_setServer
    (hfind : server'.find toBeDeletedLockFileName = server.find toBeDeletedLockFileName) :
    (fs.setServer server').hasMarker = fs.hasMarker := by
  simp only [Fs.hasMarker, Fs.setServer, Option.bind_some, hfind, hserver]

theorem Fs.accounts_setServer (hfind : server'.find accountsDirName = server.find accountsDirName) :
    (fs.setServer server').accounts = fs.accounts := by
  simp only [Fs.accounts, Fs.setServer, Option.bind_some, hfind, hserver]

/-- The removal of the account leaves the entries of the others. -/
theorem removeAccountDir_others (account : String) (outcome : Outcome) :
    (fs.setServer (removeAccountDir server account outcome).2).otherAccounts account =
      fs.otherAccounts account := by
  have haccounts : fs.accounts = server.find accountsDirName := by
    rw [Fs.accounts, hserver, Option.bind_some]
  unfold removeAccountDir
  split
  · rw [Fs.otherAccounts, Fs.accounts_setServer hserver rfl, Fs.otherAccounts]
  · rw [Fs.otherAccounts, Fs.accounts_setServer hserver rfl, Fs.otherAccounts]
  · rw [Fs.otherAccounts, Fs.accounts_setServer hserver rfl, Fs.otherAccounts]
  · rename_i entries hfound
    cases server with
    | file => cases hfound
    | dir all =>
      simp only [Fs.otherAccounts, haccounts, hfound]
      simp only [Fs.accounts, Fs.setServer, Option.bind_some, Node.find_put_self, Option.map_some,
        Option.getD_some]
      exact removePathIfPresent_others entries account _

/-- The account is still there when its removal fails. -/
theorem removeAccountDir_failed (account : String) (outcome : Outcome)
    (hfailed : (removeAccountDir server account outcome).1 = none) :
    (fs.setServer (removeAccountDir server account outcome).2).hasAccount account =
      fs.hasAccount account := by
  have haccounts : fs.accounts = server.find accountsDirName := by
    rw [Fs.accounts, hserver, Option.bind_some]
  unfold removeAccountDir at hfailed ⊢
  split
  · rw [Fs.hasAccount, Fs.accounts_setServer hserver rfl, Fs.hasAccount]
  · rw [Fs.hasAccount, Fs.accounts_setServer hserver rfl, Fs.hasAccount]
  · rw [Fs.hasAccount, Fs.accounts_setServer hserver rfl, Fs.hasAccount]
  · rename_i entries hfound
    simp only [hfound] at hfailed
    cases server with
    | file => cases hfound
    | dir all =>
      simp only [Fs.hasAccount, haccounts, hfound]
      simp only [Fs.accounts, Fs.setServer, Option.bind_some, Node.find_put_self, Option.any_some]
      exact removePathIfPresent_failed (.dir entries) account _ hfailed

end

theorem Kept.goto (hs : Kept start account s) {pc : Pc}
    (hstill : pc.beforeAccount = true → s.fs.hasAccount account = start.hasAccount account)
    (hstage : Stage start account (s.goto pc)) :
    Kept start account (s.goto pc) :=
  ⟨hs.untouched, hs.guarded, hs.others, hs.renamed, hs.takenBack, hstill, hstage⟩

variable {pc : Pc}

theorem Busy.same (hs : Busy start s) {unread unseen : Bool} (hserver : s.fs.server = some server)
    (hmarker : server'.find toBeDeletedLockFileName = server.find toBeDeletedLockFileName) :
    Busy start { s with fs := s.fs.setServer server', pc := pc, unread := unread, unseen := unseen } :=
  ⟨hs.marked, (Fs.hasMarker_setServer hserver hmarker).trans hs.marker, hs.renamed, hs.takenBack⟩

theorem Busy.goesOn (hs : Busy start s) (pc : Pc) (unread unseen : Bool) :
    Busy start { s with pc := pc, unread := unread, unseen := unseen } :=
  ⟨hs.marked, hs.marker, hs.renamed, hs.takenBack⟩

section

variable (hs : Kept start account s)

include hs

/-- Something below the directory of the server is removed, while the marker is there. -/
theorem Kept.change (hbusy : Busy start s) (hserver : s.fs.server = some server)
    (hmarker : server'.find toBeDeletedLockFileName = server.find toBeDeletedLockFileName)
    (hothers : (s.fs.setServer server').otherAccounts account = s.fs.otherAccounts account)
    (hstill : pc.beforeAccount = true → (s.fs.setServer server').hasAccount account =
      start.hasAccount account)
    (hstage : Stage start account { s with fs := s.fs.setServer server', pc := pc }) :
    Kept start account { s with fs := s.fs.setServer server', pc := pc } := by
  refine ⟨fun h => ?_, fun _ => .inl ((Fs.hasMarker_setServer hserver hmarker).trans hbusy.marker),
    hothers.trans hs.others, hs.renamed, hs.takenBack, hstill, hstage⟩
  have hmarked := hbusy.marked
  rw [show s.marked = false from h] at hmarked
  cases hmarked

theorem Kept.mark (hpc : s.pc = .mark) (hserver : s.fs.server = some server) (outcome : Outcome) :
    Kept start account (step account s outcome) := by
  have hstage := hs.stage
  rw [Stage, hpc] at hstage
  obtain ⟨hfs, hmarked, htaken⟩ := hstage
  have hstill := hs.still (by rw [hpc]; rfl)
  unfold step
  simp only [hpc, hserver]
  split
  · exact hs.goto (fun _ => hstill) trivial
  · exact hs.goto (fun _ => hstill) trivial
  · exact hs.goto (fun _ => hstill) trivial
  · rename_i entries _
    have hfind : ∀ name, name ≠ toBeDeletedLockFileName →
        ((Node.dir entries).put toBeDeletedLockFileName .file).find name =
          (Node.dir entries).find name :=
      fun name hne => Node.find_put_ne _ _ hne
    have haccounts := Fs.accounts_setServer hserver (hfind accountsDirName (by decide))
    have hmarker : (s.fs.setServer ((Node.dir entries).put toBeDeletedLockFileName .file)).hasMarker =
        true := by
      simp only [Fs.hasMarker, Fs.setServer, Option.bind_some, Node.find_put_self, Option.isSome_some]
    refine ⟨fun h => (by cases h), fun _ => .inl hmarker, ?_, hs.renamed, hs.takenBack, fun _ => ?_,
      ⟨rfl, hmarker, ?_, htaken⟩⟩
    · rw [Fs.otherAccounts, haccounts]
      exact hs.others
    · rw [Fs.hasAccount, haccounts]
      exact hstill
    · show s.fs.renamed = start.renamed
      rw [hfs]

theorem Kept.removeOther {others : List String} (hpc : s.pc = .removeOthers (other :: others))
    (hserver : s.fs.server = some server) (outcome : Outcome) :
    Kept start account (step account s outcome) := by
  have hstage := hs.stage
  rw [Stage, hpc] at hstage
  obtain ⟨hbusy, hnames⟩ := hstage
  obtain ⟨hne, hne'⟩ := hnames other (by simp)
  have hstill := hs.still (by rw [hpc]; rfl)
  have hfind : ∀ name, name ≠ other → (removePathIfPresent server other outcome).2.find name =
      server.find name := fun name h => removePathIfPresent_find server outcome h
  have haccounts := Fs.accounts_setServer hserver (hfind accountsDirName (Ne.symm hne))
  unfold step
  simp only [hpc, hserver]
  refine hs.change hbusy hserver (hfind _ (Ne.symm hne')) (by rw [Fs.otherAccounts, haccounts,
    Fs.otherAccounts]) (fun _ => by rw [Fs.hasAccount, haccounts]; exact hstill) ?_
  split
  · exact ⟨hbusy.same hserver (hfind _ (Ne.symm hne')), fun name h => hnames name (by simp [h])⟩
  · trivial

theorem Kept.checkAccounts (hpc : s.pc = .checkAccounts) (hserver : s.fs.server = some server)
    (outcome : Outcome) : Kept start account (step account s outcome) := by
  have hbusy := hs.stage
  rw [Stage, hpc] at hbusy
  have hstill := hs.still (by rw [hpc]; rfl)
  unfold step
  simp only [hpc, hserver]
  have hkeep := fun pc unread => hbusy.goesOn pc unread s.unseen
  refine ⟨hs.untouched, hs.guarded, hs.others, hs.renamed, fun h => ?_, fun _ => hstill, ?_⟩
  · have htaken := hbusy.takenBack
    rw [show s.takenBack = true from h] at htaken
    cases htaken
  · cases outcome with
    | fail left => exact ⟨hkeep _ _, .inr rfl⟩
    | ok =>
      cases haccounts : s.fs.accounts with
      | none =>
        simp only [Fs.hasAnotherAccountEntry, haccounts]
        refine ⟨hkeep _ _, ?_⟩
        rw [← hs.others, Fs.otherAccounts, haccounts]
        rfl
      | some accounts =>
        cases accounts with
        | file =>
          simp only [Fs.hasAnotherAccountEntry, haccounts]
          exact ⟨hkeep _ _, .inr rfl⟩
        | dir entries =>
          simp only [Fs.hasAnotherAccountEntry, haccounts]
          rw [hs.others]
          cases hothers : start.otherAccounts account with
          | nil => exact ⟨hkeep _ _, hothers⟩
          | cons first rest =>
            refine ⟨hkeep _ _, .inl ?_⟩
            rw [hothers]
            exact nofun

theorem Kept.removeAccountDir (hbusy : Busy start s)
    (hstill : s.fs.hasAccount account = start.hasAccount account) {server : Node}
    (hserver : s.fs.server = some server) (outcome : Outcome) (next : Bool → Pc)
    (hnext : ∀ removed, (next removed).beforeAccount = false)
    (hstage : ∀ removed server', Busy start { s with
        fs := s.fs.setServer server', pc := next removed } →
      Stage start account { s with fs := s.fs.setServer server', pc := next removed }) :
    Kept start account { s with
      fs := s.fs.setServer (removeAccountDir server account outcome).2
      pc := match (removeAccountDir server account outcome).1 with
        | some removed => next removed
        | none => .done none } := by
  have hmarker := removeAccountDir_find server account outcome
    (show toBeDeletedLockFileName ≠ accountsDirName by decide)
  refine hs.change hbusy hserver hmarker (removeAccountDir_others hserver account outcome) ?_ ?_
  · cases hremoved : (ServerRemoval.removeAccountDir server account outcome).1 with
    | none => exact fun _ => (removeAccountDir_failed hserver account outcome hremoved).trans hstill
    | some removed =>
      intro h
      rw [hnext] at h
      cases h
  · cases hremoved : (ServerRemoval.removeAccountDir server account outcome).1 with
    | none => trivial
    | some removed => exact hstage removed _ (hbusy.same hserver hmarker)

end

variable {removed : Bool}

section

variable (hs : Kept start account s)

include hs

theorem Kept.takeMarkerBack (hpc : s.pc = .takeMarkerBack removed)
    (hserver : s.fs.server = some server) (outcome : Outcome) :
    Kept start account (step account s outcome) := by
  have hstage := hs.stage
  rw [Stage, hpc] at hstage
  obtain ⟨hbusy, hother⟩ := hstage
  unfold step
  simp only [hpc, hserver]
  split
  · have haccounts := Fs.accounts_setServer hserver
      (server.find_erase_ne (show accountsDirName ≠ toBeDeletedLockFileName by decide))
    refine ⟨fun h => ?_, fun _ => .inr (.inr rfl), ?_, hs.renamed, fun _ => hother,
      fun h => (by cases h), trivial⟩
    · have hmarked := hbusy.marked
      rw [show s.marked = false from h] at hmarked
      cases hmarked
    · rw [Fs.otherAccounts, haccounts]
      exact hs.others
  · exact hs.goto (fun h => (by cases h)) trivial

theorem Kept.removeAccountsDir (hpc : s.pc = .removeAccountsDir removed)
    (hserver : s.fs.server = some server) (outcome : Outcome) :
    Kept start account (step account s outcome) := by
  have hstage := hs.stage
  rw [Stage, hpc] at hstage
  obtain ⟨hbusy, hnone⟩ := hstage
  unfold step
  simp only [hpc, hserver]
  have hkeep : Busy start (s.goto (.checkRenamed removed)) := hbusy.goesOn _ s.unread s.unseen
  split
  · exact hs.goto (fun h => (by cases h)) ⟨hkeep, hnone⟩
  · rename_i hfound
    have hmarker := server.find_erase_ne
      (show toBeDeletedLockFileName ≠ accountsDirName by decide)
    refine hs.change hbusy hserver hmarker ?_ (fun h => (by cases h))
      ⟨hbusy.same hserver hmarker, hnone⟩
    rw [hs.others, hnone]
    cases server with
    | file => cases hfound
    | dir entries =>
      have hgone : ((Node.dir entries).erase accountsDirName).find accountsDirName = none := by
        simp [Node.erase, Node.find, Node.entries]
      simp only [Fs.otherAccounts, Fs.accounts, Fs.setServer, Option.bind_some, hgone]
      rfl
  · exact hs.goto (fun h => (by cases h)) trivial

theorem Kept.checkRenamed (hpc : s.pc = .checkRenamed removed) (hserver : s.fs.server = some server)
    (outcome : Outcome) : Kept start account (step account s outcome) := by
  have hstage := hs.stage
  rw [Stage, hpc] at hstage
  obtain ⟨hbusy, hnone⟩ := hstage
  unfold step
  simp only [hpc, hserver]
  split
  · exact hs.goto (fun h => (by cases h)) trivial
  · rename_i hrenamed
    refine hs.goto (fun h => (by cases h))
      ⟨hbusy.goesOn _ s.unread s.unseen, hnone, .inl ?_⟩
    rw [← hbusy.renamed]
    exact hrenamed
  · exact ⟨hs.untouched, hs.guarded, hs.others, .inl hbusy.renamed, hs.takenBack,
      fun h => (by cases h),
      ⟨hbusy.goesOn _ _ _, hnone, .inr rfl⟩⟩

theorem Kept.rename (hpc : s.pc = .rename removed) (hserver : s.fs.server = some server)
    (outcome : Outcome) : Kept start account (step account s outcome) := by
  have hstage := hs.stage
  rw [Stage, hpc] at hstage
  obtain ⟨hbusy, hnone, hseen⟩ := hstage
  have hmoved : ∀ renamed : Option Node,
      start.renamed = none ∨ s.unseen = true ∧ start.renamed = some (.dir []) →
        Kept start account { s with
          fs := { server := none, renamed := renamed }, pc := .removeRenamedLock removed } := by
    intro renamed hrenamed
    refine ⟨fun h => ?_, fun _ => .inr (.inl rfl), ?_, .inr hrenamed, hs.takenBack,
      fun h => (by cases h), ⟨hbusy.marked, rfl, hrenamed⟩⟩
    · have hmarked := hbusy.marked
      rw [show s.marked = false from h] at hmarked
      cases hmarked
    · rw [hnone]
      rfl
  unfold step
  simp only [hpc, hserver]
  split
  · rename_i hrenamed
    refine hmoved _ (.inl ?_)
    rw [← hbusy.renamed]
    exact hrenamed
  · rename_i hrenamed
    rw [hbusy.renamed] at hrenamed
    refine hmoved _ (.inr ⟨hseen.resolve_left ?_, hrenamed⟩)
    rw [hrenamed]
    exact nofun
  · exact hs.goto (fun h => (by cases h)) trivial

theorem Kept.removeRenamed (hmarked : s.marked = true) (hserver : s.fs.server = none)
    (hrenamed : start.renamed = none ∨ s.unseen = true ∧ start.renamed = some (.dir []))
    (hpc : pc.beforeAccount = false) (renamed : Option Node)
    (hstage : Stage start account { s with
      fs := { server := none, renamed := renamed }, pc := pc }) :
    Kept start account { s with fs := { server := none, renamed := renamed }, pc := pc } := by
  have hothers : s.fs.otherAccounts account = [] := by
    rw [Fs.otherAccounts, Fs.accounts, hserver]
    rfl
  refine ⟨fun h => ?_, fun _ => .inr (.inl rfl), hothers.symm.trans hs.others, .inr hrenamed,
    hs.takenBack, fun h => ?_, hstage⟩
  · rw [show s.marked = false from h] at hmarked
    cases hmarked
  · rw [hpc] at h
    cases h

/-- The directory of the server is not there any more, or was not there at all. -/
theorem Kept.step_gone (hserver : s.fs.server = none) (outcome : Outcome) :
    Kept start account (step account s outcome) := by
  have hstage := hs.stage
  cases hpc : s.pc with
  | start =>
    unfold step
    simp only [hpc, hserver]
    exact hs.goto (fun h => (by cases h)) trivial
  | removeRenamedLock removed =>
    rw [Stage, hpc] at hstage
    obtain ⟨hmarked, -, hrenamed⟩ := hstage
    unfold step
    simp only [hpc, hserver]
    split
    · refine hs.removeRenamed hmarked hserver hrenamed ?_ _ ?_
      · rfl
      · exact ⟨hmarked, rfl, hrenamed⟩
    · exact hs.goto (fun h => (by cases h)) ⟨hmarked, hserver, hrenamed⟩
    · exact hs.goto (fun h => (by cases h)) trivial
  | removeRenamed removed =>
    rw [Stage, hpc] at hstage
    obtain ⟨hmarked, -, hrenamed⟩ := hstage
    unfold step
    simp only [hpc, hserver]
    split
    · refine hs.removeRenamed hmarked hserver hrenamed ?_ _ ?_
      · rfl
      · trivial
    · exact hs.goto (fun h => (by cases h)) trivial
    · exact hs.goto (fun h => (by cases h)) trivial
  | mark | list | removeOthers others | checkAccounts | removeAccountOnly =>
    unfold step
    simpa only [hpc, hserver] using hs
  | takeMarkerBack removed | removeAccount | removeAccountsDir removed | checkRenamed removed =>
    unfold step
    simpa only [hpc, hserver] using hs
  | rename removed | done result =>
    unfold step
    simpa only [hpc, hserver] using hs

theorem Kept.step (outcome : Outcome) : Kept start account (step account s outcome) := by
  have hstage := hs.stage
  cases hserver : s.fs.server with
  | none => exact hs.step_gone hserver outcome
  | some server =>
    cases hpc : s.pc with
    | start =>
      rw [Stage, hpc] at hstage
      have hstill := hs.still (by rw [hpc]; rfl)
      unfold ServerRemoval.step
      simp only [hpc, hserver]
      cases outcome with
      | ok => exact hs.goto (fun _ => hstill) hstage
      | fail left => exact hs.goto (fun h => (by cases h)) trivial
    | mark => exact hs.mark hpc hserver outcome
    | list =>
      rw [Stage, hpc] at hstage
      have hstill := hs.still (by rw [hpc]; rfl)
      unfold ServerRemoval.step
      simp only [hpc, hserver]
      cases outcome with
      | ok =>
        refine hs.goto (fun _ => hstill)
          ⟨⟨hstage.marked, hstage.marker, hstage.renamed, hstage.takenBack⟩, fun other h => ?_⟩
        exact of_decide_eq_true (List.mem_filter.mp h).2
      | fail left => exact hs.goto (fun _ => hstill) trivial
    | removeOthers others =>
      cases others with
      | nil =>
        rw [Stage, hpc] at hstage
        obtain ⟨hbusy, -⟩ := hstage
        have hstill := hs.still (by rw [hpc]; rfl)
        unfold ServerRemoval.step
        simp only [hpc, hserver]
        exact hs.goto (fun _ => hstill)
          (hbusy.goesOn _ s.unread s.unseen)
      | cons other others => exact hs.removeOther hpc hserver outcome
    | checkAccounts => exact hs.checkAccounts hpc hserver outcome
    | removeAccountOnly =>
      rw [Stage, hpc] at hstage
      obtain ⟨hbusy, hother⟩ := hstage
      have hstill := hs.still (by rw [hpc]; rfl)
      unfold ServerRemoval.step
      simp only [hpc, hserver]
      exact hs.removeAccountDir hbusy hstill hserver outcome .takeMarkerBack
        (fun _ => rfl) fun _ _ hkeep => ⟨hkeep, hother⟩
    | takeMarkerBack removed => exact hs.takeMarkerBack hpc hserver outcome
    | removeAccount =>
      rw [Stage, hpc] at hstage
      obtain ⟨hbusy, hnone⟩ := hstage
      have hstill := hs.still (by rw [hpc]; rfl)
      unfold ServerRemoval.step
      simp only [hpc, hserver]
      exact hs.removeAccountDir hbusy hstill hserver outcome .removeAccountsDir
        (fun _ => rfl) fun _ _ hkeep => ⟨hkeep, hnone⟩
    | removeAccountsDir removed => exact hs.removeAccountsDir hpc hserver outcome
    | checkRenamed removed => exact hs.checkRenamed hpc hserver outcome
    | rename removed => exact hs.rename hpc hserver outcome
    | removeRenamedLock removed | removeRenamed removed =>
      rw [Stage, hpc, hserver] at hstage
      cases hstage.2.1
    | done result =>
      unfold ServerRemoval.step
      simp only [hpc]
      exact hs

end

end Steps

/-- What holds at every point of a removal, a crash at it included. -/
structure Safe (start : Fs) (account : String) (s : State) : Prop where
  /-- An error leaves the account where it was. -/
  error : s.pc = .done none → s.fs.hasAccount account = start.hasAccount account
  /-- Nothing is removed before the marker is there. -/
  untouched : s.marked = false → s.fs = start
  /-- The marker stays until the directory is gone or the marker is taken back. -/
  guarded : s.marked = true → s.fs.hasMarker = true ∨ s.fs.server = none ∨ s.takenBack = true
  /-- It is taken back for another account, or because the accounts could not be read. -/
  takenBack : s.takenBack = true → start.otherAccounts account ≠ [] ∨ s.unread = true
  others : s.fs.otherAccounts account = start.otherAccounts account
  /-- Without the account, either the marker is there, or the directory is gone, or the marker was
  taken back. -/
  last : start.hasAccount account = true → s.fs.hasAccount account = false →
    s.fs.hasMarker = true ∨ s.fs.server = none ∨ s.takenBack = true
  /-- What has the other name keeps it, unless it is an empty directory that could not be seen. -/
  renamed : ∀ node, start.renamed = some node → s.fs.renamed = some node ∨
    s.unseen = true ∧ node = .dir []

/-- At every point of a removal, whatever has failed before it, the account is there after an
error, the other accounts are there, and the marker refuses logins as long as the directory is
there, unless it was taken back for another account. -/
theorem remove_server_dir_safe (start : Fs) (account : String) (outcomes : List Outcome) :
    Safe start account (Runs.run (step account) (.start start) outcomes) := by
  have hkept := Runs.run_invariant (Kept start account) (fun _ outcome hs => Kept.step hs outcome)
    outcomes (.start start) (kept_start start account)
  refine ⟨fun hpc => hkept.still (by rw [hpc]; rfl), hkept.untouched, hkept.guarded,
    hkept.takenBack, hkept.others, fun hthere hgone => ?_, fun node hnode => ?_⟩
  · refine hkept.guarded ?_
    by_contra hmarked
    rw [Bool.not_eq_true] at hmarked
    rw [hkept.untouched hmarked, hthere] at hgone
    cases hgone
  · rcases hkept.renamed with hsame | hnone | ⟨hunseen, hempty⟩
    · exact .inl (hsame.trans hnode)
    · rw [hnone] at hnode
      cases hnode
    · rw [hempty] at hnode
      exact .inr ⟨hunseen, (Option.some.inj hnode).symm⟩

/-- Two accounts are on a server: one is removed with what else is there, and then the directory
is there without its marker. -/
theorem another_account_unmarks :
    ¬∀ (start : Fs) (account : String) (outcomes : List Outcome),
      start.hasAccount account = true →
        (Runs.run (step account) (.start start) outcomes).fs.hasAccount account = false →
          (Runs.run (step account) (.start start) outcomes).fs.hasMarker = true ∨
            (Runs.run (step account) (.start start) outcomes).fs.server.isNone = true := by
  intro h
  have hboth := h
    { server := some (.dir [("a", .dir [("x", .dir []), ("y", .dir [])]), ("cache.db", .file)])
      renamed := none } "x"
    [.ok, .ok, .ok, .ok, .ok, .ok, .ok, .ok] (by decide +kernel) (by decide +kernel)
  revert hboth
  decide +kernel

end ServerRemoval
end WbfMatrixClient
