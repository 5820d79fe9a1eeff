import WbfMatrixClient.AccountNames

/-!
# Whom the deleting commands delete

Logging out and destroying an account take the full Matrix ID that a user types. The directory of
the account is found by its localpart and the host of its server, the recovery key and the rows of
the cache by the whole ID, each in a list of its own.
-/

namespace WbfMatrixClient
namespace AccountDeletion

open AccountNames

structure Account where
  localpart : Text
  /-- The user the directory was made for, which is the one in its sealed session. -/
  owner : Text
  hasSession : Bool
deriving DecidableEq

structure ServerEntry where
  host : Text
  accounts : List Account
  /-- The users that the cache has rows of. -/
  cached : Option (List Text)

structure DataDirMap where
  servers : List ServerEntry
  recoveryKeys : List Text

/-- The accounts of a name, one at most for each server. -/
def matchesOf (localpart : Text) :
    List ServerEntry → Except UsageError (List (ServerEntry × Account))
  | [] => .ok []
  | entry :: rest =>
      match findOne entry.accounts Account.localpart localpart with
      | .error error => .error error
      | .ok none => matchesOf localpart rest
      | .ok (some account) => (matchesOf localpart rest).map fun found => (entry, account) :: found

namespace DataDirMap

variable (toLowercase : Text → Text)

/-- The servers that are looked in. -/
def searched (map : DataDirMap) (server : Option Text) : Except UsageError (List ServerEntry) :=
  match server with
  | some server =>
      (findOne map.servers ServerEntry.host (serverHostOf toLowercase server)).map Option.toList
  | none => .ok map.servers

def findAccountDir (map : DataDirMap) (user : Text) (server : Option Text) :
    Except UsageError (ServerEntry × Account) :=
  match map.searched toLowercase server with
  | .error error => .error error
  | .ok servers =>
      match matchesOf (localpartOf user) servers with
      | .error error => .error error
      | .ok [] => .error .noAccount
      | .ok [found] => .ok found
      | .ok _ => .error .manyServers

def findRecoveryKeyUserId (map : DataDirMap) (user : Text) : Except UsageError (Option Text) :=
  findOne map.recoveryKeys id user

def findAccountByFullMxid (map : DataDirMap) (user : Text) (server : Option Text) :
    Except UsageError (ServerEntry × Account) :=
  if ¬['@'].isPrefixOf user ∨ !user.contains ':' then .error .notFullId
  else map.findAccountDir toLowercase user server

end DataDirMap

/-- What a command takes away. -/
inductive Effect where
  | forgetRows (user : Text)
  | logOut (account : Account)
  | delRecoveryKey (user : Text)
  | removeDir (account : Account)
deriving DecidableEq

/-- What a command does, in order, to an account, when nothing fails. -/
structure Deletion where
  account : Account
  effects : List Effect
deriving DecidableEq

section Commands

variable (toLowercase : Text → Text)

def logOut (map : DataDirMap) (user : Text) (server : Option Text) : Except UsageError Deletion :=
  match map.findAccountByFullMxid toLowercase user server with
  | .error error => .error error
  | .ok (_, account) => .ok { account := account, effects := [.logOut account] }

/-- The user whose rows go, when the server has a cache. -/
def findCachedUser (entry : ServerEntry) (user : Text) : Except UsageError (Option Text) :=
  match entry.cached with
  | some users => findOne users id user
  | none => .ok none

def destroyAccount (map : DataDirMap) (user : Text) (server : Option Text) :
    Except UsageError Deletion :=
  match map.findAccountByFullMxid toLowercase user server with
  | .error error => .error error
  | .ok (entry, account) =>
      match map.findRecoveryKeyUserId user with
      | .error error => .error error
      | .ok kept =>
          if !account.hasSession ∧ server = none then .error .notLoggedIn
          else
            match findCachedUser entry user with
            | .error error => .error error
            | .ok cached =>
                .ok
                  { account := account
                    effects := (cached.map Effect.forgetRows).toList ++ [.logOut account] ++
                      (kept.map Effect.delRecoveryKey).toList ++ [.removeDir account] }

end Commands

/-- An account is the user's, as far as its session says whose it is. -/
def IsUsers (account : Account) (user : Text) : Prop :=
  account.hasSession = true → eqIgnoreAsciiCase account.owner user = true

/-- An effect on the account of a deletion is on an account of the user, and what else goes is of
the same user as the account. -/
def Right (account : Account) (user : Text) : Effect → Prop
  | .logOut other | .removeDir other => IsUsers other user
  | .forgetRows owner | .delRecoveryKey owner => owner = account.owner

/-- Whatever a command has done when it ends or fails, it was right. -/
def Respects (user : Text) (command : Except UsageError Deletion) : Prop :=
  ∀ deletion, command = .ok deletion →
    ∀ done, ∀ effect ∈ deletion.effects.take done, Right deletion.account user effect

/-- The entries that an address stands for, or all. -/
def Searched (toLowercase : Text → Text) (map : DataDirMap) :
    Option Text → List ServerEntry → Prop
  | some server, servers => ∃ entry, servers = [entry] ∧
      Names map.servers ServerEntry.host (serverHostOf toLowercase server) entry
  | none, servers => servers = map.servers

/-- The only account that a full Matrix ID and an address can be about: it has the localpart, and
no account of another server that is looked in has it. -/
def Meant (toLowercase : Text → Text) (map : DataDirMap) (user : Text) (server : Option Text)
    (entry : ServerEntry) (account : Account) : Prop :=
  (['@'].isPrefixOf user = true ∧ ':' ∈ user) ∧
    ∃ before after, Searched toLowercase map server (before ++ entry :: after) ∧
      Names entry.accounts Account.localpart (localpartOf user) account ∧
        (∀ other ∈ before, NamesNone other.accounts Account.localpart (localpartOf user)) ∧
          ∀ other ∈ after, NamesNone other.accounts Account.localpart (localpartOf user)

/-- A list has several names that differ from what was typed in the case only, and none that is
the same. -/
def Ambiguous (users : List Text) (user : Text) : Prop :=
  ¬NamesNone users id user ∧ ∀ owner, ¬Names users id user owner

/-- The domain that was typed is that of the account that its localpart stands for, and the
recovery key and the rows that the whole ID stands for are of the user of this account. -/
def SamePerson (toLowercase : Text → Text) (map : DataDirMap) (user : Text) (server : Option Text) :
    Prop :=
  ∀ entry account, Meant toLowercase map user server entry account →
    IsUsers account user ∧
      (account.hasSession = true ∨ server ≠ none →
        (∀ users, entry.cached = some users → ¬Ambiguous users user) →
        ¬Ambiguous map.recoveryKeys user →
          (∀ owner, Names map.recoveryKeys id user owner → owner = account.owner) ∧
            ∀ users, entry.cached = some users →
              ∀ owner, Names users id user owner → owner = account.owner)

section Lookups

variable {toLowercase : Text → Text}

variable {servers : List ServerEntry}

theorem matchesOf_nil_iff {localpart : Text} :
    matchesOf localpart servers = .ok [] ↔
      ∀ entry ∈ servers, NamesNone entry.accounts Account.localpart localpart := by
  induction servers with
  | nil => exact ⟨fun _ _ h => (List.not_mem_nil h).elim, fun _ => rfl⟩
  | cons entry rest ih =>
    rw [matchesOf, List.forall_mem_cons, ← findOne_eq_none_iff]
    cases hfound : findOne entry.accounts Account.localpart localpart with
    | error error => exact ⟨fun h => (by cases h), fun h => (by cases h.1)⟩
    | ok found =>
      cases found with
      | none => exact ih.trans ⟨fun h => ⟨rfl, h⟩, fun h => h.2⟩
      | some account =>
        refine ⟨fun h => ?_, fun h => (by cases h.1)⟩
        cases hrest : matchesOf localpart rest with
        | error error | ok found =>
          rw [hrest] at h
          cases h

variable {entry : ServerEntry} {account : Account}

/-- One server has an account of the name, and no other has. -/
theorem matchesOf_singleton_iff {localpart : Text} :
    matchesOf localpart servers = .ok [(entry, account)] ↔
      ∃ before after, servers = before ++ entry :: after ∧
        Names entry.accounts Account.localpart localpart account ∧
          (∀ other ∈ before, NamesNone other.accounts Account.localpart localpart) ∧
            ∀ other ∈ after, NamesNone other.accounts Account.localpart localpart := by
  constructor
  · intro h
    induction servers with
    | nil => cases h
    | cons first rest ih =>
      rw [matchesOf] at h
      cases hfound : findOne first.accounts Account.localpart localpart with
      | error error =>
        rw [hfound] at h
        cases h
      | ok found =>
        rw [hfound] at h
        cases found with
        | none =>
          obtain ⟨before, after, rfl, hnames, hbefore, hafter⟩ := ih h
          refine ⟨first :: before, after, rfl, hnames, ?_, hafter⟩
          rw [List.forall_mem_cons]
          exact ⟨findOne_eq_none_iff.mp hfound, hbefore⟩
        | some other =>
          cases hrest : matchesOf localpart rest with
          | error error =>
            rw [hrest] at h
            cases h
          | ok others =>
            rw [hrest] at h
            cases h
            exact ⟨[], rest, rfl, findOne_eq_some_iff.mp hfound,
              fun other hother => (List.not_mem_nil hother).elim, matchesOf_nil_iff.mp hrest⟩
  · rintro ⟨before, after, rfl, hnames, hbefore, hafter⟩
    induction before with
    | nil =>
      rw [List.nil_append, matchesOf, findOne_eq_some_iff.mpr hnames]
      simp only [matchesOf_nil_iff.mpr hafter]
      rfl
    | cons first rest ih =>
      rw [List.forall_mem_cons] at hbefore
      rw [List.cons_append, matchesOf, findOne_eq_none_iff.mpr hbefore.1]
      exact ih hbefore.2

variable {map : DataDirMap} {server : Option Text}

/-- An address that nothing stands for leaves no server to look in. -/
theorem searched_eq_iff (hsome : servers ≠ []) :
    map.searched toLowercase server = .ok servers ↔ Searched toLowercase map server servers := by
  cases server with
  | none =>
    simp only [DataDirMap.searched, Searched, Except.ok.injEq]
    exact eq_comm
  | some server =>
    simp only [DataDirMap.searched, Searched]
    cases hfound : findOne map.servers ServerEntry.host (serverHostOf toLowercase server) with
    | error error =>
      refine ⟨fun h => (by cases h), ?_⟩
      rintro ⟨entry, -, hnames⟩
      rw [findOne_eq_some_iff.mpr hnames] at hfound
      cases hfound
    | ok found =>
      cases found with
      | none =>
        constructor
        · intro h
          cases h
          exact (hsome rfl).elim
        · rintro ⟨entry, -, hnames⟩
          rw [findOne_eq_some_iff.mpr hnames] at hfound
          cases hfound
      | some entry =>
        constructor
        · intro h
          cases h
          exact ⟨entry, rfl, findOne_eq_some_iff.mp hfound⟩
        · rintro ⟨other, rfl, hnames⟩
          rw [findOne_eq_some_iff.mpr hnames] at hfound
          cases hfound
          rfl

variable {user : Text}

theorem findAccountByFullMxid_iff :
    map.findAccountByFullMxid toLowercase user server = .ok (entry, account) ↔
      Meant toLowercase map user server entry account := by
  unfold DataDirMap.findAccountByFullMxid Meant
  split_ifs with hfull
  · refine ⟨fun h => (by cases h), ?_⟩
    rintro ⟨⟨hat, hcolon⟩, -⟩
    rw [hat, List.contains_iff_mem.mpr hcolon] at hfull
    simp at hfull
  · have hid : ['@'].isPrefixOf user = true ∧ ':' ∈ user := by
      rw [not_or] at hfull
      obtain ⟨hat, hcolon⟩ := hfull
      exact ⟨by simpa using hat, by simpa using hcolon⟩
    rw [DataDirMap.findAccountDir]
    constructor
    · intro h
      refine ⟨hid, ?_⟩
      cases hsearched : map.searched toLowercase server with
      | error error =>
        rw [hsearched] at h
        cases h
      | ok servers =>
        rw [hsearched] at h
        simp only at h
        split at h
        · cases h
        · cases h
        · rename_i found hmatches
          cases h
          obtain ⟨before, after, rfl, hnames⟩ := matchesOf_singleton_iff.mp hmatches
          exact ⟨before, after, (searched_eq_iff (by simp)).mp hsearched, hnames⟩
        · cases h
    · rintro ⟨-, before, after, hsearched, hnames⟩
      rw [(searched_eq_iff (by simp)).mpr hsearched]
      simp only [matchesOf_singleton_iff.mpr ⟨before, after, rfl, hnames⟩]

theorem findOne_error_iff {users : List Text} :
    (∃ error, findOne users id user = .error error) ↔ Ambiguous users user := by
  unfold Ambiguous
  rw [← findOne_eq_none_iff]
  cases hfound : findOne users id user with
  | error error =>
    refine ⟨fun _ => ⟨nofun, fun owner hnames => ?_⟩, fun _ => ⟨error, rfl⟩⟩
    rw [findOne_eq_some_iff.mpr hnames] at hfound
    cases hfound
  | ok found =>
    refine ⟨fun h => (by obtain ⟨error, h⟩ := h; cases h), ?_⟩
    rintro ⟨hsome, hnone⟩
    cases found with
    | none => exact (hsome rfl).elim
    | some owner => exact (hnone owner (findOne_eq_some_iff.mp hfound)).elim

theorem findOne_of_not_ambiguous {users : List Text} (h : ¬Ambiguous users user) :
    ∃ found, findOne users id user = .ok found := by
  cases hfound : findOne users id user with
  | error error => exact (h (findOne_error_iff.mp ⟨error, hfound⟩)).elim
  | ok found => exact ⟨found, rfl⟩

/-- What an account is logged out and destroyed with, when nothing is ambiguous. -/
theorem destroyAccount_eq_ok {kept cached : Option Text}
    (hfound : map.findAccountByFullMxid toLowercase user server = .ok (entry, account))
    (hserver : account.hasSession = true ∨ server ≠ none)
    (hkept : map.findRecoveryKeyUserId user = .ok kept)
    (hcached : findCachedUser entry user = .ok cached) :
    destroyAccount toLowercase map user server = .ok
      { account := account
        effects := (cached.map Effect.forgetRows).toList ++ [.logOut account] ++
          (kept.map Effect.delRecoveryKey).toList ++ [.removeDir account] } := by
  have hgoes : ¬((!account.hasSession) = true ∧ server = none) := by
    rintro ⟨hnot, hnone⟩
    rcases hserver with hsession | hsome
    · rw [hsession] at hnot
      cases hnot
    · exact hsome hnone
  simp only [destroyAccount, hfound, hkept, hcached]
  rw [if_neg hgoes]

end Lookups

end AccountDeletion
end WbfMatrixClient
