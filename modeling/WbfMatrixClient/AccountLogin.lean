import Mathlib.Data.List.AList
import WbfMatrixClient.AccountNames

/-!
# Logging in

An account has a directory, whose name is made of the host of its server and of what was typed for
its user. Logging in makes what is missing there, asks the server for a token, moves the directory
to the name that belongs to the user that the server says it is, makes the crypto store of the new
device and seals its session. Here are the steps of a login, in the order of the code, on a data
directory, for every way in which each of them can fail.
-/

namespace WbfMatrixClient
namespace AccountLogin

open AccountNames

abbrev Name := Text

/-- The two encrypted names of `s/<server>/a/<account>`. -/
abbrev Path := Name × Name

inductive BackendKind where
  | wbfSdk
  | matrixSdkClient
deriving DecidableEq

structure Session where
  server : Text
  userId : Text
  deviceId : Text
  accessToken : Text
  storeDir : Option Path
  backend : Option BackendKind

/-- What is in `m/`: the crypto store of a device of a user, once it has been made. -/
inductive Store where
  | empty
  | ofDevice (owner : Text × Text) (roomKeys : List Text)
deriving DecidableEq

structure AccountFiles where
  /-- `session.sealed` -/
  session : Option Session := none
  /-- `m/` -/
  store : Option Store := none
  /-- `k/` -/
  snapshot : Option (List Text) := none

structure DataDir where
  /-- The servers without an account. -/
  bareServers : List Name
  /-- The servers that are being removed, or were left when this did not end. -/
  toBeDeleted : List Name
  accounts : AList fun _ : Path => AccountFiles

namespace DataDir

def find (disk : DataDir) (dir : Path) : Option AccountFiles :=
  disk.accounts.lookup dir

/-- The files in a directory, which are none when it is not there. -/
def files (disk : DataDir) (dir : Path) : AccountFiles :=
  (disk.find dir).getD {}

/-- The names in `s/`. -/
def serverNames (disk : DataDir) : List Name :=
  disk.bareServers ++ disk.accounts.keys.map Prod.fst

/-- The names in the `a/` of a server. -/
def accountNames (disk : DataDir) (server : Name) : List Name :=
  (disk.accounts.keys.filter fun dir => dir.1 = server).map Prod.snd

/-- The files of a directory are written; the directory and those above it are made. -/
def put (disk : DataDir) (dir : Path) (files : AccountFiles) : DataDir :=
  { disk with accounts := disk.accounts.insert dir files }

/-- A directory gets another path, if it is there. -/
def rename (disk : DataDir) (source target : Path) : Option DataDir :=
  (disk.find source).map fun files =>
    { disk with accounts := (disk.accounts.erase source).insert target files }

section Files

variable {disk renamed : DataDir} {dir other source target : Path} {contents : AccountFiles}

@[simp]
theorem find_put : (disk.put dir contents).find dir = some contents := AList.lookup_insert _

theorem find_put_of_ne (h : other ≠ dir) : (disk.put dir contents).find other = disk.find other :=
  AList.lookup_insert_ne h

@[simp]
theorem files_put : (disk.put dir contents).files dir = contents := by
  rw [files, find_put]
  rfl

section

variable (h : disk.rename source target = some renamed)

include h

theorem find_rename_target : renamed.find target = disk.find source := by
  rw [rename, Option.map_eq_some_iff] at h
  obtain ⟨contents, hfound, rfl⟩ := h
  rw [hfound]
  exact AList.lookup_insert _

theorem find_rename_source (hne : source ≠ target) : renamed.find source = none := by
  rw [rename, Option.map_eq_some_iff] at h
  obtain ⟨contents, -, rfl⟩ := h
  exact (AList.lookup_insert_ne hne).trans (AList.lookup_erase _ _)

theorem find_rename_of_ne (hsource : other ≠ source) (htarget : other ≠ target) :
    renamed.find other = disk.find other := by
  rw [rename, Option.map_eq_some_iff] at h
  obtain ⟨contents, -, rfl⟩ := h
  exact (AList.lookup_insert_ne htarget).trans (AList.lookup_erase_ne hsource)

end

theorem rename_eq_none_iff : disk.rename source target = none ↔ disk.find source = none :=
  Option.map_eq_none_iff

end Files

end DataDir

/-- In which directory a name stands; the names of one cannot be read in another. -/
inductive DirScope where
  | server
  | account (serverHost : Text)

/-- How directories are named with the key of a vault. -/
structure Naming where
  toLowercase : Text → Text
  toDirName : DirScope → Text → Option Name
  findDirNamePlaintext : DirScope → Name → Option Text

structure AccountDir where
  serverHost : Text
  localpart : Text
  serverDirName : Name
  accountDirName : Name
deriving DecidableEq

namespace AccountDir

def dir (account : AccountDir) : Path :=
  (account.serverDirName, account.accountDirName)

def locate (naming : Naming) (server user : Text) : Option AccountDir :=
  let serverHost := serverHostOf naming.toLowercase server
  let localpart := localpartOf user
  match naming.toDirName .server serverHost,
      naming.toDirName (.account serverHost) localpart with
  | some serverDirName, some accountDirName =>
      some { serverHost, localpart, serverDirName, accountDirName }
  | _, _ => none

/-- Directories whose names differ from one in the case only are the one. -/
def verifyNameOnDisk (existing : List Name) (name expected : Text)
    (decrypt : Name → Option Text) : Bool :=
  existing.all fun other => !eqIgnoreAsciiCase other name || decrypt other == some expected

def verifyNamesOnDisk (naming : Naming) (disk : DataDir) (account : AccountDir) : Bool :=
  verifyNameOnDisk disk.serverNames account.serverDirName account.serverHost
      (naming.findDirNamePlaintext .server) &&
    verifyNameOnDisk (disk.accountNames account.serverDirName) account.accountDirName
      account.localpart (naming.findDirNamePlaintext (.account account.serverHost))

def isLoggedIn (disk : DataDir) (account : AccountDir) : Bool :=
  (disk.files account.dir).session.isSome

def matrixStoreDir (disk : DataDir) (account : AccountDir) : Option Store :=
  (disk.files account.dir).store

end AccountDir

inductive LoginError where
  | locked
  | usage
  | accountBusy
  | serverPendingRemoval
  | io
  | server
  | alreadyExists
deriving DecidableEq

/-- What removing a directory leaves of it. -/
inductive Removal where
  | done
  | failed (left : Option Store)
deriving DecidableEq

def Removal.left : Removal → Option Store
  | .done => none
  | .failed left => left

/-- What the server, the file system and the libraries do in a login, step by step. -/
structure Env where
  unlocked : Bool
  locks : Bool
  readsDirs : Bool
  leftover : Removal
  backend : BackendKind
  /-- The user, the device and the token that the server grants, if it does. -/
  answer : Option (Text × Text × Text)
  validUserId : Text → Bool
  makesStoreDir : Bool
  opensStore : Bool
  savesDevice : Bool
  rereadsDirs : Bool
  makesAccountsDir : Bool
  renames : Bool
  rollback : Removal
  seals : Bool
  writesCurrent : Bool

structure Step (α : Type) where
  result : Except LoginError α
  disk : DataDir

structure Outcome where
  result : Except LoginError AccountDir
  disk : DataDir
  /-- The token that the server has granted. -/
  obtained : Option Text
  /-- The tokens that a logout was sent of. -/
  loggedOut : List Text

section Steps

variable (env : Env) (naming : Naming)

def deleteMatrixStore (removal : Removal) (disk : DataDir) (account : AccountDir) : Step Unit :=
  if (account.matrixStoreDir disk).isNone then { result := .ok (), disk }
  else
    { result := if removal = .done then .ok () else .error .io
      disk := disk.put account.dir { disk.files account.dir with store := removal.left } }

/-- The `m/` of an account is made if it is not there, and the directory it is in. -/
def makeStoreDir (disk : DataDir) (account : AccountDir) : DataDir :=
  disk.put account.dir
    { disk.files account.dir with store := some ((account.matrixStoreDir disk).getD .empty) }

/-- The crypto store becomes that of a device, unless it is that of another. -/
def adoptDevice (disk : DataDir) (account : AccountDir) (user device : Text) : Step Unit :=
  match account.matrixStoreDir disk with
  | some (.ofDevice owner _) =>
      { result := if owner = (user, device) then .ok () else .error .io, disk }
  | _ =>
      if env.savesDevice then
        { result := .ok ()
          disk := disk.put account.dir
            { disk.files account.dir with store := some (.ofDevice (user, device) []) } }
      else
        { result := .error .io, disk }

/-- `OlmEngine::open` -/
def openEngine (disk : DataDir) (account : AccountDir) (user device : Text) : Step Unit :=
  if !env.validUserId user then { result := .error .usage, disk }
  else if !env.makesStoreDir then { result := .error .io, disk }
  else if !env.opensStore then { result := .error .io, disk := makeStoreDir disk account }
  else adoptDevice env (makeStoreDir disk account) account user device

def createCryptoStoreFor (disk : DataDir) (account : AccountDir) (session : Session) : Step Unit :=
  let opened := openEngine env disk account session.userId session.deviceId
  match opened.result with
  | .ok _ => opened
  | .error _ =>
      { result := .error .io, disk := (deleteMatrixStore env.rollback opened.disk account).disk }

def moveToCanonicalDir (disk : DataDir) (account : AccountDir) (server user : Text) :
    Step AccountDir :=
  match AccountDir.locate naming server user with
  | none => { result := .error .usage, disk }
  | some canonical =>
      if !env.rereadsDirs then { result := .error .io, disk }
      else if !canonical.verifyNamesOnDisk naming disk then { result := .error .usage, disk }
      else if canonical.dir = account.dir then { result := .ok account, disk }
      else if (disk.find canonical.dir).isSome then { result := .error .alreadyExists, disk }
      else if !env.makesAccountsDir then { result := .error .io, disk }
      else
        match disk.rename account.dir canonical.dir with
        | none => { result := .error .io, disk }
        | some renamed =>
            if env.renames then { result := .ok canonical, disk := renamed }
            else { result := .error .io, disk }

def sealSession (disk : DataDir) (account : AccountDir) (session : Session) : Step AccountDir :=
  if !env.seals then { result := .error .io, disk }
  else
    { result := .ok account
      disk := disk.put account.dir { disk.files account.dir with session := some session } }

/-- The store that a login to a wbf server has made goes when its session cannot be sealed. -/
def sealOrRollBack (disk : DataDir) (account : AccountDir) (session : Session) : Step AccountDir :=
  let done := sealSession env disk account session
  match done.result with
  | .ok _ => done
  | .error error =>
      if env.backend = .wbfSdk then
        { result := .error error, disk := (deleteMatrixStore env.rollback done.disk account).disk }
      else
        done

/-- The end of a login, in the directory that it has come to. -/
def createAndSeal (disk : DataDir) (account : AccountDir) (session : Session) : Step AccountDir :=
  if env.backend = .wbfSdk then
    let created := createCryptoStoreFor env disk account session
    match created.result with
    | .error error => { result := .error error, disk := created.disk }
    | .ok _ => sealOrRollBack env created.disk account session
  else
    sealOrRollBack env disk account session

def finishLoginLocally (disk : DataDir) (account : AccountDir) (session : Session) (server : Text) :
    Step AccountDir :=
  let moved := moveToCanonicalDir env naming disk account server session.userId
  match moved.result with
  | .error error => { result := .error error, disk := moved.disk }
  | .ok account => createAndSeal env moved.disk account session

/-- What is done before the server is asked. -/
def prepare (disk : DataDir) (server user : Text) : Step AccountDir :=
  if !env.unlocked then { result := .error .locked, disk }
  else if !env.locks then { result := .error .accountBusy, disk }
  else
    match AccountDir.locate naming server user with
    | none => { result := .error .usage, disk }
    | some account =>
        if !env.readsDirs then { result := .error .io, disk }
        else if !account.verifyNamesOnDisk naming disk then { result := .error .usage, disk }
        else if account.serverDirName ∈ disk.toBeDeleted then
          { result := .error .serverPendingRemoval, disk }
        else if !account.isLoggedIn disk ∧ (account.matrixStoreDir disk).isSome then
          let removed := deleteMatrixStore env.leftover disk account
          match removed.result with
          | .ok _ => { result := .ok account, disk := removed.disk }
          | .error error => { result := .error error, disk := removed.disk }
        else { result := .ok account, disk }

def trimEndSlashes (server : Text) : Text :=
  (server.reverse.dropWhile fun c => c = '/').reverse

/-- The session that is made of what the server grants. -/
def sessionOf (account : AccountDir) (server user device token : Text) : Session :=
  { server := trimEndSlashes server
    userId := user
    deviceId := device
    accessToken := token
    storeDir := if env.backend = .wbfSdk then none else some account.dir
    backend := some env.backend }

/-- The token, which the client of a plain server has before it opens its crypto store. -/
def obtainSession (disk : DataDir) (account : AccountDir) (server : Text) :
    Option Text × Step Session :=
  match env.backend with
  | .wbfSdk =>
      match env.answer with
      | none => (none, { result := .error .server, disk })
      | some (user, device, token) =>
          (some token, { result := .ok (sessionOf env account server user device token), disk })
  | .matrixSdkClient =>
      if !env.makesStoreDir then (none, { result := .error .io, disk })
      else if !env.opensStore then
        (none, { result := .error .io, disk := makeStoreDir disk account })
      else
        match env.answer with
        | none => (none, { result := .error .server, disk := makeStoreDir disk account })
        | some (user, device, token) =>
            let adopted := adoptDevice env (makeStoreDir disk account) account user device
            (some token,
              { result := adopted.result.map fun _ =>
                  sessionOf env account server user device token
                disk := adopted.disk })

def logIn (disk : DataDir) (server user : Text) : Outcome :=
  let prepared := prepare env naming disk server user
  match prepared.result with
  | .error error =>
      { result := .error error, disk := prepared.disk, obtained := none, loggedOut := [] }
  | .ok account =>
      let (obtained, got) := obtainSession env prepared.disk account server
      match got.result with
      | .error error => { result := .error error, disk := got.disk, obtained, loggedOut := [] }
      | .ok session =>
          let finished := finishLoginLocally env naming got.disk account session server
          match finished.result with
          | .error error =>
              { result := .error error, disk := finished.disk, obtained
                loggedOut := [session.accessToken] }
          | .ok account =>
              { result := if env.writesCurrent then .ok account else .error .io
                disk := finished.disk, obtained, loggedOut := [] }

end Steps

/-- The names of directories are what they stand for. -/
def exampleNaming : Naming :=
  { toLowercase := List.map Char.toLower
    toDirName := fun _ plaintext => if plaintext = [] then none else some plaintext
    findDirNamePlaintext := fun _ name => some name }

/-- A wbf server grants a device, and nothing fails that does not have to. -/
def exampleEnv (answer : Text × Text × Text) : Env :=
  { unlocked := true
    locks := true
    readsDirs := true
    leftover := .done
    backend := .wbfSdk
    answer := some answer
    validUserId := fun _ => true
    makesStoreDir := true
    opensStore := true
    savesDevice := true
    rereadsDirs := true
    makesAccountsDir := true
    renames := true
    rollback := .done
    seals := true
    writesCurrent := true }

end AccountLogin
end WbfMatrixClient
