import WbfMatrixClient.Incoming
import WbfMatrixClient.Wire
import WbfMatrixClient.Lib.Runs

/-!
# The backup of room keys

The room keys of a device are kept on the server too, encrypted for a key of the account. Three
operations switch the version that a device uploads to: looking for the latest one (which may make
it), a restore, and the adoption of a key that another device has sent. A room key is marked once it
is in the backup; the mark does not say in which version.

Each request, and each writing of the crypto store, is a step of its own. The program may end between
two of them, and other devices may change the latest version.
-/

namespace WbfMatrixClient
namespace KeyBackup

inductive UploadOutcome where
  | caughtUp (batches : Nat)
  | stoppedAtLimit (batches : Nat)
deriving DecidableEq

inductive BackupSetup where
  | enabled (version : String)
  | created (version : String)
  | noKeyHere (version : String)
  | noBackup
deriving DecidableEq

/-- What has come in, out of how many. -/
structure RestoreReport (R : Type) where
  imported : Nat
  total : Nat
  sessions : List R
deriving DecidableEq

/-- What an operation returns. -/
inductive Result (R : Type) where
  | setup (setup : BackupSetup)
  | restored (report : RestoreReport R)
  | adopted (report : Option (RestoreReport R))
  | uploaded (outcome : UploadOutcome)
deriving DecidableEq

/-- The keys of backups: what the server is told of one, whether one belongs to what the server
says, and how one is read from the inbox. -/
structure BackupPackages (S : Type) where
  toBackupInfo : S → Json
  backupKeyMatches : S → Json → Bool
  fromBase64 : String → Option S

/-- A version on the server, with the key of this device that it was made with. -/
structure Backup (S : Type) where
  version : String
  info : Json
  maker : Option S

/-- How a step ends. A reply has the new version, the room keys that the key opens, or those that
are better than what is in the store; other replies say nothing more. An error may come after what
was asked has been done. -/
inductive Reply (R : Type) where
  | ok (version : String) (rooms : List R)
  | refused (error : SdkError)
  | lost (version : String) (error : SdkError)

/-- What comes after uploading has been enabled. -/
inductive After where
  | ensured (setup : BackupSetup)
  | restoring
  | adopting (secrets : List String) (info : Json)

/-- Where the operation is: what its next step is to do. -/
inductive Stage (S R : Type) where
  | idle
  | checkingLatest (createIfMissing : Bool) (fresh : S)
  | readingKey (version : String) (info : Json)
  | disabling (setup : BackupSetup)
  | signing (key : S)
  | creating (key : S)
  | checkingRestored (key : S)
  | readingInbox
  | checkingInbox (secrets : List String)
  | saving (key : S) (version : String) (after : After)
  | enabling (key : S) (version : String) (after : After)
  | clearingInbox (secrets : List String) (info : Json) (matching : Option S) (version : String)
  | downloading (version : String) (isAdopted : Bool)
  | importing (version : String) (rooms : List R) (isAdopted : Bool)
  | collecting (batches : Nat)
  | sendingKeys (version : String) (rooms : List R) (batches : Nat)
  | marking (version : String) (rooms : List R) (batches : Nat)

def uploadRoundsLimit : Nat :=
  1000

/-- How many room keys one request has at most. -/
def batchLimit : Nat :=
  100

section Devices

variable {S R : Type}

/-- The device with its crypto store, the latest version on the server, and what has been seen. -/
structure Device (S R : Type) where
  /-- The room keys, each with its mark. -/
  sessions : List (R × Bool)
  /-- The version that is uploaded to, with its key. -/
  enabled : Option (String × S)
  /-- What the crypto store has of the backup. -/
  savedKey : Option S
  savedVersion : Option String
  inbox : List String
  stage : Stage S R
  latest : Option (Backup S)
  /-- What was uploaded to a version or imported from it. -/
  kept : List (String × R)
  /-- What the server has said of a version. -/
  checked : List (String × Json)

/-- What happens next. -/
inductive Action (S R : Type) where
  | ensureBackup (createIfMissing : Bool) (fresh : S)
  | restoreRoomKeys (key : S)
  | adoptBackupKeyFromInbox
  | uploadRoomKeys
  | reply (reply : Reply R)
  | importNew (rooms : List R)
  | receiveSecret (secret : String)
  | others (latest : Option (Backup S))
  /-- The program ends, and the crypto store is opened again. -/
  | restart

namespace Device

abbrev Step (S R : Type) :=
  Device S R × Option (Except SdkError (Result R))

def goto (d : Device S R) (stage : Stage S R) : Step S R :=
  ({ d with stage := stage }, none)

def done (d : Device S R) (result : Result R) : Step S R :=
  ({ d with stage := .idle }, some (.ok result))

def fail (d : Device S R) (error : SdkError) : Step S R :=
  ({ d with stage := .idle }, some (.error error))

/-- A step with no effect but in its reply. -/
def onReply (d : Device S R) (reply : Reply R) (next : Step S R) : Step S R :=
  match reply with
  | .ok _ _ => next
  | .refused error => d.fail error
  | .lost _ error => d.fail error

/-- What the server has just said of its latest version. -/
def seeLatest (d : Device S R) : Device S R :=
  match d.latest with
  | none => d
  | some backup => { d with checked := (backup.version, backup.info) :: d.checked }

variable [DecidableEq R]

/-- New room keys have no mark. -/
def importNew (d : Device S R) (rooms : List R) : Device S R :=
  { d with
    sessions := d.sessions ++
      (rooms.filter fun room => room ∉ d.sessions.map Prod.fst).map fun room => (room, false) }

/-- Room keys of a backup come in with a mark, and so does one that is better than what was there. -/
def importKept (d : Device S R) (version : String) (rooms better : List R) : Device S R :=
  let new := rooms.filter fun room => room ∉ d.sessions.map Prod.fst
  { d with
    sessions := (d.sessions.map fun (room, isMarked) =>
        (room, isMarked || decide (room ∈ rooms ∧ room ∈ better))) ++
      new.map fun room => (room, true)
    kept := rooms.map (fun room => (version, room)) ++ d.kept }

def markAll (d : Device S R) (rooms : List R) : Device S R :=
  { d with
    sessions := d.sessions.map fun (room, isMarked) => (room, isMarked || decide (room ∈ rooms)) }

/-- The room keys without a mark, as many as go into one request. -/
def unmarked (d : Device S R) : List R :=
  ((d.sessions.filter fun session => !session.2).map Prod.fst).take batchLimit

/-- The step that is next, and what it returns if it is the last one. -/
def proceed (packages : BackupPackages S) (d : Device S R) (reply : Reply R) : Step S R :=
  match d.stage with
  | .idle => (d, none)
  | .checkingLatest createIfMissing fresh =>
      d.onReply reply <|
        match d.latest with
        | some backup => d.seeLatest.goto (.readingKey backup.version backup.info)
        | none =>
            if createIfMissing then d.goto (.signing fresh) else d.goto (.disabling .noBackup)
  | .readingKey version info =>
      d.onReply reply <|
        match d.savedKey with
        | some key =>
            if packages.backupKeyMatches key info then
              d.goto (.saving key version (.ensured (.enabled version)))
            else d.goto (.disabling (.noKeyHere version))
        | none => d.goto (.disabling (.noKeyHere version))
  | .disabling setup =>
      let cleared : Device S R := { d with sessions := d.sessions.map fun (room, _) => (room, false) }
      match d.enabled, reply with
      | none, _ => d.done (.setup setup)
      | some _, .ok _ _ => { cleared with enabled := none }.done (.setup setup)
      | some _, .lost _ error => { cleared with enabled := none }.fail error
      | some _, .refused error => { d with enabled := none }.fail error
  | .signing key => d.onReply reply (d.goto (.creating key))
  | .creating key =>
      let made (version : String) : Device S R := { d with
        latest := some { version := version, info := packages.toBackupInfo key, maker := some key } }
      match reply with
      | .ok version _ =>
          { made version with checked := (version, packages.toBackupInfo key) :: d.checked }.goto
            (.saving key version (.ensured (.created version)))
      | .lost version error => (made version).fail error
      | .refused error => d.fail error
  | .checkingRestored key =>
      d.onReply reply <|
        match d.latest with
        | none => d.fail (.usage "there is no backup on the server to restore from")
        | some backup =>
            if packages.backupKeyMatches key backup.info then
              d.seeLatest.goto (.saving key backup.version .restoring)
            else
              d.seeLatest.fail (.usage ("this key does not open the server's backup (version " ++
                backup.version ++ ")"))
  | .readingInbox =>
      d.onReply reply <|
        if d.inbox.isEmpty then d.done (.adopted none) else d.goto (.checkingInbox d.inbox)
  | .checkingInbox secrets =>
      d.onReply reply <|
        match d.latest with
        | none => d.done (.adopted none)
        | some backup =>
            let matching := secrets.findSome? fun secret =>
              (packages.fromBase64 secret).filter fun key =>
                packages.backupKeyMatches key backup.info
            match matching with
            | some key =>
                d.seeLatest.goto (.saving key backup.version (.adopting secrets backup.info))
            | none =>
                d.seeLatest.goto (.clearingInbox secrets backup.info none backup.version)
  | .saving key version after =>
      let saved : Device S R := { d with savedKey := some key, savedVersion := some version }
      match reply with
      | .ok _ _ => saved.goto (.enabling key version after)
      | .lost _ error => saved.fail error
      | .refused error => d.fail error
  | .enabling key version after =>
      d.onReply reply <|
        let enabled : Device S R := { d with enabled := some (version, key) }
        match after with
        | .ensured setup => enabled.done (.setup setup)
        | .restoring => enabled.goto (.downloading version false)
        | .adopting secrets info => enabled.goto (.clearingInbox secrets info (some key) version)
  | .clearingInbox _ _ matching version =>
      let cleared : Device S R := { d with inbox := [] }
      match reply with
      | .ok _ _ =>
          match matching with
          | some _ => cleared.goto (.downloading version true)
          | none => cleared.done (.adopted none)
      | .lost _ error => cleared.fail error
      | .refused error => d.fail error
  | .downloading version isAdopted =>
      match reply with
      | .ok _ rooms => d.goto (.importing version rooms isAdopted)
      | .refused error => d.fail error
      | .lost _ error => d.fail error
  | .importing version rooms isAdopted =>
      match reply with
      | .ok _ better =>
          let new := rooms.filter fun room =>
            room ∉ d.sessions.map Prod.fst ∨ room ∈ better
          let report : RestoreReport R :=
            { imported := new.length, total := rooms.length, sessions := new }
          (d.importKept version rooms better).done
            (if isAdopted then .adopted (some report) else .restored report)
      | .lost _ error => (d.importKept version rooms []).fail error
      | .refused error => d.fail error
  | .collecting batches =>
      d.onReply reply <|
        match d.enabled, d.unmarked with
        | none, _ => d.done (.uploaded (.caughtUp batches))
        | some _, [] => d.done (.uploaded (.caughtUp batches))
        | some (version, _), room :: rooms =>
            d.goto (.sendingKeys version (room :: rooms) batches)
  | .sendingKeys version rooms batches =>
      let sent : Device S R := { d with kept := rooms.map (fun room => (version, room)) ++ d.kept }
      match reply with
      | .ok _ _ => sent.goto (.marking version rooms batches)
      | .lost _ error => sent.fail error
      | .refused error => d.fail error
  | .marking _ rooms batches =>
      match reply with
      | .ok _ _ =>
          if batches + 1 < uploadRoundsLimit then
            (d.markAll rooms).goto (.collecting (batches + 1))
          else (d.markAll rooms).done (.uploaded (.stoppedAtLimit (batches + 1)))
      | .lost _ error => (d.markAll rooms).fail error
      | .refused error => d.fail error

/-- An operation begins where no other one is on its way. -/
def begin (d : Device S R) (stage : Stage S R) : Step S R :=
  match d.stage with
  | .idle => d.goto stage
  | _ => (d, none)

def act (packages : BackupPackages S) (d : Device S R) : Action S R → Step S R
  | .ensureBackup createIfMissing fresh => d.begin (.checkingLatest createIfMissing fresh)
  | .restoreRoomKeys key => d.begin (.checkingRestored key)
  | .adoptBackupKeyFromInbox => d.begin .readingInbox
  | .uploadRoomKeys => d.begin (.collecting 0)
  | .reply reply => d.proceed packages reply
  | .importNew rooms => (d.importNew rooms, none)
  | .receiveSecret secret => ({ d with inbox := d.inbox ++ [secret] }, none)
  | .others latest => ({ d with latest := latest }, none)
  | .restart =>
      -- The old version is attached again when the store has its key.
      let enabled := d.savedKey.bind fun key => d.savedVersion.map fun version => (version, key)
      ({ d with stage := .idle, enabled := enabled }, none)

/-- The state after an action. -/
def step (packages : BackupPackages S) (d : Device S R) (action : Action S R) : Device S R :=
  (d.act packages action).1

/-- A new device, on an account with or without a backup. -/
def start (latest : Option (Backup S)) : Device S R where
  sessions := []
  enabled := none
  savedKey := none
  savedVersion := none
  inbox := []
  stage := .idle
  latest := latest
  kept := []
  checked := []

end Device

end Devices

end KeyBackup
end WbfMatrixClient
