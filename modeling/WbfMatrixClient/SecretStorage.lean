import WbfMatrixClient.Incoming
import WbfMatrixClient.Wire
import WbfMatrixClient.Lib.Runs

/-!
# Secret storage

The private keys of an account are kept in its account data, encrypted under a key whose text is
the recovery key. The key is described, the secrets are put there one after the other, and last the
key is made the default one. A secret is kept encrypted under several keys, and one more is put to
the others by reading them, adding it and writing them back.

Several devices may do so at the same time. What a reader of the default key finds depends on
whether one of them has written back less than was there.
-/

namespace WbfMatrixClient
namespace SecretStorage

inductive SecretName where
  | crossSigningMasterKey
  | crossSigningSelfSigningKey
  | crossSigningUserSigningKey
  | recoveryKey
deriving DecidableEq

def SecretName.text : SecretName → String
  | crossSigningMasterKey => "m.cross_signing.master"
  | crossSigningSelfSigningKey => "m.cross_signing.self_signing"
  | crossSigningUserSigningKey => "m.cross_signing.user_signing"
  | recoveryKey => "m.megolm_backup.v1"

/-- What is written under one type. -/
inductive DataType where
  | defaultKey
  | key (keyId : String)
  | secret (name : SecretName)
deriving DecidableEq

def DataType.text : DataType → String
  | defaultKey => "m.secret_storage.default_key"
  | key keyId => "m.secret_storage.key." ++ keyId
  | secret name => name.text

abbrev AccountData := DataType → Option Json

/-- A key with the text that opens it. -/
structure StorageKey where
  keyId : String
  recoveryKey : String

/-- The private keys of cross-signing, as far as a device has them. -/
structure CrossSigningKeyExport where
  masterKey : Option String
  selfSigningKey : Option String
  userSigningKey : Option String

namespace CrossSigningKeyExport

def isComplete (keys : CrossSigningKeyExport) : Bool :=
  keys.masterKey.isSome && keys.selfSigningKey.isSome && keys.userSigningKey.isSome

/-- The private keys with their names. -/
def secrets (keys : CrossSigningKeyExport) : List (SecretName × String) :=
  [(SecretName.crossSigningMasterKey, keys.masterKey),
    (.crossSigningSelfSigningKey, keys.selfSigningKey),
    (.crossSigningUserSigningKey, keys.userSigningKey)].filterMap fun (name, key) =>
      key.map fun key => (name, key)

end CrossSigningKeyExport

/-- The cipher of secrets, with a seed for what is random in it. -/
structure StoragePackages where
  eventContent : StorageKey → Json
  encrypt : StorageKey → SecretName → (seed : Nat) → String → Json
  decrypt : StorageKey → SecretName → Json → Except SdkError String
  fromAccountData : (recoveryKey keyId : String) → Json → Except SdkError StorageKey

/-- What is encrypted under one key. -/
def encryptedUnder (content : Option Json) (keyId : String) : Option Json :=
  (content.bind (Json.get "encrypted")).bind (Json.get keyId)

def insertField (key : String) (value : Json) (fields : List (String × Json)) :
    List (String × Json) :=
  (fields.filter fun field => field.1 ≠ key) ++ [(key, value)]

/-- What is encrypted under other keys stays. -/
def withEncrypted (content : Option Json) (keyId : String) (encrypted : Json) : Json :=
  let encryptedByKey :=
    match content.bind (Json.get "encrypted") with
    | some (.object fields) => fields
    | _ => []
  .object [("encrypted", .object (insertField keyId encrypted encryptedByKey))]

theorem lookup_insertField_self (key : String) (value : Json) (fields : List (String × Json)) :
    (insertField key value fields).lookup key = some value := by
  rw [insertField, List.lookup_append]
  have hnone : (fields.filter fun field => field.1 ≠ key).lookup key = none := by
    rw [List.lookup_eq_none_iff]
    intro field hfield
    have hne := of_decide_eq_true (List.mem_filter.mp hfield).2
    exact bne_iff_ne.mpr (Ne.symm hne)
  rw [hnone, Option.none_or, List.lookup_cons, beq_self_eq_true]

theorem encryptedUnder_self (content : Option Json) (keyId : String) (encrypted : Json) :
    encryptedUnder (some (withEncrypted content keyId encrypted)) keyId = some encrypted :=
  lookup_insertField_self _ _ _

/-- A secret, if it is there under the key. -/
def getSecret (packages : StoragePackages) (content : Option Json) (key : StorageKey)
    (name : SecretName) : Except SdkError (Option String) :=
  match encryptedUnder content key.keyId with
  | none => .ok none
  | some encrypted => (packages.decrypt key name encrypted).map some

/-- Where a run is. Each stage but the last ones has one request, or one reading of the crypto
store, before it. -/
inductive Stage where
  | checking
  | describing
  | reading (name : SecretName) (secret : String) (rest : List (SecretName × String))
      (isBackupNext : Bool)
  | writing (name : SecretName) (secret : String) (content : Json)
      (rest : List (SecretName × String)) (isBackupNext : Bool)
  | findingBackup
  | pointing
  | created
  /-- There is a default key. -/
  | refused
  | failed

/-- One run with its new key, what the device has, and where it is. -/
structure KeyRun where
  key : StorageKey
  keys : CrossSigningKeyExport
  backup : Option String
  seed : Nat
  stage : Stage

/-- How a request ends: with its reply, without an effect, or with an effect and no reply. -/
inductive Reply where
  | ok
  | refused
  | lost
deriving DecidableEq

/-- The secrets that are left, then the key of the backup, then the default key. -/
def afterSecrets : List (SecretName × String) → (isBackupNext : Bool) → Stage
  | (name, secret) :: rest, isBackupNext => .reading name secret rest isBackupNext
  | [], true => .findingBackup
  | [], false => .pointing

namespace KeyRun

/-- A write, and what follows it. -/
def write (data : AccountData) (run : KeyRun) (type : DataType) (content : Json) (next : Stage) :
    Reply → AccountData × KeyRun
  | .ok => (Function.update data type (some content), { run with stage := next })
  | .lost => (Function.update data type (some content), { run with stage := .failed })
  | .refused => (data, { run with stage := .failed })

/-- What is pointed to by the default key. -/
def defaultContent (run : KeyRun) : Json :=
  .object [("key", .string run.key.keyId)]

def step (packages : StoragePackages) (data : AccountData) (run : KeyRun) (reply : Reply) :
    AccountData × KeyRun :=
  match run.stage with
  | .checking =>
      if reply = .ok then
        if (data .defaultKey).isSome then (data, { run with stage := .refused })
        else if run.keys.isComplete then (data, { run with stage := .describing })
        else (data, { run with stage := .failed })
      else (data, { run with stage := .failed })
  | .describing =>
      run.write data (.key run.key.keyId) (packages.eventContent run.key)
        (afterSecrets run.keys.secrets true) reply
  | .reading name secret rest isBackupNext =>
      if reply = .ok then
        let encrypted := packages.encrypt run.key name run.seed secret
        let content := withEncrypted (data (.secret name)) run.key.keyId encrypted
        (data, { run with stage := .writing name secret content rest isBackupNext })
      else (data, { run with stage := .failed })
  | .writing name _ content rest isBackupNext =>
      run.write data (.secret name) content (afterSecrets rest isBackupNext) reply
  | .findingBackup =>
      if reply = .ok then
        let backup := run.backup.toList.map fun backup => (SecretName.recoveryKey, backup)
        (data, { run with stage := afterSecrets backup false })
      else (data, { run with stage := .failed })
  | .pointing => run.write data .defaultKey run.defaultContent .created reply
  | .created => (data, run)
  | .refused => (data, run)
  | .failed => (data, run)

end KeyRun

/-- What a restore asks of others: the account data at each request, what the backup's key is, the
query of the own devices, and the import of private keys. -/
structure RestoreEnv where
  read : Nat → DataType → Except SdkError (Option Json)
  backupFromBase64 : String → Except SdkError String
  refresh : Except SdkError Unit
  importKeys : CrossSigningKeyExport → CrossSigningKeyExport → Except SdkError CrossSigningKeyExport

def openDefaultKey (packages : StoragePackages) (env : RestoreEnv) (recoveryKey : String) :
    Except SdkError StorageKey := do
  let content ← env.read 0 .defaultKey
  let default ← match content with
    | some default => .ok default
    | none => .error (.usage "there is no secret storage on the server")
  let keyId ← match default.text "key" with
    | some keyId => .ok keyId
    | none => .error (.protocol ("m.secret_storage.default_key has no key"))
  let content ← env.read 1 (.key keyId)
  let content ← match content with
    | some content => .ok content
    | none => .error (.usage ("the secret storage key " ++ keyId ++ " is missing on the server"))
  packages.fromAccountData recoveryKey keyId content

def readSecret (packages : StoragePackages) (env : RestoreEnv) (key : StorageKey) (request : Nat)
    (name : SecretName) : Except SdkError (Option String) := do
  let content ← env.read request (.secret name)
  getSecret packages content key name

def neededSecret (packages : StoragePackages) (env : RestoreEnv) (key : StorageKey) (request : Nat)
    (name : SecretName) : Except SdkError String := do
  let secret ← readSecret packages env key request name
  match secret with
  | some secret => .ok secret
  | none => .error (.usage
      ("the secret storage has no " ++ name.text ++ "; nothing was imported"))

/-- The three private keys, with the key of the backup, once all could be read. -/
def readAll (packages : StoragePackages) (env : RestoreEnv) (recoveryKey : String) :
    Except SdkError (CrossSigningKeyExport × Option String) := do
  let key ← openDefaultKey packages env recoveryKey
  let masterKey ← neededSecret packages env key 2 .crossSigningMasterKey
  let selfSigningKey ← neededSecret packages env key 3 .crossSigningSelfSigningKey
  let userSigningKey ← neededSecret packages env key 4 .crossSigningUserSigningKey
  let secret ← readSecret packages env key 5 .recoveryKey
  let backupKey ← match secret with
    | some secret => (env.backupFromBase64 secret).map some
    | none => .ok none
  .ok ({ masterKey := some masterKey, selfSigningKey := some selfSigningKey,
         userSigningKey := some userSigningKey }, backupKey)

/-- What the device has afterwards, and the key of the backup. -/
def restoreSecrets (packages : StoragePackages) (env : RestoreEnv) (recoveryKey : String)
    (own : CrossSigningKeyExport) : CrossSigningKeyExport × Except SdkError (Option String) :=
  match readAll packages env recoveryKey with
  | .error error => (own, .error error)
  | .ok (keys, backupKey) =>
      match env.refresh with
      | .error error => (own, .error error)
      | .ok () =>
          match env.importKeys keys own with
          | .error error => (own, .error error)
          | .ok imported => (imported, .ok backupKey)

theorem readAll_complete {packages : StoragePackages} {env : RestoreEnv} {recoveryKey : String}
    {keys : CrossSigningKeyExport} {backupKey : Option String}
    (h : readAll packages env recoveryKey = .ok (keys, backupKey)) : keys.isComplete = true := by
  unfold readAll at h
  simp only [bind, Except.bind] at h
  repeat' split at h
  all_goals cases h
  all_goals rfl

/-- A restore imports all three private keys, as they have been read, or none. -/
theorem restoreSecrets_cases (packages : StoragePackages) (env : RestoreEnv) (recoveryKey : String)
    (own : CrossSigningKeyExport)
    (himport : ∀ keys own imported, keys.isComplete = true → env.importKeys keys own = .ok imported
      → imported = keys) :
    (restoreSecrets packages env recoveryKey own).1 = own ∨
      ∃ keys backupKey, readAll packages env recoveryKey = .ok (keys, backupKey) ∧
        keys.isComplete = true ∧ (restoreSecrets packages env recoveryKey own).1 = keys := by
  unfold restoreSecrets
  cases hread : readAll packages env recoveryKey with
  | error error => exact .inl rfl
  | ok found =>
    obtain ⟨keys, backupKey⟩ := found
    have hcomplete := readAll_complete hread
    cases env.refresh with
    | error error => exact .inl rfl
    | ok _ =>
      dsimp only
      cases hkeys : env.importKeys keys own with
      | error error => exact .inl rfl
      | ok imported =>
        exact .inr ⟨keys, backupKey, rfl, hcomplete, himport keys own imported hcomplete hkeys⟩

end SecretStorage
end WbfMatrixClient
