import WbfMatrixClient.AccountLogin

/-!
# The steps of a login

Each step of a login changes one directory, and either it comes to its end, which is said here in
terms of the data directory before the login, or it fails and leaves what it has found.
-/

namespace WbfMatrixClient
namespace AccountLogin

open AccountNames

/-- Nothing but one directory has changed. -/
def Only (dir : Path) (before after : DataDir) : Prop :=
  ∀ other, other ≠ dir → after.find other = before.find other

namespace Only

variable {dir : Path} {first second third : DataDir}

theorem refl : Only dir first first := fun _ _ => rfl

theorem trans (h : Only dir first second) (h' : Only dir second third) : Only dir first third :=
  fun other hother => (h' other hother).trans (h other hother)

theorem put {files : AccountFiles} : Only dir first (first.put dir files) :=
  fun _ hother => DataDir.find_put_of_ne hother

end Only

section Frames

variable {env : Env} {naming : Naming} {removal : Removal} {disk : DataDir} {account : AccountDir}

theorem deleteMatrixStore_only :
    Only account.dir disk (deleteMatrixStore removal disk account).disk := by
  unfold deleteMatrixStore
  split
  · exact Only.refl
  · exact Only.put

theorem makeStoreDir_only : Only account.dir disk (makeStoreDir disk account) := Only.put

variable {user : Text}

theorem adoptDevice_only {device : Text} :
    Only account.dir disk (adoptDevice env disk account user device).disk := by
  unfold adoptDevice
  split
  · exact Only.refl
  · split_ifs
    · exact Only.put
    · exact Only.refl

theorem openEngine_only {device : Text} :
    Only account.dir disk (openEngine env disk account user device).disk := by
  unfold openEngine
  split_ifs
  · exact Only.refl
  · exact Only.refl
  · exact makeStoreDir_only
  · exact makeStoreDir_only.trans adoptDevice_only

variable {session : Session}

theorem createCryptoStoreFor_only :
    Only account.dir disk (createCryptoStoreFor env disk account session).disk := by
  unfold createCryptoStoreFor
  dsimp only
  split
  · exact openEngine_only
  · exact openEngine_only.trans deleteMatrixStore_only

theorem sealSession_only : Only account.dir disk (sealSession env disk account session).disk := by
  unfold sealSession
  split_ifs
  · exact Only.refl
  · exact Only.put

theorem sealOrRollBack_only :
    Only account.dir disk (sealOrRollBack env disk account session).disk := by
  unfold sealOrRollBack
  dsimp only
  split
  · exact sealSession_only
  · split_ifs
    · exact sealSession_only.trans deleteMatrixStore_only
    · exact sealSession_only

theorem obtainSession_only {server : Text} :
    Only account.dir disk (obtainSession env disk account server).2.disk := by
  unfold obtainSession
  split
  · split <;> exact Only.refl
  · split_ifs
    · exact Only.refl
    · exact makeStoreDir_only
    · split
      · exact makeStoreDir_only
      · exact makeStoreDir_only.trans adoptDevice_only

theorem prepare_only {server : Text} (h : AccountDir.locate naming server user = some account) :
    Only account.dir disk (prepare env naming disk server user).disk := by
  simp only [prepare, h]
  split_ifs
  · exact Only.refl
  · exact Only.refl
  · exact Only.refl
  · exact Only.refl
  · exact Only.refl
  · split <;> exact deleteMatrixStore_only
  · exact Only.refl

end Frames

/-- The directories are the same, whatever is in them. -/
def SameDirs (first second : DataDir) : Prop :=
  first.bareServers = second.bareServers ∧
    ∀ dir, (first.find dir).isSome = (second.find dir).isSome

namespace SameDirs

variable {first second third : DataDir} {account : AccountDir}

theorem refl : SameDirs first first := ⟨rfl, fun _ => rfl⟩

theorem trans (h : SameDirs first second) (h' : SameDirs second third) : SameDirs first third :=
  ⟨h.1.trans h'.1, fun dir => (h.2 dir).trans (h'.2 dir)⟩

theorem put {contents : AccountFiles} {dir : Path} (h : (first.find dir).isSome = true) :
    SameDirs (first.put dir contents) first := by
  refine ⟨rfl, fun other => ?_⟩
  by_cases hother : other = dir
  · rw [hother, DataDir.find_put, h]
    rfl
  · rw [DataDir.find_put_of_ne hother]

section

variable (h : SameDirs first second)

include h

theorem put_put {contents other : AccountFiles} {dir : Path} :
    SameDirs (first.put dir contents) (second.put dir other) := by
  refine ⟨h.1, fun place => ?_⟩
  by_cases hplace : place = dir
  · rw [hplace, DataDir.find_put, DataDir.find_put]
    rfl
  · rw [DataDir.find_put_of_ne hplace, DataDir.find_put_of_ne hplace]
    exact h.2 place

theorem find_eq_none {dir : Path} : first.find dir = none ↔ second.find dir = none := by
  rw [← Option.not_isSome_iff_eq_none, h.2 dir, Option.not_isSome_iff_eq_none]

theorem mem_keys {dir : Path} : dir ∈ first.accounts.keys ↔ dir ∈ second.accounts.keys := by
  have hdir := h.2 dir
  rw [← AList.mem_keys, ← AList.mem_keys, ← AList.lookup_isSome, ← AList.lookup_isSome]
  exact iff_of_eq (congrArg (· = true) hdir)

theorem verifyNamesOnDisk (naming : Naming) :
    account.verifyNamesOnDisk naming first = account.verifyNamesOnDisk naming second := by
  have hservers : ∀ name, name ∈ first.serverNames ↔ name ∈ second.serverNames := by
    intro name
    simp only [DataDir.serverNames, List.mem_append, List.mem_map, h.1, h.mem_keys]
  have haccounts : ∀ server name, name ∈ first.accountNames server ↔
      name ∈ second.accountNames server := by
    intro server name
    simp only [DataDir.accountNames, List.mem_map, List.mem_filter, h.mem_keys]
  rw [Bool.eq_iff_iff]
  simp only [AccountDir.verifyNamesOnDisk, AccountDir.verifyNameOnDisk, Bool.and_eq_true,
    List.all_eq_true, hservers, haccounts]

end

end SameDirs

section Conditions

variable (env : Env) (naming : Naming)

/-- An `m/` becomes the crypto store of a device. -/
def OpensFor (store : Option Store) (user device : Text) : Prop :=
  env.makesStoreDir = true ∧ env.opensStore = true ∧
    match store with
    | some (.ofDevice owner _) => owner = (user, device)
    | _ => env.savesDevice = true

/-- The server is going to be asked. -/
def Prepared (disk : DataDir) (server user : Text) (typed : AccountDir) : Prop :=
  env.unlocked = true ∧ env.locks = true ∧ AccountDir.locate naming server user = some typed ∧
    env.readsDirs = true ∧ typed.verifyNamesOnDisk naming disk = true ∧
      typed.serverDirName ∉ disk.toBeDeleted ∧
        (typed.isLoggedIn disk = false → (typed.matrixStoreDir disk).isSome = true →
          env.leftover = .done)

/-- The `m/` that is there when the server is asked: one that nobody is logged in with has gone. -/
def storeAtLogin (disk : DataDir) (typed : AccountDir) : Option Store :=
  if typed.isLoggedIn disk then typed.matrixStoreDir disk else none

/-- The token is granted. -/
def Grants (user device token : Text) : Prop :=
  env.answer = some (user, device, token) ∧
    (env.backend = .matrixSdkClient → env.makesStoreDir = true ∧ env.opensStore = true)

/-- The directories when the server has answered. -/
def dirsAtLogin (disk : DataDir) (typed : AccountDir) : DataDir :=
  if env.backend = .wbfSdk then disk else makeStoreDir disk typed

/-- The typed directory is the canonical one, or becomes it. -/
def Arrives (disk : DataDir) (server user : Text) (typed canonical : AccountDir) : Prop :=
  AccountDir.locate naming server user = some canonical ∧ env.rereadsDirs = true ∧
    canonical.verifyNamesOnDisk naming disk = true ∧
      (canonical.dir ≠ typed.dir →
        disk.find canonical.dir = none ∧ env.makesAccountsDir = true ∧ env.renames = true ∧
          (disk.find typed.dir).isSome = true)

/-- Nothing fails in the canonical directory. -/
def Completes (store : Option Store) (user device : Text) : Prop :=
  (env.backend = .wbfSdk →
    env.validUserId user = true ∧ OpensFor env store user device) ∧ env.seals = true

end Conditions

section Specs

variable {env : Env} {naming : Naming} {disk : DataDir} {account : AccountDir}

variable {server user : Text}

theorem Arrives.of_sameDirs {other : DataDir} {canonical : AccountDir} (h : SameDirs disk other) :
    Arrives env naming disk server user account canonical ↔
      Arrives env naming other server user account canonical := by
  simp only [Arrives, h.verifyNamesOnDisk naming, h.find_eq_none, h.2]

theorem prepare_of_prepared (h : Prepared env naming disk server user account) :
    (prepare env naming disk server user).result = .ok account := by
  obtain ⟨hunlocked, hlocks, hlocate, hreads, hverify, hkept, hleftover⟩ := h
  simp only [prepare, hunlocked, hlocks, hlocate, hreads, hverify, Bool.not_true,
    Bool.false_eq_true, if_false, if_neg hkept]
  split_ifs with hleft
  · rw [deleteMatrixStore]
    have hdone := hleftover (by simpa using hleft.1) hleft.2
    rw [if_neg (by rw [← Option.not_isSome]; simp [hleft.2]), hdone]
    rfl
  · rfl

theorem prepared_of_ok (h : (prepare env naming disk server user).result = .ok account) :
    Prepared env naming disk server user account := by
  cases hlocate : AccountDir.locate naming server user with
  | none =>
    simp only [prepare, hlocate] at h
    split_ifs at h
  | some typed =>
    simp only [prepare, hlocate] at h
    split_ifs at h with hunlocked hlocks hreads hverify hkept hleft
    · cases hremoved : (deleteMatrixStore env.leftover disk typed).result with
      | error error =>
        simp only [hremoved] at h
        cases h
      | ok done =>
        simp only [hremoved, Except.ok.injEq] at h
        subst h
        refine ⟨by simpa using hunlocked, by simpa using hlocks, hlocate, by simpa using hreads,
          by simpa using hverify, hkept, fun _ hsome => ?_⟩
        rw [deleteMatrixStore, if_neg (by rw [← Option.not_isSome]; simp [hsome])] at hremoved
        by_contra hdone
        rw [if_neg hdone] at hremoved
        cases hremoved
    · cases h
      refine ⟨by simpa using hunlocked, by simpa using hlocks, hlocate, by simpa using hreads,
        by simpa using hverify, hkept, fun hnot hsome => ?_⟩
      exact (hleft ⟨by simpa using hnot, hsome⟩).elim

theorem moveToCanonicalDir_of_arrives {canonical : AccountDir}
    (h : Arrives env naming disk server user account canonical) :
    ∃ reached : AccountDir, reached.dir = canonical.dir ∧
      (moveToCanonicalDir env naming disk account server user).result = .ok reached ∧
        (canonical.dir = account.dir →
          (moveToCanonicalDir env naming disk account server user).disk = disk) ∧
          (canonical.dir ≠ account.dir →
            disk.rename account.dir canonical.dir =
              some (moveToCanonicalDir env naming disk account server user).disk) := by
  obtain ⟨hlocate, hreads, hverify, hmoves⟩ := h
  simp only [moveToCanonicalDir, hlocate, hreads, hverify, Bool.not_true, Bool.false_eq_true,
    if_false]
  by_cases hsame : canonical.dir = account.dir
  · rw [if_pos hsame]
    exact ⟨account, hsame.symm, rfl, fun _ => rfl, fun hne => (hne hsame).elim⟩
  · obtain ⟨hnone, hmakes, hrenames, hthere⟩ := hmoves hsame
    obtain ⟨contents, hcontents⟩ := Option.isSome_iff_exists.mp hthere
    rw [if_neg hsame, if_neg (by rw [hnone]; exact Bool.false_ne_true),
      if_neg (by rw [hmakes]; exact Bool.false_ne_true)]
    simp only [DataDir.rename, hcontents, Option.map_some, hrenames, if_true]
    exact ⟨canonical, rfl, rfl, fun h => (hsame h).elim, fun _ => trivial⟩

theorem moveToCanonicalDir_of_not_arrives
    (h : ∀ canonical, ¬Arrives env naming disk server user account canonical) :
    ∃ error, (moveToCanonicalDir env naming disk account server user).result = .error error ∧
      (moveToCanonicalDir env naming disk account server user).disk = disk := by
  unfold moveToCanonicalDir
  cases hlocate : AccountDir.locate naming server user with
  | none => exact ⟨_, rfl, rfl⟩
  | some canonical =>
    have hnot := h canonical
    simp only
    split_ifs with hreads hverify hsame hthere hmakes hrenames
    · exact ⟨_, rfl, rfl⟩
    · exact ⟨_, rfl, rfl⟩
    · exact (hnot ⟨hlocate, by simpa using hreads, by simpa using hverify,
        fun hne => (hne hsame).elim⟩).elim
    · exact ⟨_, rfl, rfl⟩
    · exact ⟨_, rfl, rfl⟩
    · cases hrenamed : disk.rename account.dir canonical.dir with
      | none => exact ⟨_, rfl, rfl⟩
      | some renamed =>
        refine (hnot ⟨hlocate, by simpa using hreads, by simpa using hverify, fun _ =>
          ⟨by simpa using hthere, by simpa using hmakes, hrenames, ?_⟩⟩).elim
        rw [← Option.ne_none_iff_isSome, Ne, ← DataDir.rename_eq_none_iff, hrenamed]
        exact Option.some_ne_none _
    · cases hrenamed : disk.rename account.dir canonical.dir with
      | none | some renamed => exact ⟨_, rfl, rfl⟩

/-- What happens to an account that is in the way of a login that fails. -/
structure Kept (before after : AccountFiles) : Prop where
  session : after.session = before.session
  snapshot : after.snapshot = before.snapshot
  store : ∀ owner roomKeys, before.store = some (.ofDevice owner roomKeys) →
    after.store = some (.ofDevice owner roomKeys)

namespace Kept

variable {first second third : AccountFiles}

theorem refl : Kept first first := ⟨rfl, rfl, fun _ _ h => h⟩

theorem trans (h : Kept first second) (h' : Kept second third) : Kept first third :=
  ⟨h'.session.trans h.session, h'.snapshot.trans h.snapshot,
    fun owner roomKeys hstore => h'.store owner roomKeys (h.store owner roomKeys hstore)⟩

end Kept

@[simp]
theorem makeStoreDir_files :
    (makeStoreDir disk account).files account.dir =
      { disk.files account.dir with store := some ((account.matrixStoreDir disk).getD .empty) } :=
  DataDir.files_put

theorem makeStoreDir_kept :
    Kept (disk.files account.dir) ((makeStoreDir disk account).files account.dir) := by
  refine ⟨by simp, by simp, fun owner roomKeys hstore => ?_⟩
  rw [makeStoreDir_files, AccountDir.matrixStoreDir, hstore]
  rfl

variable {user device : Text}

/-- The crypto store becomes that of the device, or what is there is as before. -/
theorem adoptDevice_kept :
    Kept (disk.files account.dir)
      ((adoptDevice env disk account user device).disk.files account.dir) := by
  unfold adoptDevice
  split
  · exact Kept.refl
  · rename_i hother
    split_ifs
    · refine ⟨by simp, by simp, fun owner roomKeys hstore => ?_⟩
      exact (hother owner roomKeys hstore).elim
    · exact Kept.refl

theorem adoptDevice_ok_iff :
    (adoptDevice env (makeStoreDir disk account) account user device).result = .ok () ↔
      match account.matrixStoreDir disk with
      | some (.ofDevice owner _) => owner = (user, device)
      | _ => env.savesDevice = true := by
  have hstore : account.matrixStoreDir (makeStoreDir disk account) =
      some ((account.matrixStoreDir disk).getD .empty) := by
    rw [AccountDir.matrixStoreDir, makeStoreDir_files]
  unfold adoptDevice
  rw [hstore]
  cases account.matrixStoreDir disk with
  | none =>
    simp only [Option.getD_none]
    split_ifs with hsaves
    · exact iff_of_true rfl hsaves
    · exact iff_of_false (by simp) hsaves
  | some store =>
    cases store with
    | empty =>
      simp only [Option.getD_some]
      split_ifs with hsaves
      · exact iff_of_true rfl hsaves
      · exact iff_of_false (by simp) hsaves
    | ofDevice owner roomKeys =>
      simp only [Option.getD_some]
      split_ifs with howner
      · exact iff_of_true rfl howner
      · exact iff_of_false (by simp) howner

/-- There is a crypto store afterwards, whether it is that of the device or not. -/
theorem adoptDevice_isSome (h : (account.matrixStoreDir disk).isSome = true) :
    (account.matrixStoreDir (adoptDevice env disk account user device).disk).isSome = true := by
  unfold adoptDevice
  split
  · exact h
  · split_ifs
    · rw [AccountDir.matrixStoreDir, DataDir.files_put]
      rfl
    · exact h

theorem openEngine_ok_iff :
    (openEngine env disk account user device).result = .ok () ↔
      env.validUserId user = true ∧ OpensFor env (account.matrixStoreDir disk) user device := by
  unfold openEngine OpensFor
  split_ifs with hvalid hmakes hopens
  · exact iff_of_false (by simp) fun h => by simp [h.1] at hvalid
  · exact iff_of_false (by simp) fun h => by simp [h.2.1] at hmakes
  · exact iff_of_false (by simp) fun h => by simp [h.2.2.1] at hopens
  · rw [adoptDevice_ok_iff]
    exact ⟨fun h => ⟨by simpa using hvalid, by simpa using hmakes, by simpa using hopens, h⟩,
      fun h => h.2.2.2⟩

theorem openEngine_kept :
    Kept (disk.files account.dir)
      ((openEngine env disk account user device).disk.files account.dir) := by
  unfold openEngine
  split_ifs
  · exact Kept.refl
  · exact Kept.refl
  · exact makeStoreDir_kept
  · exact makeStoreDir_kept.trans adoptDevice_kept

theorem makeStoreDir_isSome :
    (account.matrixStoreDir (makeStoreDir disk account)).isSome = true := by
  rw [AccountDir.matrixStoreDir, makeStoreDir_files]
  rfl

theorem openEngine_isSome (h : (openEngine env disk account user device).result = .ok ()) :
    (account.matrixStoreDir (openEngine env disk account user device).disk).isSome = true := by
  unfold openEngine at h ⊢
  split_ifs at h ⊢
  exact adoptDevice_isSome makeStoreDir_isSome

/-- What is left when the store has been removed, if there was one. -/
theorem deleteMatrixStore_files {removal : Removal} :
    (deleteMatrixStore removal disk account).disk.files account.dir =
      { disk.files account.dir with
        store := if (account.matrixStoreDir disk).isNone then none else removal.left } := by
  unfold deleteMatrixStore
  by_cases hnone : (account.matrixStoreDir disk).isNone = true
  · rw [if_pos hnone, if_pos hnone]
    rw [AccountDir.matrixStoreDir, Option.isNone_iff_eq_none] at hnone
    cases hfiles : disk.files account.dir with
    | mk session store snapshot =>
      rw [hfiles] at hnone
      cases hnone
      rfl
  · rw [if_neg hnone, if_neg hnone]
    exact DataDir.files_put

theorem openEngine_isSome_of_isSome (h : (account.matrixStoreDir disk).isSome = true) :
    (account.matrixStoreDir (openEngine env disk account user device).disk).isSome = true := by
  unfold openEngine
  split_ifs
  · exact h
  · exact h
  · exact makeStoreDir_isSome
  · exact adoptDevice_isSome makeStoreDir_isSome

variable {session : Session}

theorem createCryptoStoreFor_of_ok
    (h : (openEngine env disk account session.userId session.deviceId).result = .ok ()) :
    createCryptoStoreFor env disk account session =
      openEngine env disk account session.userId session.deviceId := by
  simp only [createCryptoStoreFor, h]

theorem createCryptoStoreFor_of_error {error : LoginError}
    (h : (openEngine env disk account session.userId session.deviceId).result = .error error) :
    createCryptoStoreFor env disk account session =
      { result := .error .io
        disk := (deleteMatrixStore env.rollback
          (openEngine env disk account session.userId session.deviceId).disk account).disk } := by
  simp only [createCryptoStoreFor, h]

theorem sealOrRollBack_of_seals (h : env.seals = true) :
    sealOrRollBack env disk account session =
      { result := .ok account
        disk := disk.put account.dir { disk.files account.dir with session := some session } } := by
  simp only [sealOrRollBack, sealSession, h, Bool.not_true, Bool.false_eq_true, if_false]

theorem sealOrRollBack_of_not_seals (h : env.seals = false) :
    sealOrRollBack env disk account session =
      { result := .error .io
        disk :=
          if env.backend = .wbfSdk then (deleteMatrixStore env.rollback disk account).disk
          else disk } := by
  simp only [sealOrRollBack, sealSession, h, Bool.not_false, if_true]
  split_ifs <;> rfl

/-- A login that comes to its end has sealed its session over what was there. -/
theorem createAndSeal_of_completes
    (h : Completes env (account.matrixStoreDir disk) session.userId session.deviceId) :
    (createAndSeal env disk account session).result = .ok account ∧
      ((createAndSeal env disk account session).disk.files account.dir).session = some session ∧
        (env.backend = .wbfSdk ∨ (account.matrixStoreDir disk).isSome = true →
          (account.matrixStoreDir (createAndSeal env disk account session).disk).isSome = true) := by
  obtain ⟨hopens, hseals⟩ := h
  unfold createAndSeal
  by_cases hwbf : env.backend = .wbfSdk
  · have hopened := openEngine_ok_iff.mpr (hopens hwbf)
    simp only [if_pos hwbf, createCryptoStoreFor_of_ok hopened, hopened,
      sealOrRollBack_of_seals hseals, DataDir.files_put, AccountDir.matrixStoreDir, true_and]
    exact fun _ => openEngine_isSome hopened
  · rw [if_neg hwbf, sealOrRollBack_of_seals hseals]
    refine ⟨rfl, by rw [DataDir.files_put], fun hstore => ?_⟩
    rw [AccountDir.matrixStoreDir, DataDir.files_put]
    exact hstore.resolve_left hwbf

/-- A login that fails in the canonical directory removes the store that is there, on the side that
makes one of its own. -/
theorem createAndSeal_of_not_completes
    (h : ¬Completes env (account.matrixStoreDir disk) session.userId session.deviceId) :
    (∃ error, (createAndSeal env disk account session).result = .error error) ∧
      ((createAndSeal env disk account session).disk.files account.dir).session =
        (disk.files account.dir).session ∧
      ((createAndSeal env disk account session).disk.files account.dir).snapshot =
        (disk.files account.dir).snapshot ∧
      (env.backend ≠ .wbfSdk → (createAndSeal env disk account session).disk = disk) ∧
      (env.backend = .wbfSdk → (account.matrixStoreDir disk).isSome = true →
        account.matrixStoreDir (createAndSeal env disk account session).disk =
          env.rollback.left) := by
  unfold createAndSeal
  by_cases hwbf : env.backend = .wbfSdk
  · have hkept : Kept (disk.files account.dir)
        ((openEngine env disk account session.userId session.deviceId).disk.files account.dir) :=
      openEngine_kept
    cases hopened : (openEngine env disk account session.userId session.deviceId).result with
    | error error =>
      simp only [if_pos hwbf, createCryptoStoreFor_of_error hopened, deleteMatrixStore_files,
        AccountDir.matrixStoreDir, hkept.session, hkept.snapshot]
      refine ⟨⟨_, rfl⟩, trivial, trivial, fun hnot => (hnot hwbf).elim, fun _ hsome => ?_⟩
      have hstill : (account.matrixStoreDir
          (openEngine env disk account session.userId session.deviceId).disk).isSome = true :=
        openEngine_isSome_of_isSome hsome
      rw [AccountDir.matrixStoreDir, Option.isSome_iff_ne_none] at hstill
      exact if_neg (by rwa [Option.isNone_iff_eq_none])
    | ok done =>
      have hnot : env.seals = false := by
        by_contra hseals
        exact h ⟨fun _ => openEngine_ok_iff.mp hopened, by simpa using hseals⟩
      simp only [if_pos hwbf, createCryptoStoreFor_of_ok hopened, hopened,
        sealOrRollBack_of_not_seals hnot, deleteMatrixStore_files, AccountDir.matrixStoreDir,
        hkept.session, hkept.snapshot]
      refine ⟨⟨_, rfl⟩, trivial, trivial, fun hnot => (hnot hwbf).elim, fun _ hsome => ?_⟩
      have hstill : (account.matrixStoreDir
          (openEngine env disk account session.userId session.deviceId).disk).isSome = true :=
        openEngine_isSome_of_isSome hsome
      rw [AccountDir.matrixStoreDir, Option.isSome_iff_ne_none] at hstill
      exact if_neg (by rwa [Option.isNone_iff_eq_none])
  · have hnot : env.seals = false := by
      by_contra hseals
      exact h ⟨fun hwbf' => (hwbf hwbf').elim, by simpa using hseals⟩
    simp only [if_neg hwbf, sealOrRollBack_of_not_seals hnot]
    exact ⟨⟨_, rfl⟩, trivial, trivial, fun _ => trivial, fun hwbf' => (hwbf hwbf').elim⟩

theorem Completes.congr {first second : Option Store} (h : env.backend = .wbfSdk → first = second) :
    Completes env first user device ↔ Completes env second user device := by
  refine and_congr_left' (forall_congr' fun hwbf => ?_)
  rw [h hwbf]

variable {server : Text}

/-- Nothing is done to an account that somebody is logged in with before the server is asked. -/
theorem prepare_of_isLoggedIn (hlocate : AccountDir.locate naming server user = some account)
    (h : account.isLoggedIn disk = true) : (prepare env naming disk server user).disk = disk := by
  simp only [prepare, hlocate, h]
  split_ifs <;> first | rfl | simp_all

theorem prepare_of_locate_eq_none (h : AccountDir.locate naming server user = none) :
    (prepare env naming disk server user).disk = disk := by
  simp only [prepare, h]
  split_ifs <;> rfl

/-- The leftovers of a device that is gone are removed. -/
theorem prepare_disk (h : Prepared env naming disk server user account) :
    SameDirs (prepare env naming disk server user).disk disk ∧
      account.matrixStoreDir (prepare env naming disk server user).disk =
        storeAtLogin disk account := by
  obtain ⟨hunlocked, hlocks, hlocate, hreads, hverify, hkept, hleftover⟩ := h
  by_cases hin : account.isLoggedIn disk = true
  · rw [prepare_of_isLoggedIn hlocate hin, storeAtLogin, if_pos hin]
    exact ⟨SameDirs.refl, rfl⟩
  · simp only [prepare, hunlocked, hlocks, hlocate, hreads, hverify, Bool.not_true,
      Bool.false_eq_true, if_false, if_neg hkept, storeAtLogin, if_neg hin]
    by_cases hsome : (account.matrixStoreDir disk).isSome = true
    · have hdone := hleftover (by simpa using hin) hsome
      have hremoved : deleteMatrixStore env.leftover disk account =
          { result := .ok (), disk := disk.put account.dir
              { disk.files account.dir with store := none } } := by
        rw [deleteMatrixStore, if_neg (by rw [← Option.not_isSome]; simp [hsome]), hdone]
        rfl
      rw [if_pos ⟨by simpa using hin, hsome⟩]
      simp only [hremoved]
      refine ⟨SameDirs.put ?_, by rw [AccountDir.matrixStoreDir, DataDir.files_put]⟩
      by_contra hnone
      rw [AccountDir.matrixStoreDir, DataDir.files, Option.not_isSome_iff_eq_none.mp hnone] at hsome
      cases hsome
    · rw [if_neg fun hboth => hsome hboth.2]
      exact ⟨SameDirs.refl, Option.not_isSome_iff_eq_none.mp hsome⟩

theorem obtainSession_of_not_grants (h : ∀ user device token, ¬Grants env user device token) :
    (obtainSession env disk account server).1 = none ∧
      ∃ error, (obtainSession env disk account server).2.result = .error error := by
  unfold obtainSession
  split
  · rename_i hbackend
    split
    · exact ⟨rfl, _, rfl⟩
    · rename_i user device token hanswer
      exact (h user device token ⟨hanswer, fun hplain => by rw [hbackend] at hplain; cases hplain⟩).elim
  · split_ifs with hmakes hopens
    · exact ⟨rfl, _, rfl⟩
    · exact ⟨rfl, _, rfl⟩
    · split
      · exact ⟨rfl, _, rfl⟩
      · rename_i user device token hanswer
        exact (h user device token
          ⟨hanswer, fun _ => ⟨by simpa using hmakes, by simpa using hopens⟩⟩).elim

/-- The token is there as soon as it is granted, the session when the crypto store is the device's
or is none that a client has opened. -/
theorem obtainSession_of_grants {token : Text} (h : Grants env user device token) :
    (obtainSession env disk account server).1 = some token ∧
      ((env.backend = .matrixSdkClient →
          OpensFor env (account.matrixStoreDir disk) user device) →
        (obtainSession env disk account server).2.result =
          .ok (sessionOf env account server user device token)) ∧
      (¬(env.backend = .matrixSdkClient →
          OpensFor env (account.matrixStoreDir disk) user device) →
        ∃ error, (obtainSession env disk account server).2.result = .error error) := by
  obtain ⟨hanswer, hplain⟩ := h
  cases hbackend : env.backend with
  | wbfSdk =>
    simp only [obtainSession, hbackend, hanswer]
    exact ⟨trivial, fun _ => trivial, fun hnot => (hnot nofun).elim⟩
  | matrixSdkClient =>
    obtain ⟨hmakes, hopens⟩ := hplain hbackend
    simp only [obtainSession, hbackend, hanswer, hmakes, hopens, Bool.not_true,
      Bool.false_eq_true, if_false, forall_const, true_and]
    have hadopts : (adoptDevice env (makeStoreDir disk account) account user device).result =
          .ok () ↔ _ :=
      adoptDevice_ok_iff
    refine ⟨fun hstore => ?_, fun hnot => ?_⟩
    · rw [hadopts.mpr hstore.2.2]
      rfl
    · cases hadopted : (adoptDevice env (makeStoreDir disk account) account user device).result with
      | error error => exact ⟨error, rfl⟩
      | ok done => exact (hnot ⟨hmakes, hopens, hadopts.mp hadopted⟩).elim

theorem obtainSession_kept :
    Kept (disk.files account.dir)
      ((obtainSession env disk account server).2.disk.files account.dir) := by
  unfold obtainSession
  split
  · split <;> exact Kept.refl
  · split_ifs
    · exact Kept.refl
    · exact makeStoreDir_kept
    · split
      · exact makeStoreDir_kept
      · exact makeStoreDir_kept.trans adoptDevice_kept

theorem adoptDevice_sameDirs :
    SameDirs (adoptDevice env (makeStoreDir disk account) account user device).disk
      (makeStoreDir disk account) := by
  unfold adoptDevice
  split
  · exact SameDirs.refl
  · split_ifs
    · refine SameDirs.put ?_
      rw [makeStoreDir, DataDir.find_put]
      rfl
    · exact SameDirs.refl

theorem obtainSession_sameDirs {token : Text} (h : Grants env user device token) :
    SameDirs (obtainSession env disk account server).2.disk (dirsAtLogin env disk account) := by
  obtain ⟨hanswer, hplain⟩ := h
  cases hbackend : env.backend with
  | wbfSdk =>
    simp only [obtainSession, dirsAtLogin, hbackend, hanswer, if_true]
    exact SameDirs.refl
  | matrixSdkClient =>
    obtain ⟨hmakes, hopens⟩ := hplain hbackend
    simp only [obtainSession, dirsAtLogin, hbackend, hanswer, hmakes, hopens, Bool.not_true,
      Bool.false_eq_true, if_false, reduceCtorEq]
    exact adoptDevice_sameDirs

theorem dirsAtLogin_sameDirs {other : DataDir} (h : SameDirs disk other) :
    SameDirs (dirsAtLogin env disk account) (dirsAtLogin env other account) := by
  unfold dirsAtLogin
  split_ifs
  · exact h
  · exact h.put_put

end Specs

section Answers

variable {env : Env} {naming : Naming} {disk : DataDir} {server user : Text}
  {typed canonical : AccountDir} {owner device token : Text}

theorem files_of_only {dir other : Path} {before after : DataDir} (h : Only dir before after)
    (hother : other ≠ dir) : after.files other = before.files other := by
  rw [DataDir.files, h other hother, DataDir.files]

/-- The data directory when the server has answered. -/
def afterAnswer (env : Env) (naming : Naming) (disk : DataDir) (server user : Text)
    (typed : AccountDir) : DataDir :=
  (obtainSession env (prepare env naming disk server user).disk typed server).2.disk

section

variable (h : Prepared env naming disk server user typed)

include h

theorem afterAnswer_only : Only typed.dir disk (afterAnswer env naming disk server user typed) :=
  (prepare_only h.2.2.1).trans obtainSession_only

theorem afterAnswer_kept (hin : typed.isLoggedIn disk = true) :
    Kept (disk.files typed.dir)
      ((afterAnswer env naming disk server user typed).files typed.dir) := by
  rw [afterAnswer, prepare_of_isLoggedIn h.2.2.1 hin]
  exact obtainSession_kept

theorem afterAnswer_sameDirs (hgrants : Grants env owner device token) :
    SameDirs (afterAnswer env naming disk server user typed) (dirsAtLogin env disk typed) :=
  (obtainSession_sameDirs hgrants).trans (dirsAtLogin_sameDirs (prepare_disk h).1)

theorem afterAnswer_store (hwbf : env.backend = .wbfSdk) :
    typed.matrixStoreDir (afterAnswer env naming disk server user typed) =
      storeAtLogin disk typed := by
  rw [← (prepare_disk h).2, afterAnswer, obtainSession, hwbf]
  cases env.answer <;> rfl

theorem obtainSession_eq (hgrants : Grants env owner device token)
    (hopens : env.backend = .matrixSdkClient → OpensFor env (storeAtLogin disk typed) owner
      device) :
    obtainSession env (prepare env naming disk server user).disk typed server =
      (some token,
        { result := .ok (sessionOf env typed server owner device token)
          disk := afterAnswer env naming disk server user typed }) := by
  rw [← (prepare_disk h).2] at hopens
  have hanswer : (obtainSession env (prepare env naming disk server user).disk typed server).1 =
      some token ∧ _ :=
    obtainSession_of_grants hgrants
  obtain ⟨htoken, hresult, -⟩ := hanswer
  rw [← htoken, ← hresult hopens]
  rfl

end

section Finishing

variable {session : Session} {disk' : DataDir}

theorem createAndSeal_only {account : AccountDir} :
    Only account.dir disk' (createAndSeal env disk' account session).disk := by
  unfold createAndSeal
  split_ifs
  · dsimp only
    split
    · exact createCryptoStoreFor_only
    · exact createCryptoStoreFor_only.trans sealOrRollBack_only
  · exact sealOrRollBack_only

theorem finish_of_not_arrives
    (h : ∀ canonical, ¬Arrives env naming disk' server session.userId typed canonical) :
    ∃ error, finishLoginLocally env naming disk' typed session server =
      { result := .error error, disk := disk' } := by
  obtain ⟨error, herror, hdisk⟩ := moveToCanonicalDir_of_not_arrives h
  refine ⟨error, ?_⟩
  simp only [finishLoginLocally, herror, hdisk]

/-- The end of a login is in the canonical directory, with the files of the typed one. -/
theorem finish_of_arrives (h : Arrives env naming disk' server session.userId typed canonical) :
    ∃ (reached : AccountDir) (moved : DataDir), reached.dir = canonical.dir ∧
      finishLoginLocally env naming disk' typed session server =
        createAndSeal env moved reached session ∧
      moved.files canonical.dir = disk'.files typed.dir ∧
      (canonical.dir ≠ typed.dir →
        moved.find typed.dir = none ∧ disk'.find canonical.dir = none) ∧
      ∀ other, other ≠ typed.dir → other ≠ canonical.dir → moved.find other = disk'.find other := by
  obtain ⟨reached, hreached, hresult, hstays, hmoves⟩ := moveToCanonicalDir_of_arrives h
  refine ⟨reached, (moveToCanonicalDir env naming disk' typed server session.userId).disk, hreached,
    ?_, ?_⟩
  · simp only [finishLoginLocally, hresult]
  · by_cases hsame : canonical.dir = typed.dir
    · rw [hstays hsame, hsame]
      exact ⟨rfl, fun hne => (hne rfl).elim, fun _ _ _ => rfl⟩
    · have hrenamed := hmoves hsame
      refine ⟨?_, fun _ => ⟨DataDir.find_rename_source hrenamed (Ne.symm hsame),
        (h.2.2.2 hsame).1⟩, fun other htyped hcanonical =>
          DataDir.find_rename_of_ne hrenamed htyped hcanonical⟩
      rw [DataDir.files, DataDir.find_rename_target hrenamed, DataDir.files]

end Finishing

end Answers

end AccountLogin
end WbfMatrixClient
