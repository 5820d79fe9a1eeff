import WbfMatrixClient.LoginSteps

/-!
# Where a login lands

The directory that a login begins with is named after what was typed, the one that it ends in after
the user that the server says it is. When nothing fails the session and the store are in the latter.
The way there is to give the former a new name, which it has to exist for: the client of a plain
server has made it before, on a wbf server nothing has.
-/

namespace WbfMatrixClient
namespace LoginLanding

open AccountNames AccountLogin

/-- The session and the store are in the directory of the canonical user, and nowhere else where
there was none. -/
def Lands (naming : Naming) (before : DataDir) (server owner device token : Text)
    (outcome : Outcome) : Prop :=
  ∃ account canonical, outcome.result = .ok account ∧
    AccountDir.locate naming server owner = some canonical ∧ account.dir = canonical.dir ∧
      (∃ session, (outcome.disk.files canonical.dir).session = some session ∧
        session.userId = owner ∧ session.deviceId = device ∧ session.accessToken = token) ∧
      (outcome.disk.files canonical.dir).store.isSome = true ∧
      ∀ other, other ≠ canonical.dir →
        ((outcome.disk.files other).session.isSome = true →
          (before.files other).session.isSome = true) ∧
        ((outcome.disk.files other).store.isSome = true →
          (before.files other).store.isSome = true)

/-- Nothing fails that is done to what is there. -/
structure Works (env : Env) : Prop where
  unlocked : env.unlocked = true
  locks : env.locks = true
  readsDirs : env.readsDirs = true
  leftover : env.leftover = .done
  makesStoreDir : env.makesStoreDir = true
  opensStore : env.opensStore = true
  rereadsDirs : env.rereadsDirs = true
  makesAccountsDir : env.makesAccountsDir = true
  renames : env.renames = true
  seals : env.seals = true
  writesCurrent : env.writesCurrent = true

/-- The directory of the canonical user is not there, or it is the typed one. -/
def Free (naming : Naming) (disk : DataDir) (server user owner : Text) : Prop :=
  ∀ typed canonical, AccountDir.locate naming server user = some typed →
    AccountDir.locate naming server owner = some canonical →
      disk.find canonical.dir = none ∨ canonical.dir = typed.dir

/-- The crypto store of the device can be made in the directory that is there. -/
def StoreCanBeMade (env : Env) (naming : Naming) (disk : DataDir)
    (server user owner device : Text) : Prop :=
  env.validUserId owner = true ∧ ∀ typed, AccountDir.locate naming server user = some typed →
    OpensFor env (storeAtLogin disk typed) owner device

/-- The names of the typed and of the canonical directory can be made and are nobody else's but for
the case of their letters, the server is not being removed, and when the typed directory gets
another name it is there, which it is on a plain server. -/
def CanLand (env : Env) (naming : Naming) (disk : DataDir) (server user owner : Text) : Prop :=
  ∃ typed canonical, AccountDir.locate naming server user = some typed ∧
    AccountDir.locate naming server owner = some canonical ∧
      typed.verifyNamesOnDisk naming disk = true ∧ typed.serverDirName ∉ disk.toBeDeleted ∧
        canonical.verifyNamesOnDisk naming (dirsAtLogin env disk typed) = true ∧
          (canonical.dir = typed.dir ∨ env.backend = .matrixSdkClient ∨
            (disk.find typed.dir).isSome = true)

section Proofs

variable {env : Env} {naming : Naming} {disk : DataDir} {server user : Text}
  {typed canonical : AccountDir} {owner device token : Text}

theorem Works.prepared (h : Works env) (hlocate : AccountDir.locate naming server user = some typed)
    (hverify : typed.verifyNamesOnDisk naming disk = true)
    (hkept : typed.serverDirName ∉ disk.toBeDeleted) :
    Prepared env naming disk server user typed :=
  ⟨h.unlocked, h.locks, hlocate, h.readsDirs, hverify, hkept, fun _ _ => h.leftover⟩

theorem Works.grants (h : Works env) (hanswer : env.answer = some (owner, device, token)) :
    Grants env owner device token := ⟨hanswer, fun _ => ⟨h.makesStoreDir, h.opensStore⟩⟩

theorem dirsAtLogin_find_isSome (h : env.backend = .matrixSdkClient) :
    ((dirsAtLogin env disk typed).find typed.dir).isSome = true := by
  rw [dirsAtLogin, if_neg (by simp [h]), makeStoreDir, DataDir.find_put]
  rfl

theorem dirsAtLogin_find_of_ne {dir : Path} (h : dir ≠ typed.dir) :
    (dirsAtLogin env disk typed).find dir = disk.find dir := by
  unfold dirsAtLogin
  split_ifs
  · rfl
  · exact makeStoreDir_only dir h

/-- When nothing fails, a login comes to the canonical directory exactly when it can land. -/
theorem canLand_iff_arrives (hworks : Works env) (hfree : Free naming disk server user owner) :
    CanLand env naming disk server user owner ↔
      ∃ typed canonical, Prepared env naming disk server user typed ∧
        Arrives env naming (dirsAtLogin env disk typed) server owner typed canonical := by
  constructor
  · rintro ⟨typed, canonical, hlocate, howner, hverify, hkept, hnames, hthere⟩
    refine ⟨typed, canonical, hworks.prepared hlocate hverify hkept, howner, hworks.rereadsDirs,
      hnames, fun hne => ⟨?_, hworks.makesAccountsDir, hworks.renames, ?_⟩⟩
    · rw [dirsAtLogin_find_of_ne hne]
      exact (hfree typed canonical hlocate howner).resolve_right hne
    · rcases hthere.resolve_left hne with hplain | hthere
      · exact dirsAtLogin_find_isSome hplain
      · unfold dirsAtLogin
        split_ifs
        · exact hthere
        · rw [makeStoreDir, DataDir.find_put]
          rfl
  · rintro ⟨typed, canonical, hprepared, howner, -, hnames, hmoves⟩
    obtain ⟨-, -, hlocate, -, hverify, hkept, -⟩ := hprepared
    refine ⟨typed, canonical, hlocate, howner, hverify, hkept, hnames, ?_⟩
    by_cases hsame : canonical.dir = typed.dir
    · exact Or.inl hsame
    · right
      cases hbackend : env.backend with
      | matrixSdkClient => exact Or.inl rfl
      | wbfSdk =>
        have hthere := (hmoves hsame).2.2.2
        rw [dirsAtLogin, if_pos hbackend] at hthere
        exact Or.inr hthere

theorem afterAnswer_isSome (hgrants : Grants env owner device token)
    (hplain : env.backend = .matrixSdkClient) :
    (typed.matrixStoreDir (afterAnswer env naming disk server user typed)).isSome = true := by
  obtain ⟨hanswer, hopens⟩ := hgrants
  obtain ⟨hmakes, hopens⟩ := hopens hplain
  simp only [afterAnswer, obtainSession, hplain, hanswer, hmakes, hopens, Bool.not_true,
    Bool.false_eq_true, if_false]
  exact adoptDevice_isSome makeStoreDir_isSome

theorem lands_of_arrives (hworks : Works env) (hanswer : env.answer = some (owner, device, token))
    (hstore : StoreCanBeMade env naming disk server user owner device)
    (h : Prepared env naming disk server user typed)
    (harrives : Arrives env naming (dirsAtLogin env disk typed) server owner typed canonical) :
    Lands naming disk server owner device token (logIn env naming disk server user) := by
  have hgrants := hworks.grants hanswer
  have hopens := hstore.2 typed h.2.2.1
  have harrives' : Arrives env naming (afterAnswer env naming disk server user typed) server
      (sessionOf env typed server owner device token).userId typed canonical :=
    (Arrives.of_sameDirs (afterAnswer_sameDirs h hgrants)).mpr harrives
  obtain ⟨reached, moved, hreached, hfinish, hcontents, hmoves, hothers⟩ :=
    finish_of_arrives harrives'
  have hstored : env.backend = .wbfSdk →
      reached.matrixStoreDir moved = storeAtLogin disk typed := by
    intro hwbf
    rw [← afterAnswer_store h hwbf, AccountDir.matrixStoreDir, hreached, hcontents]
    rfl
  have hcompletes : Completes env (reached.matrixStoreDir moved)
      (sessionOf env typed server owner device token).userId
      (sessionOf env typed server owner device token).deviceId :=
    (Completes.congr hstored).mpr ⟨fun _ => ⟨hstore.1, hopens⟩, hworks.seals⟩
  obtain ⟨hdone, hsession, hkeeps⟩ := createAndSeal_of_completes hcompletes
  have honly : Only canonical.dir moved (createAndSeal env moved reached
      (sessionOf env typed server owner device token)).disk := by
    rw [← hreached]
    exact createAndSeal_only
  simp only [logIn, prepare_of_prepared h, obtainSession_eq h hgrants fun _ => hopens, hfinish,
    hdone, hworks.writesCurrent, if_true]
  refine ⟨reached, canonical, rfl, harrives.1, hreached,
    ⟨sessionOf env typed server owner device token, ?_, rfl, rfl, rfl⟩, ?_, fun other hother => ?_⟩
  · rw [← hreached]
    exact hsession
  · rw [← hreached]
    refine hkeeps ?_
    cases hbackend : env.backend with
    | wbfSdk => exact Or.inl rfl
    | matrixSdkClient =>
      right
      rw [AccountDir.matrixStoreDir, hreached, hcontents]
      exact afterAnswer_isSome hgrants hbackend
  · rw [files_of_only honly hother]
    by_cases htyped : other = typed.dir
    · subst htyped
      rw [DataDir.files, (hmoves (Ne.symm hother)).1]
      exact ⟨(fun h => by cases h), (fun h => by cases h)⟩
    · rw [DataDir.files, hothers other htyped hother, afterAnswer_only h other htyped,
        ← DataDir.files]
      exact ⟨id, id⟩

theorem arrives_of_lands (hworks : Works env) (hanswer : env.answer = some (owner, device, token))
    (hstore : StoreCanBeMade env naming disk server user owner device)
    (h : Lands naming disk server owner device token (logIn env naming disk server user)) :
    ∃ typed canonical, Prepared env naming disk server user typed ∧
      Arrives env naming (dirsAtLogin env disk typed) server owner typed canonical := by
  obtain ⟨account, canonical, hresult, -⟩ := h
  have hgrants := hworks.grants hanswer
  cases hprepared : (prepare env naming disk server user).result with
  | error error =>
    simp only [logIn, hprepared] at hresult
    cases hresult
  | ok typed =>
    have h := prepared_of_ok hprepared
    by_contra hnot
    have hstays : ∀ canonical, ¬Arrives env naming
        (afterAnswer env naming disk server user typed) server
        (sessionOf env typed server owner device token).userId typed canonical := by
      intro canonical harrives
      exact hnot ⟨typed, canonical, h,
        (Arrives.of_sameDirs (afterAnswer_sameDirs h hgrants)).mp harrives⟩
    obtain ⟨error, herror⟩ := finish_of_not_arrives hstays
    simp only [logIn, hprepared,
      obtainSession_eq h hgrants fun _ => hstore.2 typed h.2.2.1, herror] at hresult
    cases hresult

end Proofs

/-- When nothing fails, a login lands in the canonical directory exactly when the typed directory
is there or need not be, and no name is in the way. -/
theorem login_lands_iff (env : Env) (naming : Naming) (disk : DataDir)
    (server user owner device token : Text) (hworks : Works env)
    (hanswer : env.answer = some (owner, device, token))
    (hfree : Free naming disk server user owner)
    (hstore : StoreCanBeMade env naming disk server user owner device) :
    Lands naming disk server owner device token (logIn env naming disk server user) ↔
      CanLand env naming disk server user owner := by
  rw [canLand_iff_arrives hworks hfree]
  constructor
  · exact arrives_of_lands hworks hanswer hstore
  · rintro ⟨typed, canonical, hprepared, harrives⟩
    exact lands_of_arrives hworks hanswer hstore hprepared harrives

def exampleDisk : DataDir :=
  { bareServers := [], toBeDeleted := [], accounts := ∅ }

def exampleAnswer : Text × Text × Text :=
  ("@alice:localhost".toList, "DEVICE".toList, "token".toList)

theorem example_works : Works (exampleEnv exampleAnswer) :=
  ⟨rfl, rfl, rfl, rfl, rfl, rfl, rfl, rfl, rfl, rfl, rfl⟩

theorem example_storeCanBeMade (user : Text) :
    StoreCanBeMade (exampleEnv exampleAnswer) exampleNaming exampleDisk
      "http://localhost".toList user "@alice:localhost".toList "DEVICE".toList := by
  refine ⟨rfl, fun typed _ => ⟨rfl, rfl, ?_⟩⟩
  rw [storeAtLogin, AccountDir.isLoggedIn, DataDir.files, DataDir.find, exampleDisk,
    AList.lookup_empty]
  rfl

theorem login_lands_iff_same_name :
    Lands exampleNaming exampleDisk "http://localhost".toList "@alice:localhost".toList
        "DEVICE".toList "token".toList
        (logIn (exampleEnv exampleAnswer) exampleNaming exampleDisk "http://localhost".toList
          "alice".toList) ↔
      CanLand (exampleEnv exampleAnswer) exampleNaming exampleDisk "http://localhost".toList
        "alice".toList "@alice:localhost".toList :=
  login_lands_iff (exampleEnv exampleAnswer) exampleNaming exampleDisk "http://localhost".toList
    "alice".toList "@alice:localhost".toList "DEVICE".toList "token".toList example_works rfl
    (fun _ _ _ _ => Or.inl (AList.lookup_empty _)) (example_storeCanBeMade _)

/-- The directory of what was typed is not there and cannot get the canonical name. -/
theorem first_login_does_not_land :
    ¬Lands exampleNaming exampleDisk "http://localhost".toList "@alice:localhost".toList
      "DEVICE".toList "token".toList
      (logIn (exampleEnv exampleAnswer) exampleNaming exampleDisk "http://localhost".toList
        "Alice".toList) := by
  rintro ⟨account, canonical, hresult, -⟩
  have hfails : (logIn (exampleEnv exampleAnswer) exampleNaming exampleDisk
      "http://localhost".toList "Alice".toList).result = .error .io := by
    decide +kernel
  rw [hfails] at hresult
  cases hresult

end LoginLanding
end WbfMatrixClient
