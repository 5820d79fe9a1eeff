import WbfMatrixClient.LoginSteps

/-!
# Logins that fail

A login that fails is to leave the accounts that are logged in as they were and no device on the
server. Here is exactly when it does: what it removes when it fails is the store that is in the
directory, which may be that of a session that was there before.
-/

namespace WbfMatrixClient
namespace LoginRollback

open AccountNames AccountLogin

/-- Whatever belongs to an account that somebody is logged in with is still there. -/
def Untouched (before after : DataDir) : Prop :=
  ∀ dir, (before.files dir).session.isSome = true → Kept (before.files dir) (after.files dir)

/-- A login that has failed has left the accounts as they were, and has logged out the token that it
had been given. -/
def RollsBack (before : DataDir) (outcome : Outcome) : Prop :=
  ∀ error, outcome.result = .error error →
    Untouched before outcome.disk ∧ ∀ token, outcome.obtained = some token →
      token ∈ outcome.loggedOut

/-- Once a token is granted: the client of a plain server can open its crypto store; when the
session is sealed, the account can be made the current one; and when this is not reached in the
directory of somebody who is logged in, the directory has not been renamed and the rollback of a wbf
login leaves the store that was there. -/
def Harmless (env : Env) (naming : Naming) (disk : DataDir) (server user : Text) : Prop :=
  ∀ typed owner device token, Prepared env naming disk server user typed →
    Grants env owner device token →
      (env.backend = .matrixSdkClient → OpensFor env (storeAtLogin disk typed) owner device) ∧
        ∀ canonical,
          Arrives env naming (dirsAtLogin env disk typed) server owner typed canonical →
            (Completes env (storeAtLogin disk typed) owner device → env.writesCurrent = true) ∧
              (¬Completes env (storeAtLogin disk typed) owner device →
                typed.isLoggedIn disk = true →
                  canonical.dir = typed.dir ∧
                    (env.backend = .wbfSdk → ∀ keyOwner roomKeys,
                      typed.matrixStoreDir disk = some (.ofDevice keyOwner roomKeys) →
                        env.rollback.left = some (.ofDevice keyOwner roomKeys)))

section Proofs

variable {env : Env} {naming : Naming} {disk : DataDir} {server user : Text}
  {typed canonical : AccountDir} {owner device token : Text}

theorem Untouched.of_only {before after : DataDir} (h : Only typed.dir before after)
    (hkept : typed.isLoggedIn before = true → Kept (before.files typed.dir) (after.files
      typed.dir)) : Untouched before after := by
  intro dir hsession
  by_cases hdir : dir = typed.dir
  · subst hdir
    exact hkept hsession
  · rw [files_of_only h hdir]
    exact Kept.refl

/-- Nobody who is logged in is touched before the server is asked. -/
theorem prepare_untouched : Untouched disk (prepare env naming disk server user).disk := by
  cases hlocate : AccountDir.locate naming server user with
  | none =>
    rw [prepare_of_locate_eq_none hlocate]
    exact fun _ _ => Kept.refl
  | some typed =>
    refine Untouched.of_only (prepare_only hlocate) fun hin => ?_
    rw [prepare_of_isLoggedIn hlocate hin]
    exact Kept.refl

theorem rollsBack_of_not_prepared (h : ∀ typed, ¬Prepared env naming disk server user typed) :
    RollsBack disk (logIn env naming disk server user) := by
  cases hprepared : (prepare env naming disk server user).result with
  | ok typed => exact (h typed (prepared_of_ok hprepared)).elim
  | error error =>
    simp only [logIn, hprepared]
    exact fun _ _ => ⟨prepare_untouched, nofun⟩

section

variable (h : Prepared env naming disk server user typed)

include h

theorem rollsBack_of_not_grants (hgrants : ∀ owner device token, ¬Grants env owner device token) :
    RollsBack disk (logIn env naming disk server user) := by
  have hanswer : (obtainSession env (prepare env naming disk server user).disk typed server).1 =
      none ∧ ∃ error, (obtainSession env (prepare env naming disk server user).disk typed
        server).2.result = .error error :=
    obtainSession_of_not_grants hgrants
  obtain ⟨hnone, error, herror⟩ := hanswer
  simp only [logIn, prepare_of_prepared h, herror]
  refine fun _ _ => ⟨Untouched.of_only (afterAnswer_only h) (afterAnswer_kept h),
    fun token htoken => ?_⟩
  rw [hnone] at htoken
  cases htoken

/-- A token that the client of a plain server has got is lost when its crypto store does not
open. -/
theorem not_rollsBack_of_not_opens (hgrants : Grants env owner device token)
    (hopens : ¬(env.backend = .matrixSdkClient → OpensFor env (storeAtLogin disk typed) owner
      device)) : ¬RollsBack disk (logIn env naming disk server user) := by
  rw [← (prepare_disk h).2] at hopens
  have hanswer : (obtainSession env (prepare env naming disk server user).disk typed server).1 =
      some token ∧ _ :=
    obtainSession_of_grants hgrants
  obtain ⟨htoken, -, hfails⟩ := hanswer
  obtain ⟨error, herror⟩ := hfails hopens
  intro hrolls
  simp only [logIn, prepare_of_prepared h, herror] at hrolls
  exact List.not_mem_nil ((hrolls error rfl).2 token htoken)

theorem rollsBack_of_not_arrives (hgrants : Grants env owner device token)
    (hopens : env.backend = .matrixSdkClient → OpensFor env (storeAtLogin disk typed) owner device)
    (hnot : ∀ canonical, ¬Arrives env naming (dirsAtLogin env disk typed) server owner typed
      canonical) : RollsBack disk (logIn env naming disk server user) := by
  have hstays : ∀ canonical, ¬Arrives env naming (afterAnswer env naming disk server user typed)
      server (sessionOf env typed server owner device token).userId typed canonical := by
    intro canonical harrives
    exact hnot canonical ((Arrives.of_sameDirs (afterAnswer_sameDirs h hgrants)).mp harrives)
  obtain ⟨error, herror⟩ := finish_of_not_arrives hstays
  simp only [logIn, prepare_of_prepared h, obtainSession_eq h hgrants hopens, herror]
  refine fun _ _ => ⟨Untouched.of_only (afterAnswer_only h) (afterAnswer_kept h),
    fun token' htoken' => ?_⟩
  cases htoken'
  exact List.mem_singleton_self _

/-- What the end of a login does to the accounts when it fails. -/
theorem untouched_iff_of_not_completes {reached : AccountDir} {moved : DataDir} {session : Session}
    (hreached : reached.dir = canonical.dir)
    (hcontents : moved.files canonical.dir = (afterAnswer env naming disk server user typed).files
      typed.dir)
    (hmoves : canonical.dir ≠ typed.dir → moved.find typed.dir = none ∧ (afterAnswer env naming disk
      server user typed).find canonical.dir = none)
    (hothers : ∀ other, other ≠ typed.dir → other ≠ canonical.dir → moved.find other = (afterAnswer
      env naming disk server user typed).find other)
    (hstore : env.backend = .wbfSdk → reached.matrixStoreDir moved = storeAtLogin disk typed)
    (hnot : ¬Completes env (storeAtLogin disk typed) session.userId session.deviceId) :
    Untouched disk (createAndSeal env moved reached session).disk ↔
      (typed.isLoggedIn disk = true →
        canonical.dir = typed.dir ∧
          (env.backend = .wbfSdk → ∀ keyOwner roomKeys,
            typed.matrixStoreDir disk = some (.ofDevice keyOwner roomKeys) →
              env.rollback.left = some (.ofDevice keyOwner roomKeys))) := by
  have honly : Only canonical.dir moved (createAndSeal env moved reached session).disk := by
    rw [← hreached]
    exact createAndSeal_only
  obtain ⟨-, hsession, hsnapshot, hplain, hwbf⟩ := createAndSeal_of_not_completes
    ((not_congr (Completes.congr hstore)).mpr hnot)
  rw [hreached, hcontents] at hsession hsnapshot
  constructor
  · intro huntouched hin
    have hkept := huntouched typed.dir hin
    have hsame : canonical.dir = typed.dir := by
      by_contra hne
      have hgone : (createAndSeal env moved reached session).disk.files typed.dir = {} := by
        rw [DataDir.files, honly typed.dir (Ne.symm hne), (hmoves hne).1]
        rfl
      have hnone := hkept.session
      rw [hgone] at hnone
      rw [AccountDir.isLoggedIn, ← hnone] at hin
      cases hin
    refine ⟨hsame, fun hbackend keyOwner roomKeys hkeys => ?_⟩
    have hthere : (reached.matrixStoreDir moved).isSome = true := by
      rw [hstore hbackend, storeAtLogin, if_pos hin, hkeys]
      rfl
    rw [← hwbf hbackend hthere, AccountDir.matrixStoreDir, hreached, hsame]
    exact hkept.store keyOwner roomKeys hkeys
  · intro hharmless dir hin
    by_cases hdir : dir = typed.dir
    · subst hdir
      obtain ⟨hsame, hleft⟩ := hharmless hin
      have hkept := afterAnswer_kept h hin
      rw [hsame] at hsession hsnapshot
      refine ⟨hsession.trans hkept.session, hsnapshot.trans hkept.snapshot,
        fun keyOwner roomKeys hkeys => ?_⟩
      by_cases hbackend : env.backend = .wbfSdk
      · have hthere : (reached.matrixStoreDir moved).isSome = true := by
          have hlogged : typed.isLoggedIn disk = true := hin
          rw [hstore hbackend, storeAtLogin, if_pos hlogged, AccountDir.matrixStoreDir, hkeys]
          rfl
        have hafter := hwbf hbackend hthere
        rw [AccountDir.matrixStoreDir, hreached, hsame] at hafter
        rw [hafter]
        exact hleft hbackend keyOwner roomKeys hkeys
      · rw [hplain hbackend, ← hsame, hcontents]
        exact hkept.store keyOwner roomKeys hkeys
    · by_cases hcanonical : dir = canonical.dir
      · -- Nobody was logged in where the directory has been moved to.
        have hne : canonical.dir ≠ typed.dir := fun hsame => hdir (hcanonical.trans hsame)
        have hnone := (hmoves hne).2
        rw [afterAnswer_only h canonical.dir hne] at hnone
        rw [hcanonical, DataDir.files, hnone] at hin
        cases hin
      · rw [DataDir.files, DataDir.files, honly dir hcanonical, hothers dir hdir hcanonical,
          afterAnswer_only h dir hdir]
        exact Kept.refl

theorem rollsBack_iff_of_arrives (hgrants : Grants env owner device token)
    (hopens : env.backend = .matrixSdkClient → OpensFor env (storeAtLogin disk typed) owner device)
    (harrives : Arrives env naming (dirsAtLogin env disk typed) server owner typed canonical) :
    RollsBack disk (logIn env naming disk server user) ↔
      (Completes env (storeAtLogin disk typed) owner device → env.writesCurrent = true) ∧
        (¬Completes env (storeAtLogin disk typed) owner device →
          typed.isLoggedIn disk = true →
            canonical.dir = typed.dir ∧
              (env.backend = .wbfSdk → ∀ keyOwner roomKeys,
                typed.matrixStoreDir disk = some (.ofDevice keyOwner roomKeys) →
                  env.rollback.left = some (.ofDevice keyOwner roomKeys))) := by
  have harrives' : Arrives env naming (afterAnswer env naming disk server user typed) server
      (sessionOf env typed server owner device token).userId typed canonical :=
    (Arrives.of_sameDirs (afterAnswer_sameDirs h hgrants)).mpr harrives
  obtain ⟨reached, moved, hreached, hfinish, hcontents, hmoves, hothers⟩ :=
    finish_of_arrives harrives'
  have hstore : env.backend = .wbfSdk →
      reached.matrixStoreDir moved = storeAtLogin disk typed := by
    intro hwbf
    rw [← afterAnswer_store h hwbf, AccountDir.matrixStoreDir, hreached, hcontents]
    rfl
  by_cases hcompletes : Completes env (storeAtLogin disk typed) owner device
  · have hdone : (createAndSeal env moved reached
        (sessionOf env typed server owner device token)).result = .ok reached :=
      (createAndSeal_of_completes ((Completes.congr hstore).mpr hcompletes)).1
    simp only [RollsBack, logIn, prepare_of_prepared h, obtainSession_eq h hgrants hopens,
      hfinish, hdone, hcompletes, true_imp_iff, not_true, false_imp_iff, and_true]
    cases env.writesCurrent with
    | false =>
      refine iff_of_false (fun hrolls => ?_) Bool.false_ne_true
      exact List.not_mem_nil ((hrolls .io rfl).2 token rfl)
    | true => exact iff_of_true (fun error herror => (by cases herror)) rfl
  · have hfails : ∃ error, (createAndSeal env moved reached
        (sessionOf env typed server owner device token)).result = .error error :=
      (createAndSeal_of_not_completes ((not_congr (Completes.congr hstore)).mpr hcompletes)).1
    obtain ⟨error, herror⟩ := hfails
    have huntouched : Untouched disk (createAndSeal env moved reached
        (sessionOf env typed server owner device token)).disk ↔ _ :=
      untouched_iff_of_not_completes h hreached hcontents hmoves hothers hstore hcompletes
    simp only [RollsBack, logIn, prepare_of_prepared h, obtainSession_eq h hgrants hopens,
      hfinish, herror, hcompletes, false_imp_iff, true_and, not_false_iff, true_imp_iff]
    rw [← huntouched]
    refine ⟨fun hrolls => (hrolls error rfl).1, fun hkept _ _ => ⟨hkept, fun token' htoken' => ?_⟩⟩
    cases htoken'
    exact List.mem_singleton_self _

end

end Proofs

/-- A login rolls back when it fails exactly when it can do no harm. -/
theorem failed_login_rolls_back_iff (env : Env) (naming : Naming) (disk : DataDir)
    (server user : Text) :
    RollsBack disk (logIn env naming disk server user) ↔ Harmless env naming disk server user := by
  by_cases hprepared : ∃ typed, Prepared env naming disk server user typed
  · obtain ⟨typed, hprepared⟩ := hprepared
    by_cases hgrants : ∃ owner device token, Grants env owner device token
    · obtain ⟨owner, device, token, hgrants⟩ := hgrants
      have honly : ∀ other owner' device' token', Prepared env naming disk server user other →
          Grants env owner' device' token' →
            other = typed ∧ owner' = owner ∧ device' = device ∧ token' = token := by
        intro other owner' device' token' hother hgrants'
        have hsame := hother.2.2.1.symm.trans hprepared.2.2.1
        have hanswer := hgrants'.1.symm.trans hgrants.1
        cases hsame
        cases hanswer
        exact ⟨rfl, rfl, rfl, rfl⟩
      constructor
      · intro hrolls other owner' device' token' hother hgrants'
        obtain ⟨rfl, rfl, rfl, rfl⟩ := honly other owner' device' token' hother hgrants'
        have hopens : env.backend = .matrixSdkClient →
            OpensFor env (storeAtLogin disk other) owner' device' := by
          by_contra hnot
          exact not_rollsBack_of_not_opens hother hgrants' hnot hrolls
        exact ⟨hopens, fun canonical harrives =>
          (rollsBack_iff_of_arrives hother hgrants' hopens harrives).mp hrolls⟩
      · intro hharmless
        obtain ⟨hopens, hends⟩ := hharmless typed owner device token hprepared hgrants
        by_cases harrives : ∃ canonical,
            Arrives env naming (dirsAtLogin env disk typed) server owner typed canonical
        · obtain ⟨canonical, harrives⟩ := harrives
          exact (rollsBack_iff_of_arrives hprepared hgrants hopens harrives).mpr
            (hends canonical harrives)
        · exact rollsBack_of_not_arrives hprepared hgrants hopens (not_exists.mp harrives)
    · have hnone : ∀ owner device token, ¬Grants env owner device token :=
        fun owner device token hgranted => hgrants ⟨owner, device, token, hgranted⟩
      exact iff_of_true (rollsBack_of_not_grants hprepared hnone)
        fun _ owner device token _ hgranted => (hnone owner device token hgranted).elim
  · exact iff_of_true (rollsBack_of_not_prepared (not_exists.mp hprepared))
      fun typed _ _ _ htyped => (hprepared ⟨typed, htyped⟩).elim

/-- Alice is logged in with her first device. -/
def exampleDisk : DataDir :=
  { bareServers := []
    toBeDeleted := []
    accounts := (∅ : AList fun _ : Path => AccountFiles).insert
      ("localhost".toList, "alice".toList)
      { session := some
          { server := "http://localhost".toList
            userId := "@alice:localhost".toList
            deviceId := "FIRST".toList
            accessToken := "old".toList
            storeDir := none
            backend := some .wbfSdk }
        store := some (.ofDevice ("@alice:localhost".toList, "FIRST".toList) ["room key".toList]) } }

/-- The server grants a second device. -/
def exampleAnswer : Text × Text × Text :=
  ("@alice:localhost".toList, "SECOND".toList, "new".toList)

/-- The store of the first device is removed, since it is not that of the second. -/
theorem second_login_removes_store :
    ¬RollsBack exampleDisk
      (logIn (exampleEnv exampleAnswer) exampleNaming exampleDisk "http://localhost".toList
        "alice".toList) := by
  intro hrolls
  have hkept := (hrolls .io (by decide +kernel)).1 ("localhost".toList, "alice".toList)
    (by decide +kernel)
  have hstore := hkept.store ("@alice:localhost".toList, "FIRST".toList) ["room key".toList]
    (by decide +kernel)
  revert hstore
  decide +kernel

end LoginRollback
end WbfMatrixClient
