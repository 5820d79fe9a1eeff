import WbfMatrixClient.SecretStorageRuns

/-!
# The recovery key

Once the secret storage of an account has been made, its recovery key is sealed on the disk and
given to the caller. A run may end at any request: it fails, it fails after the server has done
what it was asked, or the program ends. A second recovery key is not made as long as there is a
default key.
-/

namespace WbfMatrixClient
namespace SecretStorage

open Function

/-- A run that makes a recovery key, with what is sealed for the user. -/
structure RecoveryRun where
  data : AccountData
  run : KeyRun
  kept : Option String
  /-- What has been returned: the key, or an error of the sealing. -/
  returned : Option (Option String)

namespace RecoveryRun

variable (packages : StoragePackages)

/-- The next request or the sealing, and how it ends. A run that is left alone has crashed. -/
def step (s : RecoveryRun) (reply : Reply) : RecoveryRun :=
  match s.run.stage, s.returned with
  | .created, none =>
      match reply with
      | .ok =>
          { s with kept := some s.run.key.recoveryKey, returned := some (some s.run.key.recoveryKey) }
      | .lost => { s with kept := some s.run.key.recoveryKey, returned := some none }
      | .refused => { s with returned := some none }
  | .created, some _ => s
  | _, _ =>
      let after := s.run.step packages s.data reply
      { s with data := after.1, run := after.2 }

end RecoveryRun

/-- The default key is this one. -/
def Names (data : AccountData) (key : StorageKey) : Prop :=
  (data .defaultKey).bind (fun content => content.text "key") = some key.keyId

/-- The recovery key is sealed, or the caller has it. -/
def IsGiven (s : RecoveryRun) : Prop :=
  s.kept = some s.run.key.recoveryKey ∨ s.returned = some (some s.run.key.recoveryKey)

/-- A key that the server uses has been given to somebody. Else the default key is what it was, and
a later run is refused because of that one only. -/
structure KeyKept (before : AccountData) (s : RecoveryRun) : Prop where
  given : Names s.data s.run.key → IsGiven s
  same : ¬Names s.data s.run.key → s.data .defaultKey = before .defaultKey
  later : (s.data .defaultKey).isSome = true → s.data .defaultKey = before .defaultKey ∨ IsGiven s

/-- How many requests of a run come before the one that makes the key the default one. -/
def requestsBefore (backup : Option String) : Nat :=
  9 + 2 * backup.toList.length

/-- If the server makes the key the default one, then it says so and the key is sealed. -/
def SealFollows (data : AccountData) (keys : CrossSigningKeyExport) (backup : Option String)
    (replies : List Reply) : Prop :=
  data .defaultKey = none → keys.isComplete = true →
    (∀ i < requestsBefore backup, replies[i]? = some .ok) →
      ∀ reply, replies[requestsBefore backup]? = some reply →
        reply = .refused ∨
          reply = .ok ∧ ∃ sealing, replies[requestsBefore backup + 1]? = some sealing ∧
            sealing ≠ .refused

/-- The requests that are left before the last one, if the run has not ended. -/
def KeyRun.left (run : KeyRun) : Option Nat :=
  let rest (isBackupNext : Bool) : Nat :=
    if isBackupNext then 1 + 2 * run.backup.toList.length else 0
  match run.stage with
  | .checking => some (2 + 2 * run.keys.secrets.length + rest true)
  | .describing => some (1 + 2 * run.keys.secrets.length + rest true)
  | .reading _ _ secrets isBackupNext => some (2 + 2 * secrets.length + rest isBackupNext)
  | .writing _ _ _ secrets isBackupNext => some (1 + 2 * secrets.length + rest isBackupNext)
  | .findingBackup => some (rest true)
  | .pointing => some 0
  | _ => none

section Progress

variable {packages : StoragePackages} {run : KeyRun} {data : AccountData}

theorem length_secrets {keys : CrossSigningKeyExport} (h : keys.isComplete = true) :
    keys.secrets.length = 3 := by
  obtain ⟨masterKey, selfSigningKey, userSigningKey⟩ := keys
  rw [CrossSigningKeyExport.isComplete, Bool.and_eq_true, Bool.and_eq_true] at h
  obtain ⟨masterKey, rfl⟩ := Option.isSome_iff_exists.mp h.1.1
  obtain ⟨selfSigningKey, rfl⟩ := Option.isSome_iff_exists.mp h.1.2
  obtain ⟨userSigningKey, rfl⟩ := Option.isSome_iff_exists.mp h.2
  rfl

theorem left_afterSecrets (secrets : List (SecretName × String)) (isBackupNext : Bool) :
    ({ run with stage := afterSecrets secrets isBackupNext } : KeyRun).left =
      some (2 * secrets.length + if isBackupNext then 1 + 2 * run.backup.toList.length else 0) := by
  cases secrets with
  | nil => cases isBackupNext <;> simp [afterSecrets, KeyRun.left]
  | cons p secrets =>
    obtain ⟨name, secret⟩ := p
    simp only [afterSecrets, KeyRun.left, List.length_cons, Option.some.injEq]
    omega

theorem KeyRun.write_left {k : Nat} {type : DataType} {next : Stage} (htype : type ≠ .defaultKey)
    (hnext : next ≠ .checking) (hleft : ({ run with stage := next } : KeyRun).left = some k)
    (content : Json) (reply : Reply) :
    let after := run.write data type content next reply
    after.1 .defaultKey = data .defaultKey ∧ after.2.key = run.key ∧ after.2.stage ≠ .checking ∧
      (reply = .ok → after.2.left = some k) ∧ (reply ≠ .ok → after.2.stage = .failed) := by
  have hdefault : update data type (some content) .defaultKey = data .defaultKey :=
    update_of_ne htype.symm _ _
  cases reply with
  | ok => exact ⟨hdefault, rfl, hnext, fun _ => hleft, fun hne => absurd rfl hne⟩
  | lost => exact ⟨hdefault, rfl, fun h => (by cases h), fun h => (by cases h), fun _ => rfl⟩
  | refused => exact ⟨rfl, rfl, fun h => (by cases h), fun h => (by cases h), fun _ => rfl⟩

/-- Each request before the last one brings the run one request further or ends it, and leaves the
default key. -/
theorem KeyRun.step_left (packages : StoragePackages) (data : AccountData) {k : Nat}
    (h : run.left = some (k + 1)) (reply : Reply)
    (hchecked : run.stage = .checking → data .defaultKey = none ∧ run.keys.isComplete = true) :
    let after := run.step packages data reply
    after.1 .defaultKey = data .defaultKey ∧ after.2.key = run.key ∧ after.2.stage ≠ .checking ∧
      (reply = .ok → after.2.left = some k) ∧ (reply ≠ .ok → after.2.stage = .failed) := by
  have hnext : ∀ secrets isBackupNext, afterSecrets secrets isBackupNext ≠ .checking := by
    intro secrets isBackupNext
    cases secrets with
    | nil => cases isBackupNext <;> exact fun h => (by cases h)
    | cons p secrets => exact fun h => (by cases h)
  unfold KeyRun.step
  cases hstage : run.stage with
  | checking =>
    obtain ⟨hnone, hcomplete⟩ := hchecked hstage
    simp only [hnone, Option.isSome_none, Bool.false_eq_true, if_false, hcomplete, if_true]
    have hleft : ({ run with stage := .describing } : KeyRun).left = some k := by
      simp only [KeyRun.left, hstage, Option.some.injEq] at h ⊢
      omega
    by_cases hreply : reply = .ok
    · rw [if_pos hreply]
      exact ⟨hnone, rfl, fun h => (by cases h), fun _ => hleft, fun hne => absurd hreply hne⟩
    · rw [if_neg hreply]
      exact ⟨hnone, rfl, fun h => (by cases h), fun hok => absurd hok hreply, fun _ => rfl⟩
  | describing =>
    have hleft : ({ run with stage := afterSecrets run.keys.secrets true } : KeyRun).left =
        some k := by
      rw [left_afterSecrets]
      simp only [KeyRun.left, hstage, Option.some.injEq] at h ⊢
      omega
    exact KeyRun.write_left (fun h => (by cases h)) (hnext _ _) hleft _ reply
  | reading name secret secrets isBackupNext =>
    dsimp only
    by_cases hreply : reply = .ok
    · rw [if_pos hreply]
      refine ⟨rfl, rfl, fun h => (by cases h), fun _ => ?_, fun hne => absurd hreply hne⟩
      simp only [KeyRun.left, hstage, Option.some.injEq] at h ⊢
      omega
    · rw [if_neg hreply]
      exact ⟨rfl, rfl, fun h => (by cases h), fun hok => absurd hok hreply, fun _ => rfl⟩
  | writing name secret content secrets isBackupNext =>
    have hleft : ({ run with stage := afterSecrets secrets isBackupNext } : KeyRun).left =
        some k := by
      rw [left_afterSecrets]
      simp only [KeyRun.left, hstage, Option.some.injEq] at h ⊢
      omega
    exact KeyRun.write_left (fun h => (by cases h)) (hnext _ _) hleft _ reply
  | findingBackup =>
    dsimp only
    by_cases hreply : reply = .ok
    · rw [if_pos hreply]
      refine ⟨rfl, rfl, hnext _ _, fun _ => ?_, fun hne => absurd hreply hne⟩
      rw [left_afterSecrets]
      simp only [KeyRun.left, hstage, if_true, Option.some.injEq] at h
      simp only [List.length_map, Bool.false_eq_true, if_false, Option.some.injEq]
      omega
    · rw [if_neg hreply]
      exact ⟨rfl, rfl, fun h => (by cases h), fun hok => absurd hok hreply, fun _ => rfl⟩
  | pointing =>
    simp only [KeyRun.left, hstage, Option.some.injEq] at h
    omega
  | created | refused | failed =>
    rw [KeyRun.left, hstage] at h
    cases h

end Progress

section Runs

variable {packages : StoragePackages} {before : AccountData}

variable {s : RecoveryRun}

/-- A run that has failed or was refused stays as it is. -/
theorem run_ended (h : s.run.stage = .failed ∨ s.run.stage = .refused) (replies : List Reply) :
    Runs.run (RecoveryRun.step packages) s replies = s := by
  induction replies with
  | nil => rfl
  | cons reply replies ih =>
    have hstep : s.step packages reply = s := by
      obtain ⟨data, run, kept, returned⟩ := s
      dsimp only at h
      rcases h with h | h <;>
        simp only [RecoveryRun.step, h, KeyRun.step]
    rw [Runs.run_cons, hstep, ih]

theorem run_returned (hstage : s.run.stage = .created) (hreturned : s.returned.isSome = true)
    (replies : List Reply) : Runs.run (RecoveryRun.step packages) s replies = s := by
  obtain ⟨result, hresult⟩ := Option.isSome_iff_exists.mp hreturned
  induction replies with
  | nil => rfl
  | cons reply replies ih =>
    have hstep : s.step packages reply = s := by simp only [RecoveryRun.step, hstage, hresult]
    rw [Runs.run_cons, hstep, ih]

/-- As long as the run is on its way, it does what its requests do. -/
theorem step_of_left {k : Nat} (h : s.run.left = some k) (reply : Reply) :
    s.step packages reply =
      { s with
        data := (s.run.step packages s.data reply).1
        run := (s.run.step packages s.data reply).2 } := by
  unfold RecoveryRun.step
  cases hstage : s.run.stage with
  | created =>
    rw [KeyRun.left, hstage] at h
    cases h
  | _ => rfl

/-- The requests before the last one either bring the run to it, or end it with the default key as
it was. -/
theorem run_left (packages : StoragePackages) (k : Nat) :
    ∀ (s : RecoveryRun) (replies : List Reply), s.run.left = some k →
      (s.run.stage = .checking → s.data .defaultKey = none ∧ s.run.keys.isComplete = true) →
      let after := Runs.run (RecoveryRun.step packages) s replies
      ((¬∀ i < k, replies[i]? = some .ok) →
        after.data .defaultKey = s.data .defaultKey ∧ after.run.key = s.run.key) ∧
      ((∀ i < k, replies[i]? = some .ok) → ∃ pointing : RecoveryRun,
        pointing.run.left = some 0 ∧ pointing.run.key = s.run.key ∧
          pointing.data .defaultKey = s.data .defaultKey ∧ pointing.kept = s.kept ∧
            pointing.returned = s.returned ∧
              after = Runs.run (RecoveryRun.step packages) pointing (replies.drop k)) := by
  induction k with
  | zero =>
    intro s replies hleft _
    refine ⟨fun hnot => absurd (fun i hi => absurd hi (Nat.not_lt_zero i)) hnot, fun _ => ?_⟩
    exact ⟨s, hleft, rfl, rfl, rfl, rfl, rfl⟩
  | succ k ih =>
    intro s replies hleft hchecked
    cases replies with
    | nil =>
      refine ⟨fun _ => ⟨rfl, rfl⟩, fun hall => ?_⟩
      cases hall 0 (Nat.succ_pos k)
    | cons reply replies =>
      obtain ⟨hdefault, hkey, hstage, hok, hfailed⟩ :=
        KeyRun.step_left packages s.data hleft reply hchecked
      intro after
      have hafter : after = Runs.run (RecoveryRun.step packages) (s.step packages reply)
          replies := Runs.run_cons _ _ _ _
      rw [step_of_left hleft] at hafter
      by_cases hreply : reply = .ok
      · obtain ⟨hends, hgoes⟩ := ih
          { s with
            data := (s.run.step packages s.data reply).1
            run := (s.run.step packages s.data reply).2 } replies (hok hreply)
          (fun h => absurd h hstage)
        rw [← hafter] at hends hgoes
        dsimp only at hends hgoes
        rw [hdefault, hkey] at hends hgoes
        refine ⟨fun hnot => hends fun hall => hnot fun i hi => ?_, fun hall => ?_⟩
        · cases i with
          | zero => rw [hreply]; rfl
          | succ i => exact hall i (Nat.lt_of_succ_lt_succ hi)
        · exact hgoes fun i hi => hall (i + 1) (Nat.succ_lt_succ hi)
      · rw [run_ended (.inl (hfailed hreply))] at hafter
        rw [hafter]
        refine ⟨fun _ => ⟨hdefault, hkey⟩, fun hall => ?_⟩
        have hfirst := hall 0 (Nat.succ_pos k)
        exact absurd (Option.some.inj hfirst) hreply

/-- The state before the first request. -/
def RecoveryRun.start (data : AccountData) (key : StorageKey) (keys : CrossSigningKeyExport)
    (backup : Option String) (seed : Nat) (kept : Option String) : RecoveryRun :=
  { data := data, run := { key, keys, backup, seed, stage := .checking }, kept := kept,
    returned := none }

theorem keyKept_of_same (hfresh : ¬Names before s.run.key)
    (hsame : s.data .defaultKey = before .defaultKey) : KeyKept before s := by
  have hnot : ¬Names s.data s.run.key := by
    rw [Names, hsame]
    exact hfresh
  exact ⟨fun hnames => absurd hnames hnot, fun _ => hsame, fun _ => .inl hsame⟩

/-- From the last request on. -/
theorem run_pointing (packages : StoragePackages) {before : AccountData}
    (hleft : s.run.left = some 0) (hfresh : ¬Names before s.run.key)
    (hbefore : s.data .defaultKey = before .defaultKey) (hreturned : s.returned = none)
    (hkept : s.kept ≠ some s.run.key.recoveryKey) (replies : List Reply) :
    let after := Runs.run (RecoveryRun.step packages) s replies
    KeyKept before after ↔ ∀ reply, replies[0]? = some reply →
      reply = .refused ∨ reply = .ok ∧ ∃ sealing, replies[1]? = some sealing ∧ sealing ≠ .refused := by
  have hstage : s.run.stage = .pointing := by
    cases hstage : s.run.stage with
    | pointing => rfl
    | checking | describing => simp [KeyRun.left, hstage] at hleft
    | reading name secret rest isBackupNext => simp [KeyRun.left, hstage] at hleft
    | writing name secret content rest isBackupNext => simp [KeyRun.left, hstage] at hleft
    | findingBackup | created | refused | failed => simp [KeyRun.left, hstage] at hleft
  -- Once the key is the default one, all depends on whether it is given.
  have hpointed : ∀ after : RecoveryRun, after.run.key = s.run.key →
      after.data .defaultKey = some s.run.defaultContent →
        (KeyKept before after ↔ IsGiven after) := by
    intro after hkey hdefault
    have hnames : Names after.data after.run.key := by
      rw [Names, hdefault, hkey]
      rfl
    refine ⟨fun h => h.given hnames, fun h => ⟨fun _ => h, fun hnot => absurd hnames hnot,
      fun _ => .inr h⟩⟩
  have hdefault : update s.data .defaultKey (some s.run.defaultContent) .defaultKey =
      some s.run.defaultContent := update_self ..
  cases replies with
  | nil => exact iff_of_true (keyKept_of_same hfresh hbefore) fun _ h => (by cases h)
  | cons reply replies =>
    rw [Runs.run_cons, step_of_left hleft]
    cases reply with
    | refused =>
      have hstep : s.run.step packages s.data .refused =
          (s.data, { s.run with stage := .failed }) := by
        rw [KeyRun.step, hstage]
        rfl
      rw [hstep, run_ended (.inl rfl)]
      refine iff_of_true (keyKept_of_same hfresh hbefore) fun reply hreply => .inl ?_
      exact (Option.some.inj hreply).symm
    | lost =>
      have hstep : s.run.step packages s.data .lost =
          (update s.data .defaultKey (some s.run.defaultContent),
            { s.run with stage := .failed }) := by
        rw [KeyRun.step, hstage]
        rfl
      rw [hstep, run_ended (.inl rfl)]
      refine Iff.trans (hpointed _ rfl hdefault) (iff_of_false ?_ fun h => ?_)
      · rintro (hsealed | hgiven)
        · exact hkept hsealed
        · rw [hreturned] at hgiven
          cases hgiven
      · rcases h .lost rfl with h | ⟨h, -⟩ <;> cases h
    | ok =>
      have hstep : s.run.step packages s.data .ok =
          (update s.data .defaultKey (some s.run.defaultContent),
            { s.run with stage := .created }) := by
        rw [KeyRun.step, hstage]
        rfl
      rw [hstep]
      cases replies with
      | nil =>
        rw [Runs.run_nil]
        refine Iff.trans (hpointed _ rfl hdefault) (iff_of_false ?_ fun h => ?_)
        · rintro (hsealed | hgiven)
          · exact hkept hsealed
          · replace hgiven := hreturned.symm.trans hgiven
            cases hgiven
        · rcases h .ok rfl with h | ⟨-, sealing, h, -⟩ <;> cases h
      | cons sealing replies =>
        rw [Runs.run_cons]
        cases sealing with
        | ok =>
          simp only [RecoveryRun.step, hreturned]
          rw [run_returned rfl rfl]
          refine Iff.trans (hpointed _ rfl hdefault) (iff_of_true ?_ ?_)
          · exact .inl rfl
          · intro reply hreply
            cases hreply
            exact .inr ⟨rfl, .ok, rfl, by decide⟩
        | lost =>
          simp only [RecoveryRun.step, hreturned]
          rw [run_returned rfl rfl]
          refine Iff.trans (hpointed _ rfl hdefault) (iff_of_true ?_ ?_)
          · exact .inl rfl
          · intro reply hreply
            cases hreply
            exact .inr ⟨rfl, .lost, rfl, by decide⟩
        | refused =>
          simp only [RecoveryRun.step, hreturned]
          rw [run_returned rfl rfl]
          refine Iff.trans (hpointed _ rfl hdefault)
            (iff_of_false ?_ fun h => ?_)
          · rintro (hsealed | hgiven)
            · exact hkept hsealed
            · cases hgiven
          · rcases h .ok rfl with h | ⟨-, sealing, h, hne⟩
            · cases h
            · cases h
              exact hne rfl

/-- A recovery key that the server uses is kept if and only if nothing comes between the server's
making it the default one and the sealing. -/
theorem recovery_key_kept_iff (packages : StoragePackages) (data : AccountData) (key : StorageKey)
    (keys : CrossSigningKeyExport) (backup : Option String) (seed : Nat) (kept : Option String)
    (hfresh : ¬Names data key) (hkept : kept ≠ some key.recoveryKey) (replies : List Reply) :
    KeyKept data (Runs.run (RecoveryRun.step packages)
        (.start data key keys backup seed kept) replies) ↔
      SealFollows data keys backup replies := by
  by_cases hbegins : data .defaultKey = none ∧ keys.isComplete = true
  · obtain ⟨hnone, hcomplete⟩ := hbegins
    have hleft : (RecoveryRun.start data key keys backup seed kept).run.left =
        some (requestsBefore backup) := by
      simp only [RecoveryRun.start, KeyRun.left, length_secrets hcomplete, if_true, requestsBefore,
        Option.some.injEq]
      omega
    obtain ⟨hends, hgoes⟩ := run_left packages (requestsBefore backup)
      (RecoveryRun.start data key keys backup seed kept) replies hleft
      (fun _ => ⟨hnone, hcomplete⟩)
    by_cases hall : ∀ i < requestsBefore backup, replies[i]? = some .ok
    · obtain ⟨pointing, hpointing, hkey, hsame, hkept', hreturned, hafter⟩ := hgoes hall
      rw [hafter]
      have hrest := run_pointing packages hpointing
        (by rw [hkey]; exact hfresh) hsame hreturned
        (by rw [hkey, hkept']; exact hkept) (replies.drop (requestsBefore backup))
      refine hrest.trans ?_
      rw [SealFollows, List.getElem?_drop, List.getElem?_drop, Nat.add_zero]
      exact ⟨fun h _ _ _ => h, fun h => h hnone hcomplete hall⟩
    · obtain ⟨hsame, hkey⟩ := hends hall
      refine iff_of_true (keyKept_of_same ?_ hsame) fun _ _ hok => absurd hok hall
      rw [hkey]
      exact hfresh
  · refine iff_of_true ?_ fun hnone hcomplete => absurd ⟨hnone, hcomplete⟩ hbegins
    cases replies with
    | nil => exact keyKept_of_same hfresh rfl
    | cons reply replies =>
        rw [Runs.run_cons]
        have hstep : ∃ stage, (stage = .failed ∨ stage = .refused) ∧
            KeyRun.step packages data { key, keys, backup, seed, stage := .checking } reply =
              (data, { key, keys, backup, seed, stage }) := by
          unfold KeyRun.step
          dsimp only
          by_cases hreply : reply = .ok
          · rw [if_pos hreply]
            by_cases hdefault : (data .defaultKey).isSome = true
            · rw [if_pos hdefault]
              exact ⟨.refused, .inr rfl, rfl⟩
            · rw [if_neg hdefault]
              have hnone : data .defaultKey = none := Option.not_isSome_iff_eq_none.mp hdefault
              rw [if_neg fun hcomplete => hbegins ⟨hnone, hcomplete⟩]
              exact ⟨.failed, .inl rfl, rfl⟩
          · rw [if_neg hreply]
            exact ⟨.failed, .inl rfl, rfl⟩
        obtain ⟨stage, hstage, hstep⟩ := hstep
        have hstart : (RecoveryRun.start data key keys backup seed kept).step packages reply =
            { data, run := { key, keys, backup, seed, stage }, kept, returned := none } := by
          simp only [RecoveryRun.step, RecoveryRun.start, hstep]
        rw [hstart, run_ended hstage]
        exact keyKept_of_same hfresh rfl

end Runs

section Examples

theorem recovery_key_kept_undisturbed :
    let key : StorageKey := { keyId := "a", recoveryKey := "EsTa" }
    let s := Runs.run (RecoveryRun.step plainPackages)
      (.start (fun _ => none) key (keysOf "A") none 0 none) (List.replicate 11 .ok)
    KeyKept (fun _ => none) s := by
  intro key
  have hiff := recovery_key_kept_iff plainPackages (fun _ => none) key (keysOf "A") none 0 none
    (fun h => (by cases h)) (fun h => (by cases h)) (List.replicate 11 .ok)
  refine hiff.mpr fun _ _ _ reply hreply => .inr ⟨?_, .ok, by decide, by decide⟩
  exact List.eq_of_mem_replicate (List.mem_of_getElem? hreply)

/-- The server makes the key the default one, and its reply is lost. Nobody has the recovery key,
and the next run is refused. -/
theorem recovery_key_dropped :
    let key : StorageKey := { keyId := "a", recoveryKey := "EsTa" }
    let s := Runs.run (RecoveryRun.step plainPackages)
      (.start (fun _ => none) key (keysOf "A") none 0 none) (List.replicate 9 .ok ++ [.lost])
    ¬KeyKept (fun _ => none) s := by
  intro key s
  have hdefault : (s.data .defaultKey).bind (fun content => content.text "key") =
      some s.run.key.keyId := by
    decide +kernel
  have hkept : s.kept = none := by decide +kernel
  have hreturned : s.returned = none := by decide +kernel
  clear_value s
  intro h
  rcases h.given hdefault with hsealed | hgiven
  · rw [hkept] at hsealed
    cases hsealed
  · rw [hreturned] at hgiven
    cases hgiven

end Examples

end SecretStorage
end WbfMatrixClient
