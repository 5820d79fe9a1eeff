import Mathlib.Data.List.Nodup
import WbfMatrixClient.SecretStorage

/-!
# Secret storages made at the same time

As long as no write drops what is encrypted there under the key of another run, a run that has got
to the default key has all its secrets in place, and they stay there.
-/

namespace WbfMatrixClient
namespace SecretStorage

open Function

/-- The key is described, and the three private keys are there under it. -/
structure Holds (packages : StoragePackages) (data : AccountData) (key : StorageKey)
    (keys : CrossSigningKeyExport) : Prop where
  complete : keys.isComplete = true
  described : data (.key key.keyId) = some (packages.eventContent key)
  secrets : ∀ p ∈ keys.secrets, getSecret packages (data (.secret p.1)) key p.1 = .ok (some p.2)

/-- Nothing that is there for the key is lost. -/
def Preserves (data data' : AccountData) (keyId : String) : Prop :=
  data' (.key keyId) = data (.key keyId) ∧
    ∀ name encrypted, encryptedUnder (data (.secret name)) keyId = some encrypted →
      encryptedUnder (data' (.secret name)) keyId = some encrypted

section Keys

variable {packages : StoragePackages} {data data' : AccountData} {key : StorageKey}
  {keys : CrossSigningKeyExport}

theorem Preserves.refl (data : AccountData) (keyId : String) : Preserves data data keyId :=
  ⟨rfl, fun _ _ h => h⟩

theorem Preserves.getSecret (h : Preserves data data' key.keyId) {name : SecretName}
    {secret : String}
    (hsecret : getSecret packages (data (.secret name)) key name = .ok (some secret)) :
    getSecret packages (data' (.secret name)) key name = .ok (some secret) := by
  rw [SecretStorage.getSecret] at hsecret ⊢
  cases hfound : encryptedUnder (data (.secret name)) key.keyId with
  | none =>
    rw [hfound] at hsecret
    cases hsecret
  | some encrypted =>
    rw [hfound] at hsecret
    rw [h.2 name encrypted hfound]
    exact hsecret

theorem Holds.preserved (hholds : Holds packages data key keys)
    (h : Preserves data data' key.keyId) :
    Holds packages data' key keys :=
  ⟨hholds.complete, h.1.trans hholds.described, fun p hp => h.getSecret (hholds.secrets p hp)⟩

theorem secrets_unique {p q : SecretName × String} (hp : p ∈ keys.secrets) (hq : q ∈ keys.secrets)
    (hname : p.1 = q.1) : p = q := by
  obtain ⟨masterKey, selfSigningKey, userSigningKey⟩ := keys
  cases masterKey <;> cases selfSigningKey <;> cases userSigningKey <;>
    simp only [CrossSigningKeyExport.secrets, List.filterMap_cons, List.filterMap_nil,
      Option.map_some, Option.map_none, List.mem_cons, List.not_mem_nil, or_false] at hp hq <;>
    aesop

theorem secrets_name {p : SecretName × String} (hp : p ∈ keys.secrets) : p.1 ≠ .recoveryKey := by
  rw [CrossSigningKeyExport.secrets, List.mem_filterMap] at hp
  obtain ⟨⟨name, secret⟩, hmem, hsecret⟩ := hp
  obtain ⟨found, -, rfl⟩ := Option.map_eq_some_iff.mp hsecret
  simp only [List.mem_cons, List.not_mem_nil, or_false, Prod.mk.injEq] at hmem
  rcases hmem with ⟨rfl, -⟩ | ⟨rfl, -⟩ | ⟨rfl, -⟩ <;> exact fun heq => (by cases heq)

end Keys

namespace Stage

/-- The secrets of cross-signing that are still to be put. -/
def todo : Stage → List (SecretName × String)
  | .reading name secret rest true => (name, secret) :: rest
  | .writing name secret _ rest true => (name, secret) :: rest
  | _ => []

/-- What is put after them is the key of the backup. -/
def others : Stage → List (SecretName × String)
  | .reading name secret rest false => (name, secret) :: rest
  | .writing name secret _ rest false => (name, secret) :: rest
  | _ => []

/-- The key has been described. -/
def isDescribed : Stage → Bool
  | .reading _ _ _ _ => true
  | .writing _ _ _ _ _ => true
  | .findingBackup => true
  | .pointing => true
  | .created => true
  | _ => false

end Stage

/-- How far the run has come, and what of it is there. -/
structure RunSound (packages : StoragePackages) (data : AccountData) (run : KeyRun) : Prop where
  complete : run.stage.isDescribed = true ∨ run.stage = .describing → run.keys.isComplete = true
  described : run.stage.isDescribed = true →
    data (.key run.key.keyId) = some (packages.eventContent run.key)
  put : run.stage.isDescribed = true → ∀ p ∈ run.keys.secrets, p ∉ run.stage.todo →
    getSecret packages (data (.secret p.1)) run.key p.1 = .ok (some p.2)
  todo : ∀ p ∈ run.stage.todo, p ∈ run.keys.secrets
  others : ∀ p ∈ run.stage.others, p.1 = .recoveryKey
  content : ∀ name secret content rest isBackupNext,
    run.stage = .writing name secret content rest isBackupNext →
      encryptedUnder (some content) run.key.keyId =
        some (packages.encrypt run.key name run.seed secret)

/-- The step writes back a secret without something that is there under another key. -/
def Drops (data : AccountData) (run : KeyRun) (reply : Reply) : Prop :=
  reply ≠ .refused ∧ ∃ name secret content rest isBackupNext,
    run.stage = .writing name secret content rest isBackupNext ∧
      ∃ other encrypted, other ≠ run.key.keyId ∧
        encryptedUnder (data (.secret name)) other = some encrypted ∧
          encryptedUnder (some content) other ≠ some encrypted

section Steps

variable {packages : StoragePackages} {data : AccountData} {run : KeyRun}

theorem RunSound.preserved {data' : AccountData} (h : RunSound packages data run)
    (hkept : Preserves data data' run.key.keyId) :
    RunSound packages data' run :=
  ⟨h.complete, fun hstage => hkept.1.trans (h.described hstage),
    fun hstage p hp hleft => hkept.getSecret (h.put hstage p hp hleft), h.todo, h.others, h.content⟩

/-- A run that has ended, or has not begun to write, says nothing of what is there. -/
theorem RunSound.of_idle (data : AccountData) {stage : Stage}
    (hstage : stage = .failed ∨ stage = .refused ∨ stage = .checking) :
    RunSound packages data { run with stage := stage } := by
  rcases hstage with rfl | rfl | rfl
  all_goals
    refine ⟨fun h => ?_, fun h => (by cases h), fun h => (by cases h), fun _ h => (by cases h),
      fun _ h => (by cases h), fun _ _ _ _ _ h => (by cases h)⟩
    rcases h with h | h <;> cases h

/-- What follows when the secrets are `rest`. -/
theorem RunSound.of_afterSecrets (hcomplete : run.keys.isComplete = true)
    (hdescribed : data (.key run.key.keyId) = some (packages.eventContent run.key))
    {rest : List (SecretName × String)} {isBackupNext : Bool}
    (hput : ∀ p ∈ run.keys.secrets, isBackupNext = false ∨ p ∉ rest → getSecret packages (data
      (.secret p.1)) run.key p.1 = .ok (some p.2))
    (hrest : ∀ p ∈ rest, if isBackupNext then p ∈ run.keys.secrets else p.1 = .recoveryKey) :
    RunSound packages data { run with stage := afterSecrets rest isBackupNext } := by
  cases rest with
  | nil =>
    cases isBackupNext with
    | true =>
      exact ⟨fun _ => hcomplete, fun _ => hdescribed,
        fun _ p hp _ => hput p hp (.inr List.not_mem_nil), fun _ h => (by cases h),
        fun _ h => (by cases h), fun _ _ _ _ _ h => (by cases h)⟩
    | false =>
      exact ⟨fun _ => hcomplete, fun _ => hdescribed, fun _ p hp _ => hput p hp (.inl rfl),
        fun _ h => (by cases h), fun _ h => (by cases h), fun _ _ _ _ _ h => (by cases h)⟩
  | cons p rest =>
    obtain ⟨name, secret⟩ := p
    cases isBackupNext with
    | true =>
      exact ⟨fun _ => hcomplete, fun _ => hdescribed, fun _ p hp hleft => hput p hp (.inr hleft),
        hrest, fun _ h => (by cases h), fun _ _ _ _ _ h => (by cases h)⟩
    | false =>
      exact ⟨fun _ => hcomplete, fun _ => hdescribed, fun _ p hp _ => hput p hp (.inl rfl),
        fun _ h => (by cases h), hrest, fun _ _ _ _ _ h => (by cases h)⟩

/-- What one step of a run does to it and to the account data. -/
structure StepOk (packages : StoragePackages) (data : AccountData) (run : KeyRun)
    (after : AccountData × KeyRun) : Prop where
  key : after.2.key = run.key
  keys : after.2.keys = run.keys
  sound : RunSound packages after.1 after.2
  others : ∀ keyId, keyId ≠ run.key.keyId → Preserves data after.1 keyId
  own : Holds packages data run.key run.keys → Holds packages after.1 run.key run.keys
  pointed : after.1 .defaultKey = data .defaultKey ∨
    after.1 .defaultKey = some run.defaultContent ∧ Holds packages after.1 run.key run.keys

/-- The account data stays, and the run ends. -/
theorem StepOk.of_idle {stage : Stage}
    (hstage : stage = .failed ∨ stage = .refused ∨ stage = .checking) :
    StepOk packages data run (data, { run with stage := stage }) :=
  ⟨rfl, rfl, .of_idle data hstage, fun keyId _ => .refl data keyId, id, .inl rfl⟩

/-- A write that loses nothing, and what follows it. -/
theorem StepOk.of_write {type : DataType} {content : Json} {next : Stage} (reply : Reply)
    (hothers : reply ≠ .refused → ∀ keyId, keyId ≠ run.key.keyId → Preserves data (update
      data type (some content)) keyId)
    (hown : Holds packages data run.key run.keys → Holds packages (update data type (some
      content)) run.key run.keys)
    (hpointed : update data type (some content) .defaultKey = data .defaultKey ∨
      update data type (some content) .defaultKey = some run.defaultContent ∧ Holds
      packages (update data type (some content)) run.key run.keys)
    (hsound : RunSound packages (update data type (some content)) { run with stage := next
      }) : StepOk packages data run (run.write data type content next reply) := by
  cases reply with
  | ok => exact ⟨rfl, rfl, hsound, hothers (by decide), hown, hpointed⟩
  | lost => exact ⟨rfl, rfl, .of_idle _ (.inl rfl), hothers (by decide), hown, hpointed⟩
  | refused => exact StepOk.of_idle (.inl rfl)

theorem preserves_update_key (data : AccountData) {keyId other : String} (h : other ≠ keyId)
    (content : Json) : Preserves data (update data (.key keyId) (some content)) other := by
  refine ⟨update_of_ne (fun heq => h (DataType.key.inj heq)) _ _, fun name _ hname => ?_⟩
  rw [update_of_ne (fun heq => (by cases heq))]
  exact hname

theorem preserves_update_default (data : AccountData) (keyId : String) (content : Json) :
    Preserves data (update data .defaultKey (some content)) keyId := by
  refine ⟨update_of_ne (fun heq => (by cases heq)) _ _, fun name _ hname => ?_⟩
  rw [update_of_ne (fun heq => (by cases heq))]
  exact hname

section

variable (hopens : ∀ key name seed secret, packages.decrypt key name (packages.encrypt key name seed
  secret) = .ok secret)

include hopens

/-- The secret is there after it has been put, and the others are as they were. -/
theorem getSecret_update {key : StorageKey} {name : SecretName} {seed : Nat} {secret : String}
    {content : Json}
    (hcontent : encryptedUnder (some content) key.keyId = some (packages.encrypt key name seed
      secret)) {other : SecretName} {found : String}
    (hother : other = name ∧ found = secret ∨ other ≠ name ∧ getSecret packages (data (.secret
      other)) key other = .ok (some found)) :
    getSecret packages (update data (.secret name) (some content) (.secret other)) key
      other = .ok (some found) := by
  rcases hother with ⟨rfl, rfl⟩ | ⟨hne, hfound⟩
  · rw [update_self, getSecret, hcontent]
    dsimp only
    rw [hopens]
    rfl
  · rw [update_of_ne (fun heq => hne (DataType.secret.inj heq))]
    exact hfound

theorem KeyRun.step_ok (h : RunSound packages data run) (reply : Reply)
    (hdrops : ¬Drops data run reply) : StepOk packages data run (run.step packages data reply) := by
  unfold KeyRun.step
  cases hstage : run.stage with
  | checking =>
    dsimp only
    split_ifs with hreply hdefault hcomplete
    · exact .of_idle (.inr (.inl rfl))
    · refine ⟨rfl, rfl, ?_, fun keyId _ => .refl data keyId, id, .inl rfl⟩
      exact ⟨fun _ => hcomplete, fun h => (by cases h), fun h => (by cases h),
        fun _ h => (by cases h), fun _ h => (by cases h), fun _ _ _ _ _ h => (by cases h)⟩
    · exact .of_idle (.inl rfl)
    · exact .of_idle (.inl rfl)
  | describing =>
    dsimp only
    have hcomplete := h.complete (.inr hstage)
    have hsecret : ∀ name : SecretName, update data (.key run.key.keyId)
        (some (packages.eventContent run.key)) (.secret name) = data (.secret name) :=
      fun name => update_of_ne (fun heq => (by cases heq)) _ _
    refine .of_write reply (fun _ keyId hne => preserves_update_key data hne _)
      (fun hholds => ?_) (.inl ?_) ?_
    · refine ⟨hcomplete, update_self .., fun p hp => ?_⟩
      rw [hsecret]
      exact hholds.secrets p hp
    · exact update_of_ne (fun heq => (by cases heq)) _ _
    · refine .of_afterSecrets hcomplete (update_self ..) (fun p hp hleft => ?_)
        fun p hp => hp
      rcases hleft with hleft | hleft
      · cases hleft
      · exact absurd hp hleft
  | reading name secret rest isBackupNext =>
    dsimp only
    have hdescribed : run.stage.isDescribed = true := by rw [hstage]; rfl
    split_ifs with hreply
    · refine ⟨rfl, rfl, ?_, fun keyId _ => .refl data keyId, id, .inl rfl⟩
      refine ⟨fun _ => h.complete (.inl hdescribed), fun _ => h.described hdescribed,
        fun _ p hp hleft => h.put hdescribed p hp ?_, fun p hp => h.todo p ?_,
        fun p hp => h.others p ?_, ?_⟩
      · rw [hstage]
        cases isBackupNext <;> exact hleft
      · rw [hstage]
        cases isBackupNext <;> exact hp
      · rw [hstage]
        cases isBackupNext <;> exact hp
      · intro _ _ _ _ _ hwriting
        cases hwriting
        exact encryptedUnder_self _ _ _
    · exact .of_idle (.inl rfl)
  | writing name secret content rest isBackupNext =>
    dsimp only
    have hdescribed : run.stage.isDescribed = true := by rw [hstage]; rfl
    have hcontent := h.content name secret content rest isBackupNext hstage
    have hkey : update data (.secret name) (some content) (.key run.key.keyId) =
        data (.key run.key.keyId) := update_of_ne (fun heq => (by cases heq)) _ _
    have hput : ∀ p ∈ run.keys.secrets,
        (p.1 ≠ name → getSecret packages (data (.secret p.1)) run.key p.1 = .ok (some p.2)) →
          getSecret packages (update data (.secret name) (some content) (.secret p.1))
            run.key p.1 = .ok (some p.2) := by
      intro p hp hbefore
      refine getSecret_update hopens hcontent ?_
      by_cases hname : p.1 = name
      · refine .inl ⟨hname, ?_⟩
        cases isBackupNext with
        | true =>
          have hmine : (name, secret) ∈ run.keys.secrets :=
            h.todo (name, secret) (by rw [hstage]; exact List.mem_cons_self)
          rw [secrets_unique hp hmine hname]
        | false =>
          have hother := h.others (name, secret) (by rw [hstage]; exact List.mem_cons_self)
          exact absurd (hname.trans hother) (secrets_name hp)
      · exact .inr ⟨hname, hbefore hname⟩
    refine .of_write reply (fun happlied keyId hne => ?_) (fun hholds => ?_) (.inl ?_) ?_
    · refine ⟨update_of_ne (fun heq => (by cases heq)) _ _, fun other encrypted hother => ?_⟩
      by_cases hsame : other = name
      · rw [hsame] at hother ⊢
        rw [update_self]
        by_contra hlost
        exact hdrops ⟨happlied, name, secret, content, rest, isBackupNext, hstage, keyId,
          encrypted, hne, hother, hlost⟩
      · rw [update_of_ne (fun heq => hsame (DataType.secret.inj heq))]
        exact hother
    · exact ⟨hholds.complete, hkey.trans hholds.described,
        fun p hp => hput p hp fun _ => hholds.secrets p hp⟩
    · exact update_of_ne (fun heq => (by cases heq)) _ _
    · refine .of_afterSecrets (h.complete (.inl hdescribed)) (hkey.trans (h.described hdescribed))
        (fun p hp hleft => hput p hp fun hname => h.put hdescribed p hp ?_) fun p hp => ?_
      · rw [hstage]
        cases isBackupNext with
        | true =>
          rintro (_ | ⟨_, hmem⟩)
          · exact hname rfl
          · rcases hleft with hleft | hleft
            · cases hleft
            · exact hleft hmem
        | false => exact List.not_mem_nil
      · cases isBackupNext with
        | true => exact h.todo p (by rw [hstage]; exact List.mem_cons_of_mem _ hp)
        | false => exact h.others p (by rw [hstage]; exact List.mem_cons_of_mem _ hp)
  | findingBackup =>
    dsimp only
    have hdescribed : run.stage.isDescribed = true := by rw [hstage]; rfl
    split_ifs with hreply
    · refine ⟨rfl, rfl, ?_, fun keyId _ => .refl data keyId, id, .inl rfl⟩
      refine .of_afterSecrets (h.complete (.inl hdescribed)) (h.described hdescribed)
        (fun p hp _ => h.put hdescribed p hp ?_) fun p hp => ?_
      · rw [hstage]
        exact List.not_mem_nil
      · obtain ⟨backup, -, rfl⟩ := List.mem_map.mp hp
        rfl
    · exact .of_idle (.inl rfl)
  | pointing =>
    dsimp only
    have hdescribed : run.stage.isDescribed = true := by rw [hstage]; rfl
    have hholds : Holds packages data run.key run.keys := by
      refine ⟨h.complete (.inl hdescribed), h.described hdescribed,
        fun p hp => h.put hdescribed p hp ?_⟩
      rw [hstage]
      exact List.not_mem_nil
    have hkept : ∀ keyId, Preserves data
        (update data .defaultKey (some run.defaultContent)) keyId :=
      fun keyId => preserves_update_default data keyId _
    have hafter := hholds.preserved (hkept run.key.keyId)
    refine .of_write reply (fun _ keyId _ => hkept keyId) (fun _ => hafter)
      (.inr ⟨update_self .., hafter⟩) ?_
    exact ⟨fun _ => hafter.complete, fun _ => hafter.described, fun _ p hp _ => hafter.secrets p hp,
      fun _ h => (by cases h), fun _ h => (by cases h), fun _ _ _ _ _ h => (by cases h)⟩
  | created | refused | failed => exact ⟨rfl, rfl, h, fun keyId _ => .refl data keyId, id, .inl rfl⟩

end

end Steps

/-- The account data on the server, and the runs on all devices. -/
structure Account where
  data : AccountData
  runs : List KeyRun

inductive Action where
  | start (key : StorageKey) (keys : CrossSigningKeyExport) (backup : Option String) (seed : Nat)
  | reply (index : Nat) (reply : Reply)

def Account.step (packages : StoragePackages) (s : Account) : Action → Account
  | .start key keys backup seed =>
      { s with runs := s.runs ++ [{ key, keys, backup, seed, stage := .checking }] }
  | .reply index reply =>
      match s.runs[index]? with
      | none => s
      | some run =>
          let after := run.step packages s.data reply
          { data := after.1, runs := s.runs.set index after.2 }

/-- A new key has an id of its own, and no secret is written back with less than is there. -/
def MergesAll (s : Account) : Action → Prop
  | .start key _ _ _ => ∀ run ∈ s.runs, run.key.keyId ≠ key.keyId
  | .reply index reply => ∀ run, s.runs[index]? = some run → ¬Drops s.data run reply

/-- What holds of the account as long as nothing is dropped. -/
structure AccountSound (packages : StoragePackages) (s : Account) : Prop where
  ids : (s.runs.map fun run => run.key.keyId).Nodup
  runs : ∀ run ∈ s.runs, RunSound packages s.data run
  pointed : ∀ content, s.data .defaultKey = some content → ∃ maker ∈ s.runs,
    content = maker.defaultContent ∧ Holds packages s.data maker.key maker.keys

section Accounts

variable {packages : StoragePackages}

theorem AccountSound.step
    (hopens : ∀ key name seed secret, packages.decrypt key name (packages.encrypt key name seed
      secret) = .ok secret) {s : Account} (h : AccountSound packages s) {action : Action}
    (haction : MergesAll s action) : AccountSound packages (s.step packages action) := by
  cases action with
  | start key keys backup seed =>
    have hfresh : ∀ run ∈ s.runs, run.key.keyId ≠ key.keyId := haction
    refine ⟨?_, ?_, ?_⟩
    · dsimp only [Account.step]
      rw [List.map_append, List.map_cons, List.map_nil]
      refine List.nodup_append.mpr ⟨h.ids, List.nodup_singleton _, ?_⟩
      intro id hid other hother
      obtain ⟨run, hrun, rfl⟩ := List.mem_map.mp hid
      rw [List.mem_singleton.mp hother]
      exact hfresh run hrun
    · intro run hrun
      rcases List.mem_append.mp hrun with hold | hnew
      · exact h.runs run hold
      · rw [List.mem_singleton.mp hnew]
        let begun : KeyRun := { key, keys, backup, seed, stage := .checking }
        have hidle : RunSound packages s.data { begun with stage := .checking } :=
          RunSound.of_idle _ (.inr (.inr rfl))
        exact hidle
    · intro content hcontent
      obtain ⟨maker, hmaker, hpoints⟩ := h.pointed content hcontent
      exact ⟨maker, List.mem_append_left _ hmaker, hpoints⟩
  | reply index reply =>
    dsimp only [Account.step]
    cases hindex : s.runs[index]? with
    | none => exact h
    | some run =>
      have hmem := List.mem_of_getElem? hindex
      have hstep := KeyRun.step_ok hopens (h.runs run hmem) reply (haction run hindex)
      dsimp only
      generalize run.step packages s.data reply = after at hstep
      obtain ⟨hlt, hget⟩ := List.getElem?_eq_some_iff.mp hindex
      have hother : ∀ other ∈ s.runs, other ≠ run → other.key.keyId ≠ run.key.keyId := by
        intro other hotherMem hne hsame
        exact hne (List.inj_on_of_nodup_map h.ids hotherMem hmem hsame)
      have hset : ∀ other ∈ s.runs.set index after.2, other = after.2 ∨
          other ∈ s.runs ∧ other ≠ run := by
        intro other hotherMem
        obtain ⟨j, hj⟩ := List.getElem?_of_mem hotherMem
        rw [List.getElem?_set] at hj
        by_cases hij : index = j
        · rw [if_pos hij, if_pos hlt, Option.some.injEq] at hj
          exact .inl hj.symm
        · rw [if_neg hij] at hj
          refine .inr ⟨List.mem_of_getElem? hj, fun heq => hij ?_⟩
          obtain ⟨hjlt, hjget⟩ := List.getElem?_eq_some_iff.mp hj
          rw [heq, ← hget] at hjget
          have hnodup := List.Nodup.of_map _ h.ids
          exact ((List.Nodup.getElem_inj_iff hnodup).mp hjget).symm
      have hafter : after.2 ∈ s.runs.set index after.2 := List.mem_set hlt _
      refine ⟨?_, ?_, ?_⟩
      · rw [List.map_set, hstep.key]
        have hlength : index < (s.runs.map fun run => run.key.keyId).length := by
          rw [List.length_map]
          exact hlt
        have hsame := List.set_getElem_self hlength
        rw [List.getElem_map, hget] at hsame
        rw [hsame]
        exact h.ids
      · intro other hotherMem
        rcases hset other hotherMem with rfl | ⟨hold, hne⟩
        · exact hstep.sound
        · exact (h.runs other hold).preserved (hstep.others _ (hother other hold hne))
      · intro content hcontent
        have hdefault : after.2.defaultContent = run.defaultContent := by
          rw [KeyRun.defaultContent, KeyRun.defaultContent, hstep.key]
        rcases hstep.pointed with hsame | ⟨hnow, hholds⟩
        · replace hcontent := hsame.symm.trans hcontent
          obtain ⟨maker, hmaker, hpoints, hholds⟩ := h.pointed content hcontent
          by_cases hmine : maker = run
          · subst hmine
            refine ⟨after.2, hafter, hpoints.trans hdefault.symm, ?_⟩
            rw [hstep.key, hstep.keys]
            exact hstep.own hholds
          · refine ⟨maker, ?_, hpoints, hholds.preserved (hstep.others _
              (hother maker hmaker hmine))⟩
            obtain ⟨j, hj⟩ := List.getElem?_of_mem hmaker
            refine List.mem_of_getElem? (i := j) ?_
            rw [List.getElem?_set, if_neg]
            · exact hj
            · rintro rfl
              rw [hindex, Option.some.injEq] at hj
              exact hmine hj.symm
        · replace hcontent := Option.some.inj (hnow.symm.trans hcontent)
          refine ⟨after.2, hafter, hcontent.symm.trans hdefault.symm, ?_⟩
          rw [hstep.key, hstep.keys]
          exact hholds

/-- In every state of every run in which no secret is written back with less than is there: what
the default key names is described, and the three private keys of the device that has made it are
there under it. A restore imports all three private keys, as it has read them, or none. -/
theorem visible_storage_complete (packages : StoragePackages)
    (hopens : ∀ key name seed secret, packages.decrypt key name (packages.encrypt key name seed
      secret) = .ok secret) (data : AccountData) (hnone : data .defaultKey = none)
    (actions : List Action)
    (hmerges : Runs.Along (Account.step packages) MergesAll ⟨data, []⟩ actions) :
    (let s := Runs.run (Account.step packages) ⟨data, []⟩ actions
      ∀ content, s.data .defaultKey = some content → ∃ maker ∈ s.runs,
        content.text "key" = some maker.key.keyId ∧
          Holds packages s.data maker.key maker.keys) ∧
      ∀ (env : RestoreEnv) (recoveryKey : String) (own : CrossSigningKeyExport),
        (∀ keys own imported, keys.isComplete = true → env.importKeys keys own = .ok imported →
          imported = keys) →
        (restoreSecrets packages env recoveryKey own).1 = own ∨
          ∃ keys backupKey, readAll packages env recoveryKey = .ok (keys, backupKey) ∧
            keys.isComplete = true ∧ (restoreSecrets packages env recoveryKey own).1 = keys := by
  refine ⟨?_, fun env recoveryKey own himport =>
    restoreSecrets_cases packages env recoveryKey own himport⟩
  intro s content hcontent
  have hstart : AccountSound packages ⟨data, []⟩ := by
    refine ⟨List.nodup_nil, fun _ h => (by cases h), fun content hcontent => ?_⟩
    replace hcontent := hnone.symm.trans hcontent
    cases hcontent
  have hsound : AccountSound packages s :=
    Runs.run_invariant_along (AccountSound packages) (fun s action haction h => h.step hopens haction)
      actions _ hmerges hstart
  obtain ⟨maker, hmaker, rfl, hholds⟩ := hsound.pointed content hcontent
  exact ⟨maker, hmaker, rfl, hholds⟩

end Accounts

section Examples

/-- A cipher that hides nothing. -/
def plainPackages : StoragePackages where
  eventContent key := .object [("name", .string key.keyId)]
  encrypt _ _ _ secret := .string secret
  decrypt _ _ json :=
    match json with
    | .string secret => .ok secret
    | _ => .error (.protocol "not a secret")
  fromAccountData recoveryKey keyId _ := .ok { keyId := keyId, recoveryKey := recoveryKey }

def keysOf (device : String) : CrossSigningKeyExport where
  masterKey := some (device ++ " master")
  selfSigningKey := some (device ++ " self")
  userSigningKey := some (device ++ " user")

/-- The run does not write, or nothing is there yet of what it writes. -/
def isUnwritten (data : AccountData) (run : KeyRun) : Bool :=
  match run.stage with
  | .writing name _ _ _ _ => (data (.secret name)).isNone
  | _ => true

theorem mergesAll_of_isUnwritten {s : Account} {index : Nat} {reply : Reply}
    (h : s.runs[index]?.all (isUnwritten s.data) = true) : MergesAll s (.reply index reply) := by
  intro run hrun
  rintro ⟨-, name, secret, content, rest, isBackupNext, hstage, other, encrypted, -, hother, -⟩
  rw [hrun, Option.all_some, isUnwritten, hstage] at h
  rw [Option.isNone_iff_eq_none.mp h] at hother
  cases hother

theorem visible_storage_complete_alone :
    let start : Action := .start { keyId := "a", recoveryKey := "EsTa" } (keysOf "A") none 0
    let actions := start :: List.replicate 10 (.reply 0 .ok)
    let s := Runs.run (Account.step plainPackages) ⟨fun _ => none, []⟩ actions
    ∀ content, s.data .defaultKey = some content → ∃ maker ∈ s.runs,
      content.text "key" = some maker.key.keyId ∧
        Holds plainPackages s.data maker.key maker.keys := by
  intro start actions
  refine (visible_storage_complete plainPackages (fun _ _ _ _ => rfl) (fun _ => none) rfl actions
    ?_).1
  refine ⟨fun _ h => (by cases h), ?_, ?_, ?_, ?_, ?_, ?_, ?_, ?_, ?_, ?_, trivial⟩
  all_goals exact mergesAll_of_isUnwritten (by decide +kernel)

/-- Two devices read the first secret before either of them has written it. The second one writes
it back without what the first one has put there, and then the first one gets to the default key. -/
theorem visible_storage_dropped :
    let start (id device : String) : Action :=
      .start { keyId := id, recoveryKey := "EsT" ++ id } (keysOf device) none 0
    let ok (index : Nat) : Action := .reply index .ok
    let actions := [start "a" "A", start "b" "B", ok 0, ok 1, ok 0, ok 1, ok 0, ok 1, ok 0, ok 1,
      ok 0, ok 0, ok 0, ok 0, ok 0, ok 0]
    let s := Runs.run (Account.step plainPackages) ⟨fun _ => none, []⟩ actions
    ¬∀ content, s.data .defaultKey = some content → ∃ maker ∈ s.runs,
      content.text "key" = some maker.key.keyId ∧
        Holds plainPackages s.data maker.key maker.keys := by
  intro start ok actions s
  have hdefault : (s.data .defaultKey).bind (fun content => content.text "key") = some "a" := by
    decide +kernel
  have hgone : (encryptedUnder (s.data (.secret .crossSigningMasterKey)) "a").isNone = true := by
    decide +kernel
  clear_value s
  intro h
  obtain ⟨content, hcontent, hid⟩ := Option.bind_eq_some_iff.mp hdefault
  obtain ⟨maker, -, hmaker, hholds⟩ := h content hcontent
  have hkey : "a" = maker.key.keyId := Option.some.inj (hid.symm.trans hmaker)
  have hkeys := hholds.complete
  rw [CrossSigningKeyExport.isComplete, Bool.and_eq_true, Bool.and_eq_true] at hkeys
  obtain ⟨secret, hsecret⟩ := Option.isSome_iff_exists.mp hkeys.1.1
  have hmem : (SecretName.crossSigningMasterKey, secret) ∈ maker.keys.secrets := by
    rw [CrossSigningKeyExport.secrets, hsecret]
    exact List.mem_cons_self
  have hfound := hholds.secrets _ hmem
  rw [getSecret, ← hkey, Option.isNone_iff_eq_none.mp hgone] at hfound
  cases hfound

end Examples

end SecretStorage
end WbfMatrixClient
