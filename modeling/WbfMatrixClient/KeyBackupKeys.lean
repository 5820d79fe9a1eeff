import WbfMatrixClient.KeyBackupMarks

/-!
# Keys of backups

The key of a new backup is in memory only until the server has answered and the key is saved. A key
from the inbox is saved before the inbox is cleared, of all that is there by then. What is enabled is
always a key that belongs to what the server has said of the version.
-/

namespace WbfMatrixClient
namespace KeyBackup

section Keys

variable {S R : Type} {packages : BackupPackages S} {d : Device S R}

/-- The server has said something of this version that the key belongs to. -/
def IsChecked (packages : BackupPackages S) (checked : List (String × Json)) (version : String)
    (key : S) : Prop :=
  ∃ info, (version, info) ∈ checked ∧ packages.backupKeyMatches key info = true

/-- The key that the operation works with has been checked. -/
def StageChecked (packages : BackupPackages S) (d : Device S R) : Prop :=
  match d.stage with
  | .readingKey version info => (version, info) ∈ d.checked
  | .saving key version _ => IsChecked packages d.checked version key
  | .enabling key version _ => IsChecked packages d.checked version key
  | _ => True

structure Matched (packages : BackupPackages S) (d : Device S R) : Prop where
  enabled : ∀ version key, d.enabled = some (version, key) →
    IsChecked packages d.checked version key
  saved : ∀ version key, d.savedVersion = some version → d.savedKey = some key →
    IsChecked packages d.checked version key
  stage : StageChecked packages d

theorem IsChecked.cons {checked : List (String × Json)} {version : String} {key : S}
    (h : IsChecked packages checked version key) (p : String × Json) :
    IsChecked packages (p :: checked) version key := by
  obtain ⟨info, hmem, hkey⟩ := h
  exact ⟨info, List.mem_cons_of_mem _ hmem, hkey⟩

/-- What the server says is noted, and nothing else. -/
theorem seeLatest_of_some {backup : Backup S} (h : d.latest = some backup) :
    d.seeLatest = { d with checked := (backup.version, backup.info) :: d.checked } := by
  rw [Device.seeLatest, h]

section

variable (h : Matched packages d)

include h

theorem Matched.moved {d' : Device S R} (hstage : StageChecked packages d')
    (henabled : d'.enabled = d.enabled) (hversion : d'.savedVersion = d.savedVersion)
    (hkey : d'.savedKey = d.savedKey) (hchecked : d'.checked = d.checked) :
    Matched packages d' := by
  refine ⟨?_, ?_, hstage⟩
  · rw [henabled, hchecked]
    exact h.enabled
  · rw [hversion, hkey, hchecked]
    exact h.saved

/-- The operation moves on, after the server has said something. -/
theorem Matched.noted {stage : Stage S R} {p : String × Json} {latest : Option (Backup S)}
    (hstage : StageChecked packages { d with stage := stage, checked := p :: d.checked, latest :=
      latest }) :
    Matched packages { d with stage := stage, checked := p :: d.checked, latest := latest } :=
  ⟨fun version key henabled => (h.enabled version key henabled).cons p,
    fun version key hversion hkey => (h.saved version key hversion hkey).cons p, hstage⟩

theorem Matched.onReply (reply : Reply R) {next : Device.Step S R}
    (hnext : Matched packages next.1) : Matched packages (d.onReply reply next).1 := by
  cases reply with
  | ok version rooms => exact hnext
  | refused error | lost version error => exact h.moved trivial rfl rfl rfl rfl

theorem Matched.begin {stage : Stage S R}
    (hstage : StageChecked packages { d with stage := stage }) :
    Matched packages (d.begin stage).1 := by
  unfold Device.begin
  cases d.stage with
  | idle => exact h.moved hstage rfl rfl rfl rfl
  | _ => exact h

end

variable [DecidableEq R]

section

variable (hown : ∀ key, packages.backupKeyMatches key (packages.toBackupInfo key) = true)

include hown

theorem Matched.proceed (h : Matched packages d) (reply : Reply R) :
    Matched packages (d.proceed packages reply).1 := by
  have hstage' := h.stage
  unfold StageChecked at hstage'
  unfold Device.proceed
  generalize d.stage = stage at hstage' ⊢
  cases stage with
  | idle => exact h
  | checkingLatest createIfMissing fresh =>
    refine .onReply h reply ?_
    cases hlatest : d.latest with
    | some backup =>
      dsimp only
      rw [seeLatest_of_some hlatest]
      exact h.noted List.mem_cons_self
    | none =>
      dsimp only
      split <;> exact h.moved trivial rfl rfl rfl rfl
  | readingKey version info =>
    refine .onReply h reply ?_
    cases hsaved : d.savedKey with
    | none => exact h.moved trivial rfl rfl rfl rfl
    | some key =>
      dsimp only
      split
      · rename_i hkey
        exact h.moved ⟨info, hstage', hkey⟩ rfl rfl rfl rfl
      · exact h.moved trivial rfl rfl rfl rfl
  | disabling setup =>
    dsimp only
    cases henabled : d.enabled with
    | none => exact h.moved trivial rfl rfl rfl rfl
    | some p =>
      cases reply with
      | ok _ _ | lost _ _ => exact ⟨fun _ _ hnone => (by cases hnone), h.saved, trivial⟩
      | refused _ => exact ⟨fun _ _ hnone => (by cases hnone), h.saved, trivial⟩
  | signing key => exact .onReply h reply (h.moved trivial rfl rfl rfl rfl)
  | creating key =>
    cases reply with
    | ok version rooms => exact h.noted ⟨_, List.mem_cons_self, hown key⟩
    | lost version error | refused error => exact h.moved trivial rfl rfl rfl rfl
  | checkingRestored key =>
    refine .onReply h reply ?_
    cases hlatest : d.latest with
    | none => exact h.moved trivial rfl rfl rfl rfl
    | some backup =>
      dsimp only
      rw [seeLatest_of_some hlatest]
      split
      · rename_i hkey
        exact h.noted ⟨backup.info, List.mem_cons_self, hkey⟩
      · exact h.noted trivial
  | readingInbox | collecting batches =>
    refine .onReply h reply ?_
    split <;> exact h.moved trivial rfl rfl rfl rfl
  | checkingInbox secrets =>
    refine .onReply h reply ?_
    cases hlatest : d.latest with
    | none => exact h.moved trivial rfl rfl rfl rfl
    | some backup =>
      dsimp only
      rw [seeLatest_of_some hlatest]
      split
      · rename_i key hmatching
        obtain ⟨secret, -, hsecret⟩ := List.exists_of_findSome?_eq_some hmatching
        have hkey := (Option.filter_eq_some_iff.mp hsecret).2
        exact h.noted ⟨backup.info, List.mem_cons_self, hkey⟩
      · exact h.noted trivial
  | saving key version after =>
    have hsaved : ∀ other found, some version = some other → some key = some found →
        IsChecked packages d.checked other found := by
      intro other found hother hfound
      cases hother
      cases hfound
      exact hstage'
    cases reply with
    | ok _ _ => exact ⟨h.enabled, hsaved, hstage'⟩
    | lost _ _ => exact ⟨h.enabled, hsaved, trivial⟩
    | refused _ => exact h.moved trivial rfl rfl rfl rfl
  | enabling key version after =>
    refine .onReply h reply ?_
    have henabled : ∀ other found, some (version, key) = some (other, found) →
        IsChecked packages d.checked other found := by
      intro other found hpair
      cases hpair
      exact hstage'
    cases after <;> exact ⟨henabled, h.saved, trivial⟩
  | clearingInbox secrets info matching version =>
    cases reply with
    | ok _ _ =>
      cases matching <;> exact h.moved trivial rfl rfl rfl rfl
    | lost _ _ | refused _ => exact h.moved trivial rfl rfl rfl rfl
  | downloading version isAdopted | importing version rooms isAdopted =>
    cases reply <;> exact h.moved trivial rfl rfl rfl rfl
  | sendingKeys version rooms batches =>
    cases reply <;> exact h.moved trivial rfl rfl rfl rfl
  | marking version rooms batches =>
    cases reply with
    | ok _ _ =>
      dsimp only
      split <;> exact h.moved trivial rfl rfl rfl rfl
    | lost _ _ | refused _ => exact h.moved trivial rfl rfl rfl rfl

theorem Matched.step (h : Matched packages d) (action : Action S R) :
    Matched packages (d.step packages action) := by
  cases action with
  | ensureBackup createIfMissing fresh | restoreRoomKeys key => exact h.begin trivial
  | adoptBackupKeyFromInbox | uploadRoomKeys => exact h.begin trivial
  | reply reply => exact h.proceed hown reply
  | importNew rooms | receiveSecret secret | others latest => exact h.moved h.stage rfl rfl rfl rfl
  | restart =>
    refine ⟨fun version key hpair => ?_, h.saved, trivial⟩
    obtain ⟨saved, hsaved, hmap⟩ := Option.bind_eq_some_iff.mp hpair
    obtain ⟨found, hfound, heq⟩ := Option.map_eq_some_iff.mp hmap
    cases heq
    exact h.saved version key hfound hsaved

end

end Keys

section Held

variable {S R : Type} {packages : BackupPackages S} {d : Device S R}

/-- A version that was just made is still the latest one, and its key is not saved. -/
def IsUnsaved (d : Device S R) : Prop :=
  ∃ key version made backup, d.stage = .saving key version (.ensured (.created made)) ∧
    d.latest = some backup ∧ backup.maker = some key

/-- The key that is being saved takes the place of the one that this device has made the latest
version with. -/
def SavesOver (d : Device S R) : Prop :=
  ∃ key version after backup maker, d.stage = .saving key version after ∧
    d.latest = some backup ∧ backup.maker = some maker ∧ maker ≠ key

/-- Something in the inbox belongs to the latest version, and it either was not read before or did
not belong to what the server said then. -/
def ClearsUnread (packages : BackupPackages S) (d : Device S R) : Prop :=
  ∃ secrets info matching version, d.stage = .clearingInbox secrets info matching version ∧
    ∃ secret ∈ d.inbox, ∃ key backup, packages.fromBase64 secret = some key ∧
      d.latest = some backup ∧ packages.backupKeyMatches key backup.info = true ∧
        ¬(secret ∈ secrets ∧ packages.backupKeyMatches key info = true)

/-- The reply to the creation of a version arrives and its key is saved at once; no other key is
saved over the one of the latest version; the inbox is cleared of what was read; and other devices
do not bring back a version whose key is not here any more. -/
def KeepsKeys (packages : BackupPackages S) (d : Device S R) : Action S R → Prop
  | .reply (.ok _ _) => ¬SavesOver d ∧ ¬ClearsUnread packages d
  | .reply (.lost _ _) =>
      (∀ key, d.stage ≠ .creating key) ∧ ¬SavesOver d ∧ ¬ClearsUnread packages d
  | .reply (.refused _) => ¬IsUnsaved d
  | .restart => ¬IsUnsaved d
  | .others (some backup) => ∀ key, backup.maker = some key →
      d.savedKey = some key ∧ packages.backupKeyMatches key backup.info = true
  | _ => True

/-- The latest version was made by this device, with this key. -/
def IsOwn (d : Device S R) (key : S) (info : Json) : Prop :=
  ∃ backup, d.latest = some backup ∧ backup.maker = some key ∧ backup.info = info

/-- The operation is about to save this key of a version that it has made. -/
def IsSaving (d : Device S R) (key : S) : Prop :=
  ∃ version made, d.stage = .saving key version (.ensured (.created made))

/-- What is known of the keys in an adoption. -/
def StageAdopts (packages : BackupPackages S) (d : Device S R) : Prop :=
  match d.stage with
  | .saving key _ (.adopting _ info) => packages.backupKeyMatches key info = true
  | .enabling key _ (.adopting _ info) =>
      d.savedKey = some key ∧ packages.backupKeyMatches key info = true
  | .clearingInbox _ info (some key) _ =>
      d.savedKey = some key ∧ packages.backupKeyMatches key info = true
  | .clearingInbox secrets info none _ => ∀ secret ∈ secrets, ∀ key,
      packages.fromBase64 secret = some key → packages.backupKeyMatches key info = false
  | _ => True

structure Held (packages : BackupPackages S) (d : Device S R) : Prop where
  matched : ∀ key info, IsOwn d key info → packages.backupKeyMatches key info = true
  own : ∀ key info, IsOwn d key info → d.savedKey = some key ∨ IsSaving d key
  stage : StageAdopts packages d

/-- Where nothing is being saved, the key of the latest version is saved. -/
theorem Held.saved (h : Held packages d) (hunsaved : ¬IsUnsaved d) {key : S} {info : Json}
    (hown : IsOwn d key info) : d.savedKey = some key := by
  rcases h.own key info hown with hsaved | ⟨version, made, hstage⟩
  · exact hsaved
  · obtain ⟨backup, hlatest, hmaker, -⟩ := hown
    exact absurd ⟨key, version, made, backup, hstage, hlatest, hmaker⟩ hunsaved

theorem not_isUnsaved_of_stage
    (h : ∀ key version made, d.stage ≠ .saving key version (.ensured (.created made))) :
    ¬IsUnsaved d := by
  rintro ⟨key, version, made, backup, hstage, -⟩
  exact h key version made hstage

/-- The operation moves on, and neither the latest version nor the saved key changes. -/
theorem Held.moved {d' : Device S R} (h : Held packages d) (hunsaved : ¬IsUnsaved d)
    (hstage : StageAdopts packages d') (hlatest : d'.latest = d.latest)
    (hkey : d'.savedKey = d.savedKey) : Held packages d' := by
  have hback : ∀ {key : S} {info : Json}, IsOwn d' key info → IsOwn d key info := by
    rintro key info ⟨backup, hfound, hmaker, hinfo⟩
    exact ⟨backup, hlatest ▸ hfound, hmaker, hinfo⟩
  refine ⟨fun key info hown => h.matched key info (hback hown), fun key info hown => .inl ?_, hstage⟩
  rw [hkey]
  exact h.saved hunsaved (hback hown)

theorem Held.of_saved {d' : Device S R} {key : S} {version : String} {after : After}
    (h : Held packages d) (hsaving : d.stage = .saving key version after) (hover : ¬SavesOver d)
    (hstage : StageAdopts packages d') (hlatest : d'.latest = d.latest)
    (hkey : d'.savedKey = some key) : Held packages d' := by
  refine ⟨?_, ?_, hstage⟩
  · rintro maker info ⟨backup, hfound, hmaker, hinfo⟩
    exact h.matched maker info ⟨backup, hlatest ▸ hfound, hmaker, hinfo⟩
  · rintro maker info ⟨backup, hfound, hmaker, -⟩
    refine .inl (hkey.trans (congrArg some ?_))
    by_contra hne
    exact hover ⟨key, version, after, backup, maker, hsaving, hlatest ▸ hfound, hmaker, Ne.symm hne⟩

theorem seeLatest_held (d : Device S R) :
    d.seeLatest.latest = d.latest ∧ d.seeLatest.savedKey = d.savedKey := by
  unfold Device.seeLatest
  cases hlatest : d.latest with
  | none => exact ⟨hlatest, rfl⟩
  | some backup => exact ⟨rfl, rfl⟩

theorem seeLatest_inbox (d : Device S R) : d.seeLatest.inbox = d.inbox := by
  unfold Device.seeLatest
  cases d.latest <;> rfl

theorem onReply_inbox (reply : Reply R) {next : Device.Step S R} (hnext : next.1.inbox = d.inbox) :
    (d.onReply reply next).1.inbox = d.inbox := by
  cases reply with
  | ok version rooms => exact hnext
  | refused error | lost version error => rfl

theorem begin_inbox (d : Device S R) (stage : Stage S R) : (d.begin stage).1.inbox = d.inbox := by
  unfold Device.begin
  cases d.stage <;> rfl

theorem Held.onReply (h : Held packages d) (hunsaved : ¬IsUnsaved d) (reply : Reply R)
    {next : Device.Step S R} (hnext : Held packages next.1) :
    Held packages (d.onReply reply next).1 := by
  cases reply with
  | ok version rooms => exact hnext
  | refused error | lost version error => exact h.moved hunsaved trivial rfl rfl

theorem Held.begin (h : Held packages d) {stage : Stage S R}
    (hstage : StageAdopts packages { d with stage := stage }) :
    Held packages (d.begin stage).1 := by
  unfold Device.begin
  cases hidle : d.stage with
  | idle =>
    have hunsaved : ¬IsUnsaved d := by
      refine not_isUnsaved_of_stage fun key version made hsaving => ?_
      rw [hidle] at hsaving
      cases hsaving
    exact h.moved hunsaved hstage rfl rfl
  | _ => exact h

variable [DecidableEq R]

section

variable (hown : ∀ key, packages.backupKeyMatches key (packages.toBackupInfo key) = true)

include hown

theorem Held.proceed (h : Held packages d) {reply : Reply R}
    (hkeeps : KeepsKeys packages d (.reply reply)) :
    Held packages (d.proceed packages reply).1 := by
  have hstage' := h.stage
  unfold StageAdopts at hstage'
  have hnot : (∀ key version made, d.stage ≠ .saving key version (.ensured (.created made))) →
      ¬IsUnsaved d := not_isUnsaved_of_stage
  unfold Device.proceed
  generalize hstage : d.stage = stage at hstage' hnot ⊢
  cases stage with
  | idle => exact h
  | checkingLatest createIfMissing fresh =>
    refine .onReply h (hnot (by simp)) reply ?_
    obtain ⟨hlatest, hkey⟩ := seeLatest_held d
    cases d.latest with
    | some backup => exact h.moved (hnot (by simp)) trivial hlatest hkey
    | none =>
      dsimp only
      split <;> exact h.moved (hnot (by simp)) trivial rfl rfl
  | readingKey version info =>
    refine .onReply h (hnot (by simp)) reply ?_
    split
    · split <;> exact h.moved (hnot (by simp)) trivial rfl rfl
    · exact h.moved (hnot (by simp)) trivial rfl rfl
  | disabling setup =>
    dsimp only
    split <;> exact h.moved (hnot (by simp)) trivial rfl rfl
  | signing key =>
    exact .onReply h (hnot (by simp)) reply (h.moved (hnot (by simp)) trivial rfl rfl)
  | creating key =>
    cases reply with
    | refused error => exact h.moved (hnot (by simp)) trivial rfl rfl
    | lost version error => exact absurd hstage (hkeeps.1 key)
    | ok version rooms =>
      refine ⟨?_, ?_, trivial⟩
      · rintro maker info ⟨backup, hfound, hmaker, hinfo⟩
        cases hfound
        cases hmaker
        rw [← hinfo]
        exact hown key
      · rintro maker info ⟨backup, hfound, hmaker, -⟩
        cases hfound
        cases hmaker
        exact .inr ⟨version, version, rfl⟩
  | checkingRestored key =>
    refine .onReply h (hnot (by simp)) reply ?_
    obtain ⟨hlatest, hkey⟩ := seeLatest_held d
    cases d.latest with
    | none => exact h.moved (hnot (by simp)) trivial rfl rfl
    | some backup =>
      dsimp only
      split <;> exact h.moved (hnot (by simp)) trivial hlatest hkey
  | readingInbox | collecting batches =>
    refine .onReply h (hnot (by simp)) reply ?_
    split <;> exact h.moved (hnot (by simp)) trivial rfl rfl
  | checkingInbox secrets =>
    refine .onReply h (hnot (by simp)) reply ?_
    obtain ⟨hlatest, hkey⟩ := seeLatest_held d
    cases d.latest with
    | none => exact h.moved (hnot (by simp)) trivial rfl rfl
    | some backup =>
      dsimp only
      split
      · rename_i key hmatching
        obtain ⟨secret, -, hsecret⟩ := List.exists_of_findSome?_eq_some hmatching
        exact h.moved (hnot (by simp)) (Option.filter_eq_some_iff.mp hsecret).2 hlatest hkey
      · rename_i hmatching
        refine h.moved (hnot (by simp)) ?_ hlatest hkey
        intro secret hsecret key hkey
        have hnone := List.findSome?_eq_none_iff.mp hmatching secret hsecret
        rw [hkey, Option.filter_some] at hnone
        by_contra hmatches
        rw [if_pos (Bool.not_eq_false _ ▸ hmatches)] at hnone
        cases hnone
  | saving key version after =>
    cases reply with
    | refused error => exact h.moved hkeeps trivial rfl rfl
    | lost other error => exact .of_saved h hstage hkeeps.2.1 trivial rfl rfl
    | ok other rooms =>
      refine .of_saved h hstage hkeeps.1 ?_ rfl rfl
      cases after with
      | ensured setup | restoring => trivial
      | adopting secrets info => exact ⟨rfl, hstage'⟩
  | enabling key version after =>
    refine .onReply h (hnot (by simp)) reply ?_
    cases after with
    | ensured setup | restoring => exact h.moved (hnot (by simp)) trivial rfl rfl
    | adopting secrets info => exact h.moved (hnot (by simp)) hstage' rfl rfl
  | clearingInbox secrets info matching version =>
    cases reply with
    | ok _ _ =>
      cases matching <;> exact h.moved (hnot (by simp)) trivial rfl rfl
    | lost _ _ | refused _ => exact h.moved (hnot (by simp)) trivial rfl rfl
  | downloading version isAdopted | importing version rooms isAdopted =>
    cases reply <;> exact h.moved (hnot (by simp)) trivial rfl rfl
  | sendingKeys version rooms batches =>
    cases reply <;> exact h.moved (hnot (by simp)) trivial rfl rfl
  | marking version rooms batches =>
    cases reply with
    | ok _ _ =>
      dsimp only
      split <;> exact h.moved (hnot (by simp)) trivial rfl rfl
    | lost _ _ | refused _ => exact h.moved (hnot (by simp)) trivial rfl rfl

theorem Held.step (h : Held packages d) {action : Action S R}
    (hkeeps : KeepsKeys packages d action) : Held packages (d.step packages action) := by
  cases action with
  | ensureBackup createIfMissing fresh | restoreRoomKeys key => exact h.begin trivial
  | adoptBackupKeyFromInbox | uploadRoomKeys => exact h.begin trivial
  | reply reply => exact h.proceed hown hkeeps
  | importNew rooms | receiveSecret secret => exact ⟨h.matched, h.own, h.stage⟩
  | restart => exact h.moved hkeeps trivial rfl rfl
  | others latest =>
    refine ⟨?_, ?_, h.stage⟩
    · rintro key info ⟨backup, hlatest, hmaker, hinfo⟩
      cases hlatest
      exact hinfo ▸ (hkeeps key hmaker).2
    · rintro key info ⟨backup, hlatest, hmaker, -⟩
      cases hlatest
      exact .inl (hkeeps key hmaker).1

end

/-- Only the clearing takes something from the inbox. -/
theorem clearing_of_inbox {action : Action S R} {secret : String} (hin : secret ∈ d.inbox)
    (hout : secret ∉ (d.step packages action).inbox) :
    ∃ secrets info matching version, d.stage = .clearingInbox secrets info matching version ∧
      ((∃ version rooms, action = .reply (.ok version rooms)) ∨
        ∃ version error, action = .reply (.lost version error)) := by
  have hsame : (d.step packages action).inbox ≠ d.inbox := fun hsame => hout (hsame ▸ hin)
  unfold Device.step at hsame hout
  cases action with
  | ensureBackup createIfMissing fresh | restoreRoomKeys key => exact absurd (begin_inbox d _) hsame
  | adoptBackupKeyFromInbox | uploadRoomKeys => exact absurd (begin_inbox d _) hsame
  | importNew rooms | others latest | restart => exact absurd rfl hsame
  | receiveSecret other => exact absurd (List.mem_append_left _ hin) hout
  | reply reply =>
    unfold Device.act Device.proceed at hsame
    cases hstage : d.stage with
    | clearingInbox secrets info matching version =>
      refine ⟨secrets, info, matching, version, rfl, ?_⟩
      cases reply with
      | ok version rooms => exact .inl ⟨version, rooms, rfl⟩
      | lost version error => exact .inr ⟨version, error, rfl⟩
      | refused error =>
        rw [hstage] at hsame
        exact absurd rfl hsame
    | _ =>
      exfalso
      rw [hstage] at hsame
      refine hsame ?_
      dsimp only
      try refine onReply_inbox reply ?_
      repeat' split
      all_goals first | rfl | exact seeLatest_inbox d

/-- What is enabled is always a key that belongs to what the server has said of its version. If no
reply to the creation of a version is lost, and the other conditions hold, then the key of a latest
version that this device has made is saved, and a key that belongs to the latest version is taken from
the inbox only after it was saved. -/
theorem backup_key_kept (packages : BackupPackages S)
    (hown : ∀ key, packages.backupKeyMatches key (packages.toBackupInfo key) = true)
    (hunique : ∀ key other info, packages.backupKeyMatches key info = true →
      packages.backupKeyMatches other info = true → key = other) (latest : Option (String × Json))
    (actions : List (Action S R)) :
    let first := latest.map fun (version, info) => { version, info, maker := none }
    let d := Runs.run (Device.step packages) (.start first) actions
    (∀ version key, d.enabled = some (version, key) →
        IsChecked packages d.checked version key) ∧
      (Runs.Along (Device.step packages) (KeepsKeys packages) (.start first) actions →
        (d.stage = .idle → ∀ key info, IsOwn d key info →
          d.savedKey = some key ∧ packages.backupKeyMatches key info = true) ∧
        ∀ action, KeepsKeys packages d action → ∀ secret ∈ d.inbox,
          secret ∉ (d.step packages action).inbox → ∀ key backup,
            packages.fromBase64 secret = some key → d.latest = some backup →
              packages.backupKeyMatches key backup.info = true → d.savedKey = some key) := by
  intro first d
  have hmatched : Matched packages d := by
    refine Runs.run_invariant (Matched packages) (fun _ action h => h.step hown action) actions _ ?_
    exact ⟨fun _ _ h => (by cases h), fun _ _ h => (by cases h), trivial⟩
  refine ⟨hmatched.enabled, fun hkeeps => ?_⟩
  have hnone : ∀ key info, ¬IsOwn (.start first : Device S R) key info := by
    rintro key info ⟨backup, hfirst, hmaker, -⟩
    obtain ⟨p, -, rfl⟩ := Option.map_eq_some_iff.mp hfirst
    cases hmaker
  have hheld : Held packages d := by
    refine Runs.run_invariant_along (Held packages) (fun _ _ hcond h => h.step hown hcond) actions _
      hkeeps ?_
    exact ⟨fun key info h => absurd h (hnone key info), fun key info h => absurd h (hnone key info),
      trivial⟩
  refine ⟨fun hidle key info hkey => ⟨hheld.saved ?_ hkey, hheld.matched key info hkey⟩, ?_⟩
  · refine not_isUnsaved_of_stage fun key version made hsaving => ?_
    rw [hidle] at hsaving
    cases hsaving
  · intro action haction secret hin hout key backup hsecret hlatest hkey
    obtain ⟨secrets, info, matching, version, hstage, hreply⟩ := clearing_of_inbox hin hout
    have hread : ¬ClearsUnread packages d := by
      rcases hreply with ⟨_, _, rfl⟩ | ⟨_, _, rfl⟩
      · exact haction.2
      · exact haction.2.2
    have hknown : secret ∈ secrets ∧ packages.backupKeyMatches key info = true := by
      by_contra hunread
      exact hread ⟨secrets, info, matching, version, hstage, secret, hin, key, backup, hsecret,
        hlatest, hkey, hunread⟩
    have hadopts := hheld.stage
    rw [StageAdopts, hstage] at hadopts
    cases matching with
    | some found => exact hunique key found info hknown.2 hadopts.2 ▸ hadopts.1
    | none =>
        have hno := hadopts secret hknown.1 key hsecret
        rw [hknown.2] at hno
        cases hno

end Held

section Examples

/-- The key that is being saved, if there is one, is the one of the latest version. -/
def savesOwn (d : Device String String) : Bool :=
  match d.stage with
  | .saving key _ _ => d.latest.all fun backup => backup.maker.all fun maker => maker == key
  | .clearingInbox _ _ _ _ => false
  | _ => true

theorem keepsKeys_of_savesOwn {d : Device String String} {version : String} {rooms : List String}
    (h : savesOwn d = true) : KeepsKeys plainBackups d (.reply (.ok version rooms)) := by
  unfold savesOwn at h
  refine ⟨?_, ?_⟩
  · rintro ⟨key, other, after, backup, maker, hstage, hlatest, hmaker, hne⟩
    rw [hstage, hlatest] at h
    have hall : backup.maker.all (fun maker => maker == key) = true := h
    rw [hmaker] at hall
    exact hne (beq_iff_eq.mp hall)
  · rintro ⟨secrets, info, matching, other, hstage, -⟩
    rw [hstage] at h
    cases h

theorem plainBackups_unique (key other : String) (info : Json)
    (hkey : plainBackups.backupKeyMatches key info = true)
    (hother : plainBackups.backupKeyMatches other info = true) :
    key = other := Option.some.inj ((beq_iff_eq.mp hkey).symm.trans (beq_iff_eq.mp hother))

theorem backup_key_kept_made :
    let d := Runs.run (Device.step plainBackups) (.start none)
      [.ensureBackup true "key", answered, answered, .reply (.ok "1" []), answered, answered]
    d.savedKey = some "key" := by
  have hkept := (backup_key_kept plainBackups (fun key => beq_self_eq_true (some key))
    plainBackups_unique none
    [.ensureBackup true "key", answered, answered, .reply (.ok "1" []), answered,
      (answered : Action String String)]).2
    ⟨trivial, keepsKeys_of_savesOwn rfl, keepsKeys_of_savesOwn rfl, keepsKeys_of_savesOwn rfl,
      keepsKeys_of_savesOwn rfl, keepsKeys_of_savesOwn rfl, trivial⟩
  exact (hkept.1 rfl "key" (.string "key") ⟨_, rfl, rfl, rfl⟩).1

/-- The server makes the version, and its reply is lost: nobody has the key of the latest version. -/
theorem backup_key_dropped :
    let d := Runs.run (Device.step plainBackups) (.start none)
      [.ensureBackup true "key", answered, answered,
        (.reply (.lost "1" (.network "the connection is closed")) : Action String String)]
    ¬(d.stage = .idle → ∀ key info, IsOwn d key info →
      d.savedKey = some key ∧ plainBackups.backupKeyMatches key info = true) := by
  intro d h
  cases (h rfl "key" (.string "key") ⟨_, rfl, rfl, rfl⟩).1

end Examples

end KeyBackup
end WbfMatrixClient
