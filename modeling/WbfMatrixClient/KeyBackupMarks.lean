import WbfMatrixClient.KeyBackup

/-!
# Marks of room keys

A mark on a room key says that it is in a backup, and not in which version. What the marks say is
right about the version that is uploaded to, as long as no operation that switches the version ends
while a key is marked that is not in the new one.
-/

namespace WbfMatrixClient
namespace KeyBackup

section Marks

variable {S R : Type} {packages : BackupPackages S} {d : Device S R}

/-- An operation has switched the version and has still to fetch what is there. -/
def Stage.isSwitching : Stage S R → Bool
  | .clearingInbox _ _ (some _) _ => true
  | .downloading _ _ => true
  | .importing _ _ _ => true
  | _ => false

/-- The action is the last one of an operation that has switched to this version. -/
def EndsSwitch (d : Device S R) : Action S R → (version : String) → Prop
  | .reply (.ok _ _), version =>
      (∃ key setup, d.stage = .enabling key version (.ensured setup)) ∨
        ∃ rooms isAdopted, d.stage = .importing version rooms isAdopted
  | .reply _, version =>
      (∃ secrets info key, d.stage = .clearingInbox secrets info (some key) version) ∨
        (∃ isAdopted, d.stage = .downloading version isAdopted) ∨
          ∃ rooms isAdopted, d.stage = .importing version rooms isAdopted
  | .restart, version => d.savedKey.isSome = true ∧ d.savedVersion = some version
  | _, _ => False

/-- The action imports this room key. -/
def Imports (d : Device S R) : Action S R → R → Prop
  | .reply (.refused _), _ => False
  | .reply _, room => ∃ version rooms isAdopted,
      d.stage = .importing version rooms isAdopted ∧ room ∈ rooms
  | _, _ => False

/-- If a switch is over now, then every key with a mark is in the new version: it was uploaded there,
was imported from there, or comes in right now. -/
def SwitchesMarked (d : Device S R) (action : Action S R) : Prop :=
  ∀ version, EndsSwitch d action version → ∀ room, (room, true) ∈ d.sessions →
    (version, room) ∈ d.kept ∨ Imports d action room

/-- The version that the operation works with is the one that is uploaded to. -/
def Attached (d : Device S R) : Prop :=
  match d.stage with
  | .clearingInbox _ _ (some _) version => d.enabled.map Prod.fst = some version
  | .downloading version _ => d.enabled.map Prod.fst = some version
  | .importing version _ _ => d.enabled.map Prod.fst = some version
  | .sendingKeys version _ _ => d.enabled.map Prod.fst = some version
  | .marking version rooms _ =>
      d.enabled.map Prod.fst = some version ∧ ∀ room ∈ rooms, (version, room) ∈ d.kept
  | _ => True

/-- Every key with a mark is in the version that is uploaded to. -/
def MarksKept (d : Device S R) : Prop :=
  ∀ version, d.enabled.map Prod.fst = some version → ∀ room, (room, true) ∈ d.sessions →
    (version, room) ∈ d.kept

/-- Between two switches the marks are right. -/
structure Backed (d : Device S R) : Prop where
  attached : Attached d
  marks : d.stage.isSwitching = false → MarksKept d

theorem mem_sessions_mark (isNew : R → Bool) {sessions : List (R × Bool)} {room : R}
    (h : (room, true) ∈ sessions.map fun (room, isMarked) => (room, isMarked || isNew room)) :
    (room, true) ∈ sessions ∨ isNew room = true := by
  obtain ⟨⟨other, isMarked⟩, hmem, heq⟩ := List.mem_map.mp h
  obtain ⟨rfl, hmarked⟩ := Prod.mk.inj heq
  rcases Bool.or_eq_true_iff.mp hmarked with hold | hnew
  · exact .inl (hold ▸ hmem)
  · exact .inr hnew

variable {d' : Device S R}

theorem MarksKept.mono (h : MarksKept d)
    (henabled : ∀ version, d'.enabled.map Prod.fst = some version → d.enabled.map Prod.fst = some
      version) (hsessions : ∀ room, (room, true) ∈ d'.sessions → (room, true) ∈ d.sessions)
    (hkept : ∀ p ∈ d.kept, p ∈ d'.kept) :
    MarksKept d' :=
  fun version hversion room hroom =>
    hkept _ (h version (henabled version hversion) room (hsessions room hroom))

/-- The operation moves on, and nothing but its stage and what the server has said changes. -/
theorem Backed.moved (hmarks : MarksKept d) (hattached : Attached d')
    (henabled : d'.enabled = d.enabled) (hsessions : d'.sessions = d.sessions)
    (hkept : d'.kept = d.kept) : Backed d' := by
  refine ⟨hattached, fun _ => hmarks.mono ?_ ?_ ?_⟩
  · rw [henabled]
    exact fun _ h => h
  · rw [hsessions]
    exact fun _ h => h
  · rw [hkept]
    exact fun _ h => h

theorem seeLatest_fields (d : Device S R) :
    d.seeLatest.enabled = d.enabled ∧ d.seeLatest.sessions = d.sessions ∧
      d.seeLatest.kept = d.kept := by
  unfold Device.seeLatest
  cases d.latest <;> exact ⟨rfl, rfl, rfl⟩

/-- A step that has no effect but its reply: it moves on, or the operation ends. -/
theorem Backed.onReply (hmarks : MarksKept d) (reply : Reply R) {next : Device.Step S R}
    (hnext : Backed next.1) : Backed (d.onReply reply next).1 := by
  cases reply with
  | ok version rooms => exact hnext
  | refused error | lost version error => exact .moved hmarks trivial rfl rfl rfl

theorem Backed.begin (h : Backed d) {stage : Stage S R}
    (hattached : Attached { d with stage := stage }) : Backed (d.begin stage).1 := by
  unfold Device.begin
  cases hstage : d.stage with
  | idle =>
    have hmarks := h.marks (by rw [hstage]; rfl)
    exact .moved hmarks hattached rfl rfl rfl
  | _ => exact h

/-- The last step of a switch leaves the marks right. -/
theorem marksKept_of_switch {action : Action S R} {version : String}
    (hswitch : SwitchesMarked d action) (hends : EndsSwitch d action version)
    (hno : ∀ room, ¬Imports d action room) (henabled : d'.enabled.map Prod.fst = some version)
    (hsessions : d'.sessions = d.sessions) (hkept : d'.kept = d.kept) : MarksKept d' := by
  intro other hother room hroom
  rw [henabled] at hother
  cases hother
  rw [hsessions] at hroom
  rw [hkept]
  exact (hswitch version hends room hroom).resolve_right (hno room)

theorem mem_unmarked_nil {room : R} (h : d.unmarked = []) : (room, false) ∉ d.sessions := by
  intro hmem
  have hnone : (d.sessions.filter fun session => !session.2).map Prod.fst = [] :=
    (List.take_eq_nil_iff.mp h).resolve_left (by decide)
  have hfilter := List.map_eq_nil_iff.mp hnone
  have hmem' : (room, false) ∈ d.sessions.filter fun session => !session.2 :=
    List.mem_filter.mpr ⟨hmem, rfl⟩
  rw [hfilter] at hmem'
  cases hmem'

theorem begin_returns (d : Device S R) (stage : Stage S R) : (d.begin stage).2 = none := by
  unfold Device.begin
  cases d.stage <;> rfl

theorem onReply_returns {reply : Reply R} {next : Device.Step S R} {result : Result R}
    (h : (d.onReply reply next).2 = some (.ok result)) :
    d.onReply reply next = next ∧ next.2 = some (.ok result) := by
  cases reply with
  | ok version rooms => exact ⟨rfl, h⟩
  | refused error | lost version error => cases h

variable [DecidableEq R]

/-- Room keys that come in with a mark are in the version they come from. -/
theorem marksKept_importKept {version : String} {rooms better : List R}
    (henabled : d.enabled.map Prod.fst = some version)
    (hmarks : ∀ room, (room, true) ∈ d.sessions → (version, room) ∈ d.kept ∨ room ∈ rooms) :
    MarksKept (d.importKept version rooms better) := by
  intro other hother room hroom
  have hversion : version = other := Option.some.inj (henabled.symm.trans hother)
  subst hversion
  have hcase : (version, room) ∈ d.kept ∨ room ∈ rooms := by
    rcases List.mem_append.mp hroom with hold | hnew
    · rcases mem_sessions_mark (fun room => decide (room ∈ rooms ∧ room ∈ better)) hold with hmarked | hbetter
      · exact hmarks room hmarked
      · exact .inr (of_decide_eq_true hbetter).1
    · obtain ⟨other, hmem, heq⟩ := List.mem_map.mp hnew
      cases heq
      exact .inr (List.mem_filter.mp hmem).1
  rcases hcase with hkept | hcomes
  · exact List.mem_append_right _ hkept
  · exact List.mem_append_left _ (List.mem_map_of_mem hcomes)

theorem Backed.proceed (h : Backed d) (reply : Reply R)
    (hswitch : SwitchesMarked d (.reply reply)) : Backed (d.proceed packages reply).1 := by
  have hattached := h.attached
  have hmarks := h.marks
  unfold Attached at hattached
  unfold Device.proceed
  generalize hstage : d.stage = stage at hattached hmarks ⊢
  cases stage with
  | idle => exact h
  | checkingLatest createIfMissing fresh =>
    refine .onReply (hmarks rfl) reply ?_
    cases hlatest : d.latest with
    | some backup =>
      obtain ⟨henabled, hsessions, hkept⟩ := seeLatest_fields d
      exact .moved (hmarks rfl) trivial henabled hsessions hkept
    | none =>
      dsimp only
      split <;> exact .moved (hmarks rfl) trivial rfl rfl rfl
  | readingKey version info =>
    refine .onReply (hmarks rfl) reply ?_
    cases d.savedKey with
    | none => exact .moved (hmarks rfl) trivial rfl rfl rfl
    | some key =>
      dsimp only
      split <;> exact .moved (hmarks rfl) trivial rfl rfl rfl
  | disabling setup =>
    dsimp only
    cases henabled : d.enabled with
    | none => exact .moved (hmarks rfl) trivial rfl rfl rfl
    | some p =>
      have hoff : ∀ d' : Device S R, d'.enabled = none → d'.stage = .idle → Backed d' := by
        intro d' hnone hidle
        refine ⟨?_, fun _ version hversion => ?_⟩
        · rw [Attached, hidle]
          trivial
        · rw [hnone] at hversion
          cases hversion
      cases reply <;> exact hoff _ rfl rfl
  | signing key =>
    exact .onReply (hmarks rfl) reply (.moved (hmarks rfl) trivial rfl rfl rfl)
  | creating key | saving key version after =>
    cases reply <;> exact .moved (hmarks rfl) trivial rfl rfl rfl
  | checkingRestored key | checkingInbox secrets =>
    refine .onReply (hmarks rfl) reply ?_
    obtain ⟨henabled, hsessions, hkept⟩ := seeLatest_fields d
    cases d.latest with
    | none => exact .moved (hmarks rfl) trivial rfl rfl rfl
    | some backup =>
      dsimp only
      split <;> exact .moved (hmarks rfl) trivial henabled hsessions hkept
  | readingInbox =>
    refine .onReply (hmarks rfl) reply ?_
    split <;> exact .moved (hmarks rfl) trivial rfl rfl rfl
  | enabling key version after =>
    cases reply with
    | refused _ | lost _ _ => exact .moved (hmarks rfl) trivial rfl rfl rfl
    | ok _ rooms =>
      cases after with
      | ensured setup =>
        refine ⟨trivial, fun _ => ?_⟩
        refine marksKept_of_switch hswitch (.inl ⟨key, setup, hstage⟩) ?_ rfl rfl rfl
        rintro room ⟨other, otherRooms, isAdopted, hother, -⟩
        rw [hstage] at hother
        cases hother
      | restoring | adopting secrets info => exact ⟨rfl, fun h => (by cases h)⟩
  | clearingInbox secrets info matching version =>
    cases matching with
    | none =>
            cases reply <;> exact .moved (hmarks rfl) trivial rfl rfl rfl
    | some key =>
      have hends : ∀ error other, EndsSwitch d (.reply (.lost other error)) version :=
        fun _ _ => .inl ⟨secrets, info, key, hstage⟩
      have hno : ∀ error other room, ¬Imports d (.reply (.lost other error)) room := by
        rintro error other room ⟨_, _, _, hother, -⟩
        rw [hstage] at hother
        cases hother
      cases reply with
      | ok _ rooms => exact ⟨hattached, fun h => (by cases h)⟩
      | lost other error =>
        exact ⟨trivial, fun _ =>
          marksKept_of_switch hswitch (hends error other) (hno error other) hattached rfl rfl⟩
      | refused error =>
        exact ⟨trivial, fun _ =>
          marksKept_of_switch hswitch (.inl ⟨secrets, info, key, hstage⟩)
            (fun _ h => h) hattached rfl rfl⟩
  | downloading version isAdopted =>
    cases reply with
    | ok _ rooms => exact ⟨hattached, fun h => (by cases h)⟩
    | refused error =>
      exact ⟨trivial, fun _ =>
        marksKept_of_switch hswitch (.inr (.inl ⟨isAdopted, hstage⟩)) (fun _ h => h)
          hattached rfl rfl⟩
    | lost other error =>
      refine ⟨trivial, fun _ =>
        marksKept_of_switch hswitch (.inr (.inl ⟨isAdopted, hstage⟩)) ?_ hattached rfl rfl⟩
      rintro room ⟨_, _, _, hother, -⟩
      rw [hstage] at hother
      cases hother
  | importing version rooms isAdopted =>
    have hcomes : ∀ {reply : Reply R} {room : R}, Imports d (.reply reply) room →
        room ∈ rooms := by
      intro reply room himports
      cases reply with
      | refused error => exact himports.elim
      | ok _ _ | lost _ _ =>
        obtain ⟨_, _, _, hother, hmem⟩ := himports
        rw [hstage] at hother
        cases hother
        exact hmem
    cases reply with
    | ok other better =>
      refine ⟨trivial, fun _ => ?_⟩
      refine marksKept_importKept hattached fun room hroom => ?_
      exact (hswitch version (.inr ⟨rooms, isAdopted, hstage⟩) room hroom).imp_right hcomes
    | lost other error =>
      refine ⟨trivial, fun _ => ?_⟩
      refine marksKept_importKept hattached fun room hroom => ?_
      exact (hswitch version (.inr (.inr ⟨rooms, isAdopted, hstage⟩)) room hroom).imp_right
        hcomes
    | refused error =>
      exact ⟨trivial, fun _ =>
        marksKept_of_switch hswitch (.inr (.inr ⟨rooms, isAdopted, hstage⟩)) (fun _ h => h)
          hattached rfl rfl⟩
  | collecting batches =>
    refine .onReply (hmarks rfl) reply ?_
    split
    · exact .moved (hmarks rfl) trivial rfl rfl rfl
    · exact .moved (hmarks rfl) trivial rfl rfl rfl
    · rename_i version key room rooms henabled hunmarked
      refine .moved (hmarks rfl) ?_ rfl rfl rfl
      exact congrArg (Option.map Prod.fst) henabled
  | sendingKeys version rooms batches =>
    have hsent : MarksKept
        { d with kept := rooms.map (fun room => (version, room)) ++ d.kept } :=
      (hmarks rfl).mono (fun _ h => h) (fun _ h => h) fun p hp => List.mem_append_right _ hp
    cases reply with
    | ok _ _ =>
      refine .moved hsent ⟨hattached, fun room hroom => ?_⟩ rfl rfl rfl
      exact List.mem_append_left _ (List.mem_map_of_mem hroom)
    | lost _ error => exact .moved hsent trivial rfl rfl rfl
    | refused error => exact .moved (hmarks rfl) trivial rfl rfl rfl
  | marking version rooms batches =>
    obtain ⟨henabled, hsent⟩ := hattached
    have hmarked : MarksKept (d.markAll rooms) := by
      intro other hother room hroom
      have hversion : version = other := Option.some.inj (henabled.symm.trans hother)
      subst hversion
      rcases mem_sessions_mark (fun room => decide (room ∈ rooms)) hroom with hold | hnew
      · exact hmarks rfl version henabled room hold
      · exact hsent room (of_decide_eq_true hnew)
    cases reply with
    | ok _ _ =>
      dsimp only
      split <;> exact .moved hmarked trivial rfl rfl rfl
    | lost _ error => exact .moved hmarked trivial rfl rfl rfl
    | refused error => exact .moved (hmarks rfl) trivial rfl rfl rfl

theorem Backed.step (h : Backed d) {action : Action S R} (hswitch : SwitchesMarked d action) :
    Backed (d.step packages action) := by
  cases action with
  | ensureBackup createIfMissing fresh | restoreRoomKeys key => exact h.begin trivial
  | adoptBackupKeyFromInbox | uploadRoomKeys => exact h.begin trivial
  | reply reply => exact h.proceed reply hswitch
  | importNew rooms =>
    refine ⟨h.attached, fun hstage => (h.marks hstage).mono (fun _ h => h) ?_ fun _ h => h⟩
    intro room hroom
    refine (List.mem_append.mp hroom).resolve_right fun hnew => ?_
    obtain ⟨other, -, heq⟩ := List.mem_map.mp hnew
    cases heq
  | receiveSecret secret | others latest => exact ⟨h.attached, h.marks⟩
  | restart =>
    refine ⟨trivial, fun _ version hversion room hroom => ?_⟩
    obtain ⟨⟨found, key⟩, hfound, rfl⟩ := Option.map_eq_some_iff.mp hversion
    obtain ⟨saved, hsaved, hpair⟩ := Option.bind_eq_some_iff.mp hfound
    obtain ⟨other, hother, heq⟩ := Option.map_eq_some_iff.mp hpair
    cases heq
    have hends : EndsSwitch d .restart found := ⟨by rw [hsaved]; rfl, hother⟩
    exact (hswitch found hends room hroom).resolve_right fun h => h

/-- An upload says that it has caught up only when no room key is without a mark, or uploading is
not enabled. -/
theorem unmarked_of_caughtUp {action : Action S R} {batches : Nat}
    (h : (d.act packages action).2 = some (.ok (.uploaded (.caughtUp batches)))) :
    d.stage.isSwitching = false ∧ (d.enabled = none ∨ d.unmarked = []) ∧
      d.step packages action = { d with stage := .idle } := by
  unfold Device.step
  cases action with
  | ensureBackup createIfMissing fresh | uploadRoomKeys => cases (begin_returns d _).symm.trans h
  | restoreRoomKeys key | adoptBackupKeyFromInbox => cases (begin_returns d _).symm.trans h
  | importNew rooms | receiveSecret secret | others latest | restart => cases h
  | reply reply =>
    unfold Device.act Device.proceed at h ⊢
    cases hstage : d.stage with
    | collecting found =>
      rw [hstage] at h
      dsimp only at h ⊢
      obtain ⟨hnext, hreturns⟩ := onReply_returns h
      rw [hnext]
      split at hreturns
      · rename_i hnone
        rw [hnone]
        exact ⟨rfl, .inl rfl, by rw [← hnone]; rfl⟩
      · rename_i hsome hempty
        rw [hsome, hempty]
        exact ⟨rfl, .inr rfl, by rw [← hsome]; rfl⟩
      · cases hreturns
    | _ =>
      exfalso
      rw [hstage] at h
      revert h
      simp only [Device.onReply, Device.goto, Device.done, Device.fail]
      repeat' split
      all_goals intro h
      all_goals cases h

/-- Whenever an upload returns that it has caught up, every room key of the device is in the version
that is uploaded to, if no switch of the version has left a key with a mark behind. -/
theorem caught_up_backed_up (packages : BackupPackages S) (latest : Option (Backup S))
    (actions : List (Action S R))
    (hswitches : Runs.Along (Device.step packages) SwitchesMarked (.start latest) actions)
    (action : Action S R) (batches : Nat) :
    let d := Runs.run (Device.step packages) (.start latest) actions
    (d.act packages action).2 = some (.ok (.uploaded (.caughtUp batches))) →
      ∀ version key, (d.step packages action).enabled = some (version, key) →
        ∀ room ∈ (d.step packages action).sessions.map Prod.fst,
          (version, room) ∈ (d.step packages action).kept := by
  intro d hcaught version key henabled room hroom
  have hstart : Backed (.start latest : Device S R) :=
    ⟨trivial, fun _ version hversion => (by cases hversion)⟩
  have hbacked : Backed d :=
    Runs.run_invariant_along Backed (fun _ _ hswitch h => h.step hswitch) actions _ hswitches hstart
  obtain ⟨hstage, hunmarked, hstep⟩ := unmarked_of_caughtUp hcaught
  rw [hstep] at henabled hroom ⊢
  obtain ⟨⟨other, isMarked⟩, hmem, rfl⟩ := List.mem_map.mp hroom
  have hmarks := hbacked.marks hstage
  cases isMarked with
  | true => exact hmarks version (by rw [henabled]; rfl) other hmem
  | false =>
      rcases hunmarked with hnone | hempty
      · rw [hnone] at henabled
        cases henabled
      · exact absurd hmem (mem_unmarked_nil hempty)

end Marks

section Examples

/-- Keys of which everything can be seen. -/
def plainBackups : BackupPackages String where
  toBackupInfo key := .string key
  backupKeyMatches key info := info.asStr == some key
  fromBase64 secret := some secret

theorem switchesMarked_of_unmarked {d : Device String String} {action : Action String String}
    (h : d.sessions.all (fun session => !session.2) = true) : SwitchesMarked d action := by
  intro version _ room hroom
  cases List.all_eq_true.mp h _ hroom

/-- A reply that says nothing. -/
def answered : Action String String :=
  .reply (.ok "" [])

/-- A backup is made with this key, and one room key is uploaded to it. -/
def makeAndUpload (key version room : String) : List (Action String String) :=
  [.ensureBackup true key, answered, answered, .reply (.ok version []), answered, answered,
    .importNew [room], .uploadRoomKeys, answered, answered, answered]

theorem caught_up_backed_up_once :
    let d := Runs.run (Device.step plainBackups) (.start none) (makeAndUpload "key" "1" "room")
    ∀ room ∈ (d.step plainBackups answered).sessions.map Prod.fst,
      ("1", room) ∈ (d.step plainBackups answered).kept := by
  refine caught_up_backed_up plainBackups none (makeAndUpload "key" "1" "room") ?_ answered 1
    (by decide +kernel) "1" "key" (by decide +kernel)
  refine ⟨?_, ?_, ?_, ?_, ?_, ?_, ?_, ?_, ?_, ?_, ?_, trivial⟩
  all_goals exact switchesMarked_of_unmarked (by decide +kernel)

/-- Another device deletes the version, and this device makes a new one. The mark of the room key
stays, and the upload says that it has caught up with nothing in the new version. -/
theorem caught_up_left_out :
    let actions := makeAndUpload "key" "1" "room" ++
      [answered, .others none, .ensureBackup true "newKey", answered, answered,
        .reply (.ok "2" []), answered, answered, .uploadRoomKeys]
    let d := Runs.run (Device.step plainBackups) (.start none) actions
    (d.act plainBackups answered).2 = some (.ok (.uploaded (.caughtUp 0))) ∧
      ¬∀ version key, (d.step plainBackups answered).enabled = some (version, key) →
        ∀ room ∈ (d.step plainBackups answered).sessions.map Prod.fst,
          (version, room) ∈ (d.step plainBackups answered).kept := by
  refine ⟨by decide +kernel, fun h => ?_⟩
  have hroom := h "2" "newKey" (by decide +kernel) "room" (by decide +kernel)
  exact absurd hroom (by decide +kernel)

end Examples

end KeyBackup
end WbfMatrixClient
