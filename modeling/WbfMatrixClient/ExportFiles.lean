import WbfMatrixClient.AccountNames
import WbfMatrixClient.Lib.Bytes
import WbfMatrixClient.Lib.FileNames
import WbfMatrixClient.Lib.Runs
import WbfMatrixClient.Wire

/-!
# Exports to a path

An export writes its source to a file of its own beside the target, and renames
it to the target when all is right. Any number of exports of any number of
processes take their steps in any order, and every operation on a file may fail.

The source of an export is the list of what its reads bring. That a target is a
directory, and that two paths name one file, is left out.
-/

namespace WbfMatrixClient
namespace Exports

open Function

open AccountNames (Text)

structure Path where
  dir : Text
  name : Text
deriving DecidableEq

/-- The file that an export has made for itself. -/
structure Own where
  path : Path
  file : Nat

inductive Stage where
  | naming (attempts : Nat)
  | opening (attempts : Nat) (target path : Path)
  | copying (target : Path) (own : Own) (left : List (Except String (List UInt8)))
      (written : List UInt8)
  | checking (target : Path) (own : Own) (written : List UInt8)
  | replacing (target : Path) (own : Own) (written : List UInt8)
  | removing (own : Own) (error : SdkError)
  | done (result : Except SdkError Nat)

/-- What an export has of its own while it runs. -/
def Stage.own : Stage → Option Own
  | naming _ | opening _ _ _ | done _ => none
  | copying _ own _ _ | checking _ own _ | replacing _ own _ | removing own _ => some own

/-- What is asked for. A target without a file name is none. -/
structure Call where
  pid : Nat
  shownTarget : String
  target : Option Path
  source : List (Except String (List UInt8))
  fileSize : Nat
  sha256Hex : Option Text

structure Export where
  call : Call
  stage : Stage

structure State where
  fs : FileSystem Path UInt8
  /-- The next number of each process. -/
  nextPartial : Nat → Nat
  exports : Nat → Option Export

/-- Whether the operation of a step works. A write that fails may have written some bytes. -/
inductive Outcome where
  | works
  | fails (error : String) (written : Nat)

def maxAttempts : Nat := 64

def partialName (fileName : Text) (pid number : Nat) : Text :=
  fileName ++ ".partial.".toList ++ (toString pid).toList ++ '-' :: (toString number).toList

section Steps

variable (sha256 : List UInt8 → List UInt8)

/-- The next step of an export on the files and on the counter of its process. -/
def Export.next (fs : FileSystem Path UInt8) (counter : Nat) (e : Export) (outcome : Outcome) :
    FileSystem Path UInt8 × Nat × Stage :=
  match e.stage with
  | .naming attempts =>
      match e.call.target with
      | none => (fs, counter, .done (.error (.usage (e.call.shownTarget ++ " has no file name"))))
      | some target =>
          if maxAttempts ≤ attempts then
            (fs, counter, .done (.error (.io "file exists")))
          else
            (fs, (counter + 1) % 2 ^ 64,
              .opening attempts target
                { target with name := partialName target.name e.call.pid counter })
  | .opening attempts target path =>
      match outcome with
      | .fails error _ => (fs, counter, .done (.error (.io error)))
      | .works =>
          match fs.entries path with
          | some _ => (fs, counter, .naming (attempts + 1))
          | none =>
              (fs.createNew path, counter,
                .copying target { path := path, file := fs.next } e.call.source [])
  | .copying target own left written =>
      match left with
      | [] | .ok [] :: _ => (fs, counter, .checking target own written)
      | .error error :: _ => (fs, counter, .removing own (.io error))
      | .ok piece :: rest =>
          match outcome with
          | .works => (fs.append own.file piece, counter, .copying target own rest (written ++ piece))
          | .fails error count =>
              (fs.append own.file (piece.take count), counter, .removing own (.io error))
  | .checking target own written =>
      match outcome with
      | .fails error _ => (fs, counter, .removing own (.io error))
      | .works =>
          if written.length ≠ e.call.fileSize then
            (fs, counter, .removing own (.integrity ("exported " ++ toString written.length ++
              " bytes, file_size says " ++ toString e.call.fileSize)))
          else
            match e.call.sha256Hex with
            | none => (fs, counter, .replacing target own written)
            | some wanted =>
                let actual := Bytes.toHex (sha256 written)
                if AccountNames.eqIgnoreAsciiCase wanted actual then
                  (fs, counter, .replacing target own written)
                else
                  (fs, counter, .removing own (.integrity ("sha256 mismatch: expected " ++
                    String.ofList wanted ++ ", got " ++ String.ofList actual)))
  | .replacing target own written =>
      match outcome with
      | .fails error _ => (fs, counter, .removing own (.io error))
      | .works =>
          match fs.entries own.path with
          | none => (fs, counter, .removing own (.io "not found"))
          | some file => (fs.rename own.path target file, counter, .done (.ok written.length))
  | .removing own error =>
      match outcome with
      | .fails _ _ => (fs, counter, .done (.error error))
      | .works => (fs.remove own.path, counter, .done (.error error))
  | .done result => (fs, counter, .done result)

/-- A new call begins, or a running one takes its next step. -/
inductive Action where
  | begin (id : Nat) (call : Call)
  | step (id : Nat) (outcome : Outcome)

def State.step (s : State) : Action → State
  | .begin id call =>
      match s.exports id with
      | some _ => s
      | none =>
          { s with
            exports := update s.exports id (some { call := call, stage := .naming 0 }) }
  | .step id outcome =>
      match s.exports id with
      | none => s
      | some e =>
          let after := e.next sha256 s.fs (s.nextPartial e.call.pid) outcome
          { fs := after.1
            nextPartial := update s.nextPartial e.call.pid after.2.1
            exports := update s.exports id (some { e with stage := after.2.2 }) }

end Steps

/-- Nothing has been exported yet. -/
def State.start (fs : FileSystem Path UInt8) (nextPartial : Nat → Nat) : State where
  fs := fs
  nextPartial := nextPartial
  exports := fun _ => none

/-- The bytes that the reads bring up to the end, if none of them fails before. -/
def sourceBytes : List (Except String (List UInt8)) → Option (List UInt8)
  | [] | .ok [] :: _ => some []
  | .error _ :: _ => none
  | .ok piece :: rest => (sourceBytes rest).map (piece ++ ·)

theorem sourceBytes_ok {piece : List UInt8} (h : piece ≠ [])
    (rest : List (Except String (List UInt8))) :
    sourceBytes (.ok piece :: rest) = (sourceBytes rest).map (piece ++ ·) := by
  cases piece with
  | nil => exact absurd rfl h
  | cons byte piece => rfl

/-- The bytes are the source's, and of the size and the hash that are asked for. -/
structure Call.Gives (sha256 : List UInt8 → List UInt8) (call : Call) (bytes : List UInt8) :
    Prop where
  source : sourceBytes call.source = some bytes
  size : bytes.length = call.fileSize
  hash : ∀ wanted, call.sha256Hex = some wanted →
    AccountNames.eqIgnoreAsciiCase wanted (Bytes.toHex (sha256 bytes)) = true

def Stage.result : Stage → Option (Except SdkError Nat)
  | .done result => some result
  | _ => none

theorem Stage.eq_done {stage : Stage} {result : Except SdkError Nat}
    (h : stage.result = some result) : stage = .done result := by
  cases stage with
  | done after => rw [Option.some.inj h]
  | _ => cases h

/-- A call that has returned has no file of its own. -/
theorem Stage.result_of_own {stage : Stage} {own : Own} (h : stage.own = some own) :
    stage.result = none := by
  cases stage with
  | done after => cases h
  | _ => rfl

theorem partialName_ne (fileName : Text) (pid number : Nat) :
    partialName fileName pid number ≠ fileName := by
  intro h
  have hlength := congrArg List.length h
  simp [partialName] at hlength

/-- A step of a running export leaves the files alone, or works on the export's
own file, or ends it. -/
inductive Change (e : Export) (fs : FileSystem Path UInt8) (outcome : Outcome) :
    FileSystem Path UInt8 → Stage → Prop
  | keeps {after : Stage} (hown : after.own = e.stage.own)
      (hok : ∀ n, after ≠ .done (.ok n)) :
      Change e fs outcome fs after
  | creates {after : Stage} {path : Path} (hnone : e.stage.own = none)
      (hfree : fs.entries path = none) (hown : after.own = some ⟨path, fs.next⟩) :
      Change e fs outcome (fs.createNew path) after
  | appends {after : Stage} {own : Own} (bytes : List UInt8) (hold : e.stage.own = some own)
      (hown : after.own = some own) :
      Change e fs outcome (fs.append own.file bytes) after
  | renames {target : Path} {own : Own} {written : List UInt8} {file : Nat}
      (hstage : e.stage = .replacing target own written)
      (hfile : fs.entries own.path = some file) :
      Change e fs outcome (fs.rename own.path target file) (.done (.ok written.length))
  | removes {own : Own} {error : SdkError} (hstage : e.stage = .removing own error) :
      Change e fs outcome (fs.remove own.path) (.done (.error error))
  | leaves {own : Own} {error : SdkError} (hstage : e.stage = .removing own error)
      (hfails : outcome ≠ .works) :
      Change e fs outcome fs (.done (.error error))

theorem next_change (sha256 : List UInt8 → List UInt8) (fs : FileSystem Path UInt8) (counter : Nat)
    (e : Export) (outcome : Outcome) (hrunning : e.stage.result = none) :
    Change e fs outcome (e.next sha256 fs counter outcome).1
      (e.next sha256 fs counter outcome).2.2 := by
  obtain ⟨call, stage⟩ := e
  cases stage with
  | naming attempts =>
    simp only [Export.next]
    split
    · exact .keeps rfl (by simp)
    · split <;> exact .keeps rfl (by simp)
  | opening attempts target path =>
    cases outcome with
    | fails error count => exact .keeps rfl (by simp [Export.next])
    | works =>
      simp only [Export.next]
      split
      · exact .keeps rfl (by simp)
      · next hfree => exact .creates rfl hfree rfl
  | copying target own left written =>
    simp only [Export.next]
    split
    · exact .keeps rfl (by simp)
    · exact .keeps rfl (by simp)
    · exact .keeps rfl (by simp)
    · split <;> exact .appends _ rfl rfl
  | checking target own written =>
    cases outcome with
    | fails error count => exact .keeps rfl (by simp [Export.next])
    | works =>
      simp only [Export.next]
      split
      · exact .keeps rfl (by simp)
      · split
        · exact .keeps rfl (by simp)
        · split <;> exact .keeps rfl (by simp)
  | replacing target own written =>
    cases outcome with
    | fails error count => exact .keeps rfl (by simp [Export.next])
    | works =>
      simp only [Export.next]
      split
      · exact .keeps rfl (by simp)
      · next hfile => exact .renames rfl hfile
  | removing own error =>
    cases outcome with
    | fails text count => exact .leaves rfl (by simp)
    | works => exact .removes rfl
  | done result => cases hrunning

section Change

variable
  {e : Export} {after : Stage} {outcome : Outcome}
  {fs fs' : FileSystem Path UInt8}

/-- The file of an export before or after a step. -/
def Export.Has (e : Export) (after : Stage) (own : Own) : Prop :=
  e.stage.own = some own ∨ after.own = some own

/-- The export renames its file to the target. -/
def Export.Renames (e : Export) (after : Stage) (target : Path) : Prop :=
  (∃ own written, e.stage = .replacing target own written) ∧ ∃ n, after = .done (.ok n)

section

variable (h : Change e fs outcome fs' after)

include h

theorem Change.frame (hheld : ∀ own, e.stage.own = some own → fs.entries own.path = some own.file) :
    FileSystem.Frame (fun path => (∃ own, e.Has after own ∧ path = own.path) ∨ e.Renames after path)
      (fun file => ∃ own, e.Has after own ∧ file = own.file) fs fs' := by
  cases h with
  | keeps hown hok | leaves hstage hfails => exact .refl fs
  | creates hnone hfree hown =>
    exact (FileSystem.frame_createNew fs _).mono
      (fun path hpath => .inl ⟨_, .inr hown, hpath⟩) (fun file hfile => ⟨_, .inr hown, hfile⟩)
  | appends bytes hold hown =>
    exact (FileSystem.frame_append fs _ bytes).mono (fun _ hfalse => hfalse.elim)
      (fun file hfile => ⟨_, .inl hold, hfile⟩)
  | removes hstage =>
    have hold := congrArg Stage.own hstage
    exact (FileSystem.frame_remove fs _).mono
      (fun path hpath => .inl ⟨_, .inl hold, hpath⟩) (fun _ hfalse => hfalse.elim)
  | @renames target own written file hstage hfile =>
    have hold : e.stage.own = some own := congrArg Stage.own hstage
    have hsame : file = own.file := Option.some.inj (hfile.symm.trans (hheld own hold))
    refine (FileSystem.frame_rename fs own.path target file).mono ?_ ?_
    · rintro path (hpath | rfl)
      · exact .inl ⟨own, .inl hold, hpath⟩
      · exact .inr ⟨⟨own, written, hstage⟩, _, rfl⟩
    · intro other hother
      exact ⟨own, .inl hold, hother.trans hsame⟩

/-- A file that an export gets in a step is new, under a name that was free. -/
theorem Change.own_new {own : Own} (hown : after.own = some own) :
    e.stage.own = some own ∨
      e.stage.own = none ∧ fs.entries own.path = none ∧ own.file = fs.next := by
  cases h with
  | keeps hsame hok => exact .inl (hsame.symm.trans hown)
  | creates hnone hfree hnew =>
    obtain rfl := Option.some.inj (hnew.symm.trans hown)
    exact .inr ⟨hnone, hfree, rfl⟩
  | appends bytes hold hsame => exact .inl (hold.trans (hsame.symm.trans hown))
  | renames hstage hfile | removes hstage | leaves hstage hfails => cases hown

theorem Change.numbered (hnumbered : fs.Numbered) : fs'.Numbered := by
  cases h with
  | keeps hown hok | leaves hstage hfails => exact hnumbered
  | creates hnone hfree hown => exact hnumbered.createNew _
  | appends bytes hold hown => exact hnumbered.append _ _
  | renames hstage hfile => exact hnumbered.rename hfile _
  | removes hstage => exact hnumbered.remove _

theorem Change.sole {own : Own} (hnumbered : fs.Numbered)
    (hsole : ∀ own, e.stage.own = some own → fs.Sole own.path own.file)
    (hown : after.own = some own) : fs'.Sole own.path own.file := by
  cases h with
  | keeps hsame hok => exact hsole own (hsame.symm.trans hown)
  | creates hnone hfree hnew =>
    obtain rfl := Option.some.inj (hnew.symm.trans hown)
    exact FileSystem.sole_createNew hnumbered _
  | appends bytes hold hsame =>
    obtain rfl := Option.some.inj (hsame.symm.trans hown)
    exact ⟨(hsole _ hold).named, (hsole _ hold).only⟩
  | renames hstage hfile | removes hstage | leaves hstage hfails => cases hown

end

end Change

section Progress

variable (sha256 : List UInt8 → List UInt8)

/-- What holds of the call and of its own file at a stage. -/
def Stage.Progress (call : Call) (contents : Nat → List UInt8) : Stage → Prop
  | .naming _ => True
  | .opening _ target path => call.target = some target ∧ path ≠ target
  | .copying target own left written =>
      call.target = some target ∧ own.path ≠ target ∧ contents own.file = written ∧
        sourceBytes call.source = (sourceBytes left).map (written ++ ·)
  | .checking target own written =>
      call.target = some target ∧ own.path ≠ target ∧ contents own.file = written ∧
        sourceBytes call.source = some written
  | .replacing target own written =>
      call.target = some target ∧ own.path ≠ target ∧ contents own.file = written ∧
        call.Gives sha256 written
  | .removing own _ => call.target ≠ some own.path
  | .done result => ∀ n, result = .ok n → ∃ bytes, call.Gives sha256 bytes ∧ n = bytes.length

variable {sha256}

theorem Stage.Progress.congr {call : Call} {contents contents' : Nat → List UInt8} {stage : Stage}
    (h : stage.Progress sha256 call contents)
    (hsame : ∀ own, stage.own = some own → contents' own.file = contents own.file) :
    stage.Progress sha256 call contents' := by
  cases stage with
  | naming attempts => trivial
  | opening attempts target path | removing own error | done result => exact h
  | copying target own left written => exact ⟨h.1, h.2.1, (hsame own rfl).trans h.2.2.1, h.2.2.2⟩
  | checking target own written => exact ⟨h.1, h.2.1, (hsame own rfl).trans h.2.2.1, h.2.2.2⟩
  | replacing target own written => exact ⟨h.1, h.2.1, (hsame own rfl).trans h.2.2.1, h.2.2.2⟩

/-- The name of an export's own file is not the target. -/
theorem Stage.Progress.own_ne {call : Call} {contents : Nat → List UInt8} {stage : Stage}
    {own : Own} (h : stage.Progress sha256 call contents) (hown : stage.own = some own) :
    call.target ≠ some own.path := by
  cases stage with
  | naming attempts | opening attempts target path | done result => cases hown
  | copying target mine left written | checking target mine written =>
    obtain rfl := Option.some.inj hown
    exact fun htarget => h.2.1 (Option.some.inj (htarget.symm.trans h.1))
  | replacing target mine written =>
    obtain rfl := Option.some.inj hown
    exact fun htarget => h.2.1 (Option.some.inj (htarget.symm.trans h.1))
  | removing mine error =>
    obtain rfl := Option.some.inj hown
    exact h

theorem next_progress {fs : FileSystem Path UInt8} {e : Export}
    (h : e.stage.Progress sha256 e.call fs.contents) (counter : Nat) (outcome : Outcome) :
    (e.next sha256 fs counter outcome).2.2.Progress sha256 e.call
      (e.next sha256 fs counter outcome).1.contents := by
  obtain ⟨call, stage⟩ := e
  cases stage with
  | naming attempts =>
    simp only [Export.next]
    split
    · rintro n ⟨⟩
    · next target htarget =>
        split
        · rintro n ⟨⟩
        · exact ⟨htarget, fun hpath => partialName_ne _ _ _ (congrArg Path.name hpath)⟩
  | opening attempts target path =>
    cases outcome with
    | fails error count => rintro n ⟨⟩
    | works =>
      simp only [Export.next]
      split
      · trivial
      · exact ⟨h.1, h.2, FileSystem.contents_createNew fs path, by simp⟩
  | copying target own left written =>
    have hremoving := h.own_ne rfl
    obtain ⟨htarget, hne, hcontents, hsource⟩ := h
    simp only [Export.next]
    split
    · exact ⟨htarget, hne, hcontents, by simpa [sourceBytes] using hsource⟩
    · exact ⟨htarget, hne, hcontents, by simpa [sourceBytes] using hsource⟩
    · exact hremoving
    · next piece rest hpiece =>
        split
        · refine ⟨htarget, hne, ?_, ?_⟩
          · rw [FileSystem.contents_append, hcontents]
          · rw [hsource, sourceBytes_ok (by rintro rfl; exact hpiece rfl), Option.map_map]
            simp only [comp_def, List.append_assoc]
        · exact hremoving
  | checking target own written =>
    have hremoving := h.own_ne rfl
    obtain ⟨htarget, hne, hcontents, hsource⟩ := h
    cases outcome with
    | fails error count => exact hremoving
    | works =>
      simp only [Export.next]
      split
      · exact hremoving
      · next hsize =>
          have hlength := not_not.1 hsize
          split
          · next hnone =>
              exact ⟨htarget, hne, hcontents, hsource, hlength, by simp [hnone]⟩
          · next wanted hwanted =>
              split
              · next heq =>
                  refine ⟨htarget, hne, hcontents, hsource, hlength, fun other hother => ?_⟩
                  obtain rfl := Option.some.inj (hwanted.symm.trans hother)
                  exact heq
              · exact hremoving
  | replacing target own written =>
    cases outcome with
    | fails error count => exact h.own_ne rfl
    | works =>
      have hremoving := h.own_ne rfl
      simp only [Export.next]
      split
      · exact hremoving
      · rintro n hn
        cases hn
        exact ⟨written, h.2.2.2, rfl⟩
  | removing own error =>
    cases outcome <;> rintro n ⟨⟩
  | done result => exact h

end Progress

section Together

variable {sha256 : List UInt8 → List UInt8}

/-- No export renames its file to where another running export has its own. -/
def Apart (s : State) : Action → Prop
  | .begin _ _ => True
  | .step id _ => ∀ e target own written, s.exports id = some e →
      e.stage = .replacing target own written →
      ∀ other f mine, other ≠ id → s.exports other = some f → f.stage.own = some mine →
        mine.path ≠ target

structure Inv (sha256 : List UInt8 → List UInt8) (s : State) : Prop where
  numbered : s.fs.Numbered
  sole : ∀ id e own, s.exports id = some e → e.stage.own = some own →
    s.fs.Sole own.path own.file
  apart : ∀ id other e f own mine, s.exports id = some e → s.exports other = some f →
    e.stage.own = some own → f.stage.own = some mine → own.path = mine.path → id = other
  progress : ∀ id e, s.exports id = some e → e.stage.Progress sha256 e.call s.fs.contents

theorem inv_start {fs : FileSystem Path UInt8} (h : fs.Numbered) (nextPartial : Nat → Nat) :
    Inv sha256 (State.start fs nextPartial) where
  numbered := h
  sole _ _ _ he := nomatch he
  apart _ _ _ _ _ _ he := nomatch he
  progress _ _ he := nomatch he

variable {s : State} {e : Export}

/-- A call that has returned takes no more steps. -/
theorem step_of_result {id : Nat} {result : Except SdkError Nat} (he : s.exports id = some e)
    (hresult : e.stage.result = some result) (outcome : Outcome) :
    s.step sha256 (.step id outcome) = s := by
  obtain ⟨call, stage⟩ := e
  cases stage with
  | done after =>
    simp only [State.step, he, Export.next, update_eq_self]
    rw [← he, update_eq_self]
  | _ => cases hresult

theorem exports_update {exports : Nat → Option Export} {id other : Nat} {f : Export}
    (h : update exports id (some e) other = some f) :
    other = id ∧ f = e ∨ other ≠ id ∧ exports other = some f := by
  by_cases hother : other = id
  · subst hother
    rw [update_self] at h
    exact .inl ⟨rfl, (Option.some.inj h).symm⟩
  · exact .inr ⟨hother, by rwa [update_of_ne hother] at h⟩

theorem step_of_running {id : Nat} (he : s.exports id = some e) (outcome : Outcome) :
    s.step sha256 (.step id outcome) =
      let after := e.next sha256 s.fs (s.nextPartial e.call.pid) outcome
      { fs := after.1
        nextPartial := update s.nextPartial e.call.pid after.2.1
        exports := update s.exports id (some { e with stage := after.2.2 }) } := by
  simp only [State.step, he]

variable {outcome : Outcome}

/-- A step of one export touches neither the name nor the file of another. -/
theorem Inv.untouched {id other : Nat} {f : Export} {mine : Own} {fs' : FileSystem Path UInt8}
    {after : Stage} (hinv : Inv sha256 s) (hapart : Apart s (.step id outcome))
    (he : s.exports id = some e) (hchange : Change e s.fs outcome fs' after) (hne : other ≠ id)
    (hf : s.exports other = some f) (hmine : f.stage.own = some mine) :
    ¬ ((∃ own, e.Has after own ∧ mine.path = own.path) ∨ e.Renames after mine.path) ∧
      ¬ ∃ own, e.Has after own ∧ mine.file = own.file := by
  have hsole := hinv.sole other f mine hf hmine
  have hnew : ∀ own, e.Has after own → mine.path ≠ own.path ∧ mine.file ≠ own.file := by
    intro own hown
    have hkept : e.stage.own = some own →
        mine.path ≠ own.path ∧ mine.file ≠ own.file := by
      intro hold
      have hpath : mine.path ≠ own.path := fun h =>
        hne (hinv.apart other id f e mine own hf he hmine hold h)
      refine ⟨hpath, fun hfile => hpath ?_⟩
      exact (hsole.only own.path (hfile ▸ (hinv.sole id e own he hold).named)).symm
    obtain hold | hown := hown
    · exact hkept hold
    · obtain hold | ⟨-, hfree, hnext⟩ := hchange.own_new hown
      · exact hkept hold
      · refine ⟨fun h => ?_, fun h => ?_⟩
        · rw [← h, hsole.named] at hfree
          cases hfree
        · have hlt := hinv.numbered _ _ hsole.named
          omega
  constructor
  · rintro (⟨own, hown, hpath⟩ | ⟨⟨own, written, hstage⟩, -⟩)
    · exact (hnew own hown).1 hpath
    · exact hapart e mine.path own written he hstage other f mine hne hf hmine rfl
  · rintro ⟨own, hown, hfile⟩
    exact (hnew own hown).2 hfile

theorem inv_step {action : Action} (hapart : Apart s action) (hinv : Inv sha256 s) :
    Inv sha256 (s.step sha256 action) := by
  cases action with
  | begin id call =>
    cases he : s.exports id with
    | some e => simpa only [State.step, he] using hinv
    | none =>
      simp only [State.step, he]
      -- A call that begins has no file of its own.
      have howned : ∀ {other f own}, update s.exports id
          (some { call := call, stage := .naming 0 }) other = some f →
          f.stage.own = some own → s.exports other = some f := by
        intro other f own hf hown
        obtain ⟨-, rfl⟩ | ⟨-, hf⟩ := exports_update hf
        · cases hown
        · exact hf
      refine ⟨hinv.numbered, ?_, ?_, ?_⟩
      · intro other f own hf hown
        exact hinv.sole other f own (howned hf hown) hown
      · intro a b f g own mine hf hg hown hmine
        exact hinv.apart a b f g own mine (howned hf hown) (howned hg hmine) hown hmine
      · intro other f hf
        obtain ⟨-, rfl⟩ | ⟨-, hf⟩ := exports_update hf
        · trivial
        · exact hinv.progress other f hf
  | step id outcome =>
    cases he : s.exports id with
    | none => simpa only [State.step, he] using hinv
    | some e =>
      cases hresult : e.stage.result with
      | some result => rwa [step_of_result he hresult]
      | none =>
        have hchange := next_change sha256 s.fs (s.nextPartial e.call.pid) e outcome hresult
        have hframe := hchange.frame fun own hown => (hinv.sole id e own he hown).named
        have hprogress := next_progress (hinv.progress id e he)
          (s.nextPartial e.call.pid) outcome
        rw [step_of_running he]
        generalize e.next sha256 s.fs (s.nextPartial e.call.pid) outcome = next
          at hchange hframe hprogress
        obtain ⟨fs', counter, after⟩ := next
        refine ⟨hchange.numbered hinv.numbered, ?_, ?_, ?_⟩
        · intro other f own hf hown
          obtain ⟨rfl, rfl⟩ | ⟨hne, hf⟩ := exports_update hf
          · exact hchange.sole hinv.numbered
              (fun own hown => hinv.sole other e own he hown) hown
          · obtain ⟨hname, hfile⟩ := hinv.untouched hapart he hchange hne hf hown
            exact hframe.sole (hinv.sole other f own hf hown) hname hfile
        · intro a b f g own mine hf hg hown hmine hpath
          obtain ⟨rfl, rfl⟩ | ⟨hne, hold⟩ := exports_update hf
          · obtain ⟨rfl, rfl⟩ | ⟨hne', hother⟩ := exports_update hg
            · rfl
            · exact absurd (.inl ⟨own, .inr hown, hpath.symm⟩)
                (hinv.untouched hapart he hchange hne' hother hmine).1
          · obtain ⟨rfl, rfl⟩ | ⟨hne', hother⟩ := exports_update hg
            · exact absurd (.inl ⟨mine, .inr hmine, hpath⟩)
                (hinv.untouched hapart he hchange hne hold hown).1
            · exact hinv.apart a b f g own mine hold hother hown hmine hpath
        · intro other f hf
          obtain ⟨rfl, rfl⟩ | ⟨hne, hf⟩ := exports_update hf
          · exact hprogress
          · exact (hinv.progress other f hf).congr fun own hown =>
              hframe.contents _ (hinv.untouched hapart he hchange hne hf hown).2

theorem inv_run {fs : FileSystem Path UInt8} {nextPartial : Nat → Nat} {actions : List Action}
    (hfs : fs.Numbered)
    (hapart : Runs.Along (State.step sha256) Apart (State.start fs nextPartial) actions) :
    Inv sha256 (Runs.run (State.step sha256) (State.start fs nextPartial) actions) :=
  Runs.run_invariant_along (Inv sha256) (fun _ _ happart hinv => inv_step happart hinv)
    actions _ hapart (inv_start hfs nextPartial)

/-- What is under a path is the same file with the same bytes. -/
def Same (fs fs' : FileSystem Path UInt8) (path : Path) : Prop :=
  fs'.entries path = fs.entries path ∧ fs'.read path = fs.read path

/-- What a step of a running call may do to the files. -/
structure AllOrNothing (sha256 : List UInt8 → List UInt8) (e : Export) (after : Stage)
    (outcome : Outcome) (fs fs' : FileSystem Path UInt8) : Prop where
  /-- With `Ok`, the target now has the bytes of the source. -/
  returnsOk : ∀ n, after.result = some (.ok n) → ∃ target bytes,
    e.call.target = some target ∧ e.call.Gives sha256 bytes ∧ n = bytes.length ∧
      fs'.read target = some bytes
  kept : ∀ target, e.call.target = some target → (∀ n, after.result ≠ some (.ok n)) →
    Same fs fs' target
  others : ∀ path, (∀ own, e.Has after own → path ≠ own.path) → e.call.target ≠ some path →
    Same fs fs' path
  /-- The own file is one that was not there before. -/
  ownNew : ∀ own, after.own = some own →
    e.stage.own = some own ∨ e.stage.own = none ∧ fs.entries own.path = none
  /-- When the call ends, its own file is gone, unless removing it fails. -/
  gone : ∀ own, e.stage.own = some own → after.result.isSome → outcome = .works →
    fs'.entries own.path = none

theorem Inv.allOrNothing {id : Nat} {fs' : FileSystem Path UInt8} {after : Stage}
    (hinv : Inv sha256 s) (he : s.exports id = some e) (hchange : Change e s.fs outcome fs' after)
    (hprogress : after.Progress sha256 e.call fs'.contents) :
    AllOrNothing sha256 e after outcome s.fs fs' := by
  have hframe := hchange.frame fun own hown => (hinv.sole id e own he hown).named
  have hstart := hinv.progress id e he
  have hsame : ∀ path, (∀ own, e.Has after own → path ≠ own.path) → ¬ e.Renames after path →
      Same s.fs fs' path := by
    intro path hpath hrename
    have hname : ¬ ((∃ own, e.Has after own ∧ path = own.path) ∨ e.Renames after path) := by
      rintro (⟨own, hown, rfl⟩ | hin)
      · exact hpath own hown rfl
      · exact hrename hin
    refine ⟨hframe.entries path hname, hframe.read_eq hname ?_⟩
    rintro file hfile ⟨own, hown | hown, rfl⟩
    · exact hpath own (.inl hown) ((hinv.sole id e own he hown).only path hfile)
    · obtain hold | ⟨-, -, hnext⟩ := hchange.own_new hown
      · exact hpath own (.inl hold) ((hinv.sole id e own he hold).only path hfile)
      · have hlt := hinv.numbered path own.file hfile
        omega
  constructor
  · intro n hn
    cases hchange with
    | keeps hown hok => exact absurd (Stage.eq_done hn) (hok n)
    | creates hnone hfree hown => cases (Stage.result_of_own hown).symm.trans hn
    | appends bytes hold hown => cases (Stage.result_of_own hown).symm.trans hn
    | @renames target own written file hstage hfile =>
      cases hn
      rw [hstage] at hstart
      obtain ⟨htarget, -, hcontents, hgives⟩ := hstart
      refine ⟨target, written, htarget, hgives, rfl, ?_⟩
      have hsole := (hinv.sole id e own he (congrArg Stage.own hstage)).named
      rw [FileSystem.read_rename, Option.some.inj (hfile.symm.trans hsole), hcontents]
    | removes hstage | leaves hstage hfails => cases hn
  · intro target htarget hnot
    refine hsame target ?_ ?_
    · rintro own (hown | hown) rfl
      · exact hstart.own_ne hown htarget
      · exact hprogress.own_ne hown htarget
    · rintro ⟨-, n, rfl⟩
      exact hnot n rfl
  · intro path hpath htarget
    refine hsame path hpath ?_
    rintro ⟨⟨own, written, hstage⟩, -⟩
    rw [hstage] at hstart
    exact htarget hstart.1
  · intro own hown
    exact (hchange.own_new hown).imp_right fun h => ⟨h.1, h.2.1⟩
  · intro own hown hresult hworks
    cases hchange with
    | keeps hkept hok =>
      rw [Stage.result_of_own (hkept.trans hown)] at hresult
      cases hresult
    | creates hnone hfree hnew => cases hnone.symm.trans hown
    | appends bytes hold hkept =>
      rw [Stage.result_of_own hkept] at hresult
      cases hresult
    | renames hstage hfile =>
      rw [hstage] at hown hstart
      cases hown
      exact FileSystem.entries_rename_source _ hstart.2.1 _
    | removes hstage =>
      rw [hstage] at hown
      cases hown
      exact FileSystem.entries_remove _ _
    | leaves hstage hfails => exact absurd hworks hfails

/-- What has become of an export by a step of its own. -/
theorem step_allOrNothing {id : Nat} {e' : Export} (hinv : Inv sha256 s)
    (he : s.exports id = some e) (hrunning : e.stage.result = none)
    (he' : (s.step sha256 (.step id outcome)).exports id = some e') :
    e'.call = e.call ∧
      AllOrNothing sha256 e e'.stage outcome s.fs (s.step sha256 (.step id outcome)).fs := by
  simp only [step_of_running he, update_self] at he'
  obtain rfl := Option.some.inj he'
  refine ⟨rfl, ?_⟩
  rw [step_of_running he]
  exact hinv.allOrNothing he
    (next_change sha256 s.fs (s.nextPartial e.call.pid) e outcome hrunning)
    (next_progress (hinv.progress id e he) _ _)

/-- An export that has got to a stage by one step has taken this step itself. -/
theorem exports_of_ne {id : Nat} {action : Action} (h : (s.step sha256 action).exports id = some e)
    (hold : s.exports id ≠ some e) (hrunning : e.stage ≠ .naming 0) :
    ∃ outcome, action = .step id outcome := by
  cases action with
  | begin other call =>
    cases hother : s.exports other with
    | some f =>
      simp only [State.step, hother] at h
      exact absurd h hold
    | none =>
      simp only [State.step, hother] at h
      obtain ⟨rfl, rfl⟩ | ⟨-, h⟩ := exports_update h
      · exact absurd rfl hrunning
      · exact absurd h hold
  | step other outcome =>
    cases hother : s.exports other with
    | none =>
      simp only [State.step, hother] at h
      exact absurd h hold
    | some f =>
      rw [step_of_running hother] at h
      obtain ⟨rfl, -⟩ | ⟨-, h⟩ := exports_update h
      · exact ⟨outcome, rfl⟩
      · exact absurd h hold

def Action.id : Action → Nat
  | .begin id _ => id
  | .step id _ => id

/-- A call that runs alone does not meet the file of another. -/
theorem apart_alone {id : Nat} {actions : List Action}
    (halone : ∀ other, other ≠ id → s.exports other = none)
    (hactions : ∀ action ∈ actions, action.id = id) :
    Runs.Along (State.step sha256) Apart s actions := by
  induction actions generalizing s with
  | nil => trivial
  | cons action actions ih =>
    obtain ⟨hfirst, hrest⟩ := List.forall_mem_cons.1 hactions
    refine ⟨?_, ih (fun other hother => ?_) hrest⟩
    · cases action with
      | begin mine call => trivial
      | step mine outcome =>
        intro e target own written _ _ other f mine' hother hf _
        rw [halone other (fun h => hother (h.trans hfirst.symm))] at hf
        cases hf
    · have hne : other ≠ action.id := fun h => hother (h.trans hfirst)
      cases action with
      | begin mine call | step mine outcome =>
        simp only [State.step]
        split
        · exact halone other hother
        · exact (update_of_ne hne _ _).trans (halone other hother)

/-- In a run in which no export renames its file to where another has its own,
every step of every call is all or nothing, and a call that has returned `Ok` has
put the bytes of its source at the target in one of its steps. -/
theorem exports_all_or_nothing (sha256 : List UInt8 → List UInt8) (fs : FileSystem Path UInt8)
    (nextPartial : Nat → Nat) (actions : List Action) (hfs : fs.Numbered)
    (hapart : Runs.Along (State.step sha256) Apart (State.start fs nextPartial) actions) :
    (∀ front id outcome back, actions = front ++ .step id outcome :: back →
      ∀ e e', (Runs.run (State.step sha256) (State.start fs nextPartial) front).exports id =
          some e →
        e.stage.result = none →
        (Runs.run (State.step sha256) (State.start fs nextPartial)
          (front ++ [.step id outcome])).exports id = some e' →
        e'.call = e.call ∧
          AllOrNothing sha256 e e'.stage outcome
            (Runs.run (State.step sha256) (State.start fs nextPartial) front).fs
            (Runs.run (State.step sha256) (State.start fs nextPartial)
              (front ++ [.step id outcome])).fs) ∧
      ∀ id e n,
        (Runs.run (State.step sha256) (State.start fs nextPartial) actions).exports id =
            some e →
          e.stage.result = some (.ok n) →
          ∃ front outcome back target bytes, actions = front ++ .step id outcome :: back ∧
            e.call.target = some target ∧ e.call.Gives sha256 bytes ∧ n = bytes.length ∧
            (Runs.run (State.step sha256) (State.start fs nextPartial)
              (front ++ [.step id outcome])).fs.read target = some bytes := by
  have hinv : ∀ {front action back}, actions = front ++ action :: back →
      Inv sha256 (Runs.run (State.step sha256) (State.start fs nextPartial) front) := by
    rintro front action back rfl
    exact inv_run hfs (Runs.along_append.1 hapart).1
  constructor
  · intro front id outcome back hactions e e' he hrunning he'
    simp only [Runs.run_append, Runs.run_cons, Runs.run_nil] at he' ⊢
    exact step_allOrNothing (hinv hactions) he hrunning he'
  · intro id e n he hresult
    have hstart : (State.start fs nextPartial).exports id ≠ some e := nofun
    obtain ⟨front, action, back, hactions, hbefore, hafter⟩ :=
      Runs.exists_step_of_run (P := fun s : State => s.exports id = some e) hstart he
    have hstage : e.stage ≠ .naming 0 := by
      intro h
      rw [h] at hresult
      cases hresult
    obtain ⟨outcome, rfl⟩ := exports_of_ne hafter hbefore hstage
    have hfront := hinv hactions
    cases hf : (Runs.run (State.step sha256) (State.start fs nextPartial) front).exports id with
    | none =>
        simp only [State.step, hf] at hafter
        cases hafter
    | some f =>
        cases hrunning : f.stage.result with
        | some result =>
            rw [step_of_result hf hrunning] at hafter
            exact absurd hafter hbefore
        | none =>
            obtain ⟨hcall, hall⟩ := step_allOrNothing hfront hf hrunning hafter
            obtain ⟨target, bytes, htarget, hgives, hn, hread⟩ := hall.returnsOk n hresult
            rw [← hcall] at htarget hgives
            refine ⟨front, outcome, back, target, bytes, hactions, htarget, hgives, hn, ?_⟩
            simpa only [Runs.run_append, Runs.run_cons, Runs.run_nil] using hread

end Together

/-- One byte is exported over a file that is there, and its hash is asked for. -/
def oneByte : Call where
  pid := 1
  shownTarget := "d/x"
  target := some ⟨"d".toList, "x".toList⟩
  source := [.ok [97], .ok []]
  fileSize := 1
  sha256Hex :=
    some "CA978112CA1BBDCAFAC231B39A23DC4DA786EFF8147C4E72B9807785AFEE48BB".toList

def oneFile : FileSystem Path UInt8 where
  entries path := if path = ⟨"d".toList, "x".toList⟩ then some 0 else none
  contents _ := [7]
  next := 1

/-- The hash of the one byte. -/
def hashOfByte (bytes : List UInt8) : List UInt8 :=
  if bytes = [97] then
    [0xca, 0x97, 0x81, 0x12, 0xca, 0x1b, 0xbd, 0xca, 0xfa, 0xc2, 0x31, 0xb3, 0x9a, 0x23, 0xdc,
      0x4d, 0xa7, 0x86, 0xef, 0xf8, 0x14, 0x7c, 0x4e, 0x72, 0xb9, 0x80, 0x77, 0x85, 0xaf, 0xee,
      0x48, 0xbb]
  else
    []

theorem exports_all_or_nothing_of_oneByte :
    ∃ front outcome back target bytes,
      Action.begin 0 oneByte :: List.replicate 6 (.step 0 .works) =
          front ++ .step 0 outcome :: back ∧
        oneByte.target = some target ∧ oneByte.Gives hashOfByte bytes ∧ 1 = bytes.length ∧
        (Runs.run (State.step hashOfByte) (State.start oneFile fun _ => 0)
          (front ++ [.step 0 outcome])).fs.read target = some bytes :=
  (exports_all_or_nothing hashOfByte oneFile (fun _ => 0)
    (.begin 0 oneByte :: List.replicate 6 (.step 0 .works))
    (by
      intro path file h
      simp only [oneFile] at h ⊢
      split at h
      · cases h
        decide
      · cases h)
    (apart_alone (fun other (_ : other ≠ 0) => rfl) (by simp [Action.id]))).2
    0 { call := oneByte, stage := .done (.ok 1) } 1 (by rfl) rfl

def toX : Call where
  pid := 1
  shownTarget := "d/x"
  target := some ⟨"d".toList, "x".toList⟩
  source := [.ok [97], .ok []]
  fileSize := 1
  sha256Hex := none

/-- The target is the name that the other export takes for its own file. -/
def toItsPartial : Call where
  pid := 2
  shownTarget := "d/x.partial.1-0"
  target := some ⟨"d".toList, "x.partial.1-0".toList⟩
  source := [.ok [98], .ok []]
  fileSize := 1
  sha256Hex := none

def crossingExports : List Action :=
  .begin 0 toX :: List.replicate 5 (.step 0 .works) ++
    .begin 1 toItsPartial :: List.replicate 6 (.step 1 .works)

/-- The second export replaces the file of the first, which then renames the
bytes of the second to its target. -/
theorem crossing_exports_mix :
    ∃ e : Export, e.stage.result = none ∧
      (Runs.run (State.step hashOfByte) (State.start oneFile fun _ => 0)
        crossingExports).exports 0 = some e ∧
      (Runs.run (State.step hashOfByte) (State.start oneFile fun _ => 0)
        (crossingExports ++ [.step 0 .works])).exports 0 =
          some { call := toX, stage := .done (.ok 1) } ∧
      sourceBytes toX.source = some [97] ∧
      (Runs.run (State.step hashOfByte) (State.start oneFile fun _ => 0)
        (crossingExports ++ [.step 0 .works])).fs.read ⟨"d".toList, "x".toList⟩ = some [98] ∧
      ¬ AllOrNothing hashOfByte e (.done (.ok 1)) .works
        (Runs.run (State.step hashOfByte) (State.start oneFile fun _ => 0) crossingExports).fs
        (Runs.run (State.step hashOfByte) (State.start oneFile fun _ => 0)
          (crossingExports ++ [.step 0 .works])).fs := by
  refine ⟨⟨toX, .replacing ⟨"d".toList, "x".toList⟩ ⟨⟨"d".toList, "x.partial.1-0".toList⟩, 1⟩
    [97]⟩, rfl, by rfl, by rfl, by rfl, by rfl, ?_⟩
  intro h
  obtain ⟨target, bytes, htarget, hgives, -, hread⟩ := h.returnsOk 1 rfl
  cases htarget
  have hsame : some bytes = some [98] := hread.symm.trans (by rfl)
  rw [Option.some.inj hsame] at hgives
  cases hgives.source

end Exports
end WbfMatrixClient
