import WbfMatrixClient.DownloadSteps
import WbfMatrixClient.Lib.Runs

/-!
# One writer for a file

A handler writes the file of a media id from the moment it has the claim on it, and it
gives the claim back when it has closed the file. Throwing a file away comes after that:
the file is deleted and its row is reset when another handler may have opened it again.
-/

namespace WbfMatrixClient
namespace DownloadQueue

open Function

/-- The file that a function works on as the one that has the claim. -/
def Frame.holding : Frame → Option String
  | .beginRow mxc | .openFile mxc | .openFailed mxc | .adopt mxc | .recordFinished mxc
  | .resetUnfinished mxc | .releaseFinished mxc _ => some mxc
  | _ => none

/-- The file that a function works on while it is not among the open ones. -/
def Frame.apart : Frame → Option String
  | .findComplete mxc | .claim mxc => some mxc
  | frame => frame.holding

/-- A function that throws a file away. -/
def Frame.throwsAway : Frame → Bool
  | .discard _ _ | .cacheReset _ => true
  | _ => false

/-- Neither. -/
def Frame.IsPlain (frame : Frame) : Prop :=
  frame.apart = none ∧ frame.throwsAway = false

theorem Frame.holding_apart {frame : Frame} {mxc : String} (h : frame.holding = some mxc) :
    frame.apart = some mxc := by
  cases frame with
  | findComplete other | claim other => cases h
  | _ => exact h

/-- A handler has the claims on what it works on. -/
structure HandlerOk (claims : String → Option Nat) (id : Nat) (h : Handler) : Prop where
  opened : ∀ mxc, (h.opened mxc).isSome → claims mxc = some id
  frames : ∀ frame rest, h.frames = frame :: rest →
    (∀ mxc, frame.holding = some mxc → claims mxc = some id) ∧
      (∀ mxc, frame.apart = some mxc → h.opened mxc = none) ∧
      frame.throwsAway = false ∧ ∀ other ∈ rest, other.IsPlain

structure Owned (s : State) : Prop where
  handlers : ∀ id, HandlerOk s.claims id (s.handlers id)
  steps : ∀ fileStep ∈ s.fileSteps, fileStep.held = true

theorem owned_start : Owned .start where
  handlers := fun id => ⟨fun mxc h => absurd h Bool.false_ne_true, fun frame rest h => by cases h⟩
  steps := fun fileStep h => absurd h List.not_mem_nil

section Moves

variable {claims : String → Option Nat} {id : Nat} {h h' : Handler} {s s' : State}

/-- The handler goes on with functions that have no claim of their own. -/
theorem handlerOk_plain (hopened : ∀ mxc, (h.opened mxc).isSome → claims mxc = some id)
    (hframes : ∀ frame ∈ h.frames, frame.IsPlain) : HandlerOk claims id h := by
  refine ⟨hopened, fun frame rest hcons => ?_⟩
  rw [hcons] at hframes
  obtain ⟨hapart, hthrows⟩ := hframes frame List.mem_cons_self
  refine ⟨fun mxc hheld => ?_, fun mxc happart => ?_, hthrows,
    fun other hother => hframes other (List.mem_cons_of_mem _ hother)⟩
  · rw [Frame.holding_apart hheld] at hapart
    cases hapart
  · rw [happart] at hapart
    cases hapart

/-- One handler moves, and takes or gives back only its own claims. -/
theorem Owned.move (howned : Owned s) (hhandlers : s'.handlers = update s.handlers id h')
    (hclaims : ∀ mxc other, other ≠ id → s.claims mxc = some other → s'.claims mxc = some other)
    (hok : HandlerOk s'.claims id h')
    (hsteps : ∀ fileStep ∈ s'.fileSteps, fileStep ∈ s.fileSteps ∨ fileStep.held = true) :
    Owned s' := by
  constructor
  case handlers =>
    intro other
    by_cases hsame : other = id
    · subst hsame
      rw [hhandlers, update_self]
      exact hok
    · rw [hhandlers, update_of_ne hsame]
      obtain ⟨hopened, hframes⟩ := howned.handlers other
      refine ⟨fun mxc hopen => hclaims mxc other hsame (hopened mxc hopen), ?_⟩
      intro frame rest hcons
      obtain ⟨hheld, hrest⟩ := hframes frame rest hcons
      exact ⟨fun mxc hholding => hclaims mxc other hsame (hheld mxc hholding), hrest⟩
  case steps =>
    intro fileStep hstep
    rcases hsteps fileStep hstep with hold | hheld
    · exact howned.steps fileStep hold
    · exact hheld

/-- The handler goes on, with the same claims and files. -/
theorem Owned.goOn (howned : Owned s)
    (hopened : ∀ other, (h'.opened other).isSome → ((s.handlers id).opened other).isSome)
    {frames : List Frame} (hframes : ∀ frame ∈ frames, frame.IsPlain) :
    Owned (s.goOn id h' frames) :=
  howned.move rfl (fun _ _ _ hclaim => hclaim)
    (handlerOk_plain (fun other hopen => (howned.handlers id).opened other (hopened other hopen))
      hframes)
    fun _ hstep => .inl hstep

/-- A file is touched that the handler has the claim on. -/
theorem Owned.touch (howned : Owned s) {mxc : String} (hclaim : s.claims mxc = some id)
    (op : FileOp) : Owned (s.touch id mxc op) := by
  refine ⟨howned.handlers, fun fileStep hstep => ?_⟩
  rcases List.mem_append.mp hstep with hold | hnew
  · exact howned.steps fileStep hold
  · rw [List.mem_singleton.mp hnew]
    exact decide_eq_true hclaim

variable {mxc : String}

theorem release_other {other' : String} {other : Nat} (hne : other ≠ id)
    (hclaim : s.claims mxc = some other) : (s.release id other').claims mxc = some other := by
  rw [State.release]
  split_ifs with hheld
  · simp only
    rw [update_of_ne]
    · exact hclaim
    · rintro rfl
      rw [hclaim, Option.some.injEq] at hheld
      exact hne hheld
  · exact hclaim

theorem release_ne {other' : String} (hne : mxc ≠ other') :
    (s.release id other').claims mxc = s.claims mxc := by
  rw [State.release]
  split_ifs
  · exact update_of_ne hne ..
  · rfl

@[simp] theorem release_handlers (mxc : String) : (s.release id mxc).handlers = s.handlers := by
  rw [State.release]
  split_ifs <;> rfl

@[simp] theorem release_fileSteps (mxc : String) : (s.release id mxc).fileSteps = s.fileSteps := by
  rw [State.release]
  split_ifs <;> rfl

/-- A file that is not open any more is given back. -/
theorem Owned.release (howned : Owned s) {mxc : String}
    (hopened : ∀ other, (h'.opened other).isSome → other ≠ mxc ∧ ((s.handlers id).opened
      other).isSome) {frames : List Frame} (hframes : ∀ frame ∈ frames, frame.IsPlain) :
    Owned ((s.release id mxc).goOn id h' frames) := by
  refine howned.move (by rw [State.goOn, State.setHandler, release_handlers])
    (fun other holder hne hclaim => release_other hne hclaim) (handlerOk_plain ?_ hframes) ?_
  · intro other hopen
    obtain ⟨hne, hbefore⟩ := hopened other hopen
    exact (release_ne hne).trans ((howned.handlers id).opened other hbefore)
  · intro fileStep hstep
    exact .inl (by rw [State.goOn, State.setHandler, release_fileSteps] at hstep; exact hstep)

/-- The handler goes on with a function that works on a file apart from the open ones. -/
theorem Owned.goOnApart (howned : Owned s) {frame : Frame} {rest : List Frame}
    (hapart : frame.apart = some mxc) (hthrows : frame.throwsAway = false)
    (hclaim : frame.holding = some mxc → s.claims mxc = some id) (hclosed : h'.opened mxc = none)
    (hopened : ∀ other, (h'.opened other).isSome → ((s.handlers id).opened other).isSome)
    (hrest : ∀ other ∈ rest, other.IsPlain) : Owned (s.goOn id h' (frame :: rest)) := by
  refine howned.move rfl (fun _ _ _ hclaim => hclaim)
    ⟨fun other hopen => (howned.handlers id).opened other (hopened other hopen), ?_⟩
    fun _ hstep => .inl hstep
  intro top below hcons
  cases hcons
  refine ⟨fun other hheld => ?_, fun other hother => ?_, hthrows, hrest⟩
  · have hsame := Frame.holding_apart hheld
    rw [hapart, Option.some.injEq] at hsame
    subst hsame
    exact hclaim hheld
  · rw [hapart, Option.some.injEq] at hother
    subst hother
    exact hclosed

theorem Owned.takeOpen (howned : Owned s) (hopened : h'.opened = (s.handlers id).opened)
    (mxc : String) {frames : List Frame} (hframes : ∀ frame ∈ frames, frame.IsPlain) :
    Owned (s.takeOpen id h' mxc frames) := by
  rw [State.takeOpen]
  cases hopen : h'.opened mxc with
  | none => exact howned.goOn (fun other hother => by rwa [hopened] at hother) hframes
  | some verified =>
    refine howned.release (fun other hother => ?_) hframes
    by_cases hne : other = mxc
    · subst hne
      simp at hother
    · simp only at hother
      rw [update_of_ne hne, hopened] at hother
      exact ⟨hne, hother⟩

end Moves

section Fields

variable (h : Handler)

@[simp] theorem resend_opened (request : Request) (waiters : List Waiting) (retries : Retries) :
    (h.resend request waiters retries).opened = h.opened := rfl

@[simp] theorem dropRequests_opened (mxc : String) : (h.dropRequests mxc).opened = h.opened := rfl

@[simp] theorem dropWaiters_opened (mxc : String) : (h.dropWaiters mxc).opened = h.opened := rfl

@[simp] theorem enqueueInto_opened (mxc : String) (waiters : List Nat) :
    (h.enqueueInto mxc waiters).opened = h.opened := by
  simp only [Handler.enqueueInto]
  split <;> rfl

@[simp] theorem enqueueInto_frames (mxc : String) (waiters : List Nat) :
    (h.enqueueInto mxc waiters).frames = h.frames := by
  simp only [Handler.enqueueInto]
  split <;> rfl

end Fields

/-- No file that is open is thrown away. -/
def KeepsFiles (s : State) : Action → Prop
  | .run id _ => ∀ mxc cause rest,
      (s.handlers id).frames = .failMedia mxc (some cause) :: rest → (s.handlers id).opened mxc = none
  | _ => True

section Steps

variable {s : State}

/-- What is shared changes, and the files stay as they are. -/
theorem Owned.setHandler (howned : Owned s) {id : Nat} {h' : Handler}
    (hopened : h'.opened = (s.handlers id).opened) (hframes : h'.frames = (s.handlers id).frames) :
    Owned (s.setHandler id h') := by
  refine howned.move rfl (fun _ _ _ hclaim => hclaim) ?_ fun _ hstep => .inl hstep
  obtain ⟨hopen, hstack⟩ := howned.handlers id
  refine ⟨by rw [hopened]; exact hopen, ?_⟩
  rw [hframes, hopened]
  exact hstack

theorem Owned.advance (howned : Owned s) {id : Nat} {answer : Answer} {frame : Frame}
    {rest : List Frame} (hframes : (s.handlers id).frames = frame :: rest)
    (hkeeps : KeepsFiles s (.run id answer)) :
    Owned (s.advance id (s.handlers id) answer rest frame) := by
  obtain ⟨hopened, hstack⟩ := howned.handlers id
  obtain ⟨hheld, hapart, hthrows, hrest⟩ := hstack frame rest hframes
  have hsame : ∀ other, ((s.handlers id).opened other).isSome →
      ((s.handlers id).opened other).isSome := fun _ hopen => hopen
  have hcons : ∀ {top : Frame}, top.IsPlain → ∀ other ∈ top :: rest, other.IsPlain := by
    intro top htop other hother
    rcases List.mem_cons.mp hother with rfl | hother
    · exact htop
    · exact hrest other hother
  cases frame with
  | prepareDownload mxc =>
    simp only [State.advance]
    split_ifs
    · exact howned.goOn hsame hrest
    · exact howned.goOn hsame (hcons ⟨rfl, rfl⟩)
    · have hclosed : (s.handlers id).opened mxc = none := by
        rwa [Bool.not_eq_true, Option.isSome_eq_false_iff, Option.isNone_iff_eq_none] at *
      exact howned.goOnApart rfl rfl (fun hheld => by cases hheld) hclosed hsame hrest
  | findComplete mxc =>
    have hclosed : (s.handlers id).opened mxc = none := hapart mxc rfl
    cases answer with
    | yes => exact howned.goOn hsame (hcons ⟨rfl, rfl⟩)
    | no => exact howned.goOnApart rfl rfl (fun hheld => by cases hheld) hclosed hsame hrest
    | _ => exact howned
  | claim mxc =>
    have hclosed : (s.handlers id).opened mxc = none := hapart mxc rfl
    simp only [State.advance]
    split_ifs with hfree
    · rw [State.claim]
      cases hclaim : s.claims mxc with
      | some holder =>
        rw [hclaim] at hfree
        obtain rfl : holder = id := of_decide_eq_true hfree
        exact howned.goOnApart rfl rfl (fun _ => hclaim) hclosed hsame hrest
      | none =>
        refine howned.move rfl (fun other holder _ hother => ?_) ⟨fun other hopen => ?_, ?_⟩
          fun _ hstep => .inl hstep
        · have hne : other ≠ mxc := by
            rintro rfl
            rw [hclaim] at hother
            cases hother
          exact (update_of_ne hne ..).trans hother
        · have hne : other ≠ mxc := by
            rintro rfl
            simp only at hopen
            rw [hclosed] at hopen
            cases hopen
          exact (update_of_ne hne ..).trans (hopened other hopen)
        · intro top below hcons
          cases hcons
          refine ⟨fun other hheld => ?_, fun other hother => ?_, rfl, hrest⟩
          · cases hheld
            exact update_self ..
          · cases hother
            exact hclosed
    · exact howned.goOn hsame (hcons ⟨rfl, rfl⟩)
  | beginRow mxc =>
    have hclaim : s.claims mxc = some id := hheld mxc rfl
    have hclosed : (s.handlers id).opened mxc = none := hapart mxc rfl
    cases answer with
    | yes | error => exact howned.goOnApart rfl rfl (fun _ => hclaim) hclosed hsame hrest
    | _ => exact howned
  | openFile mxc =>
    have hclaim : s.claims mxc = some id := hheld mxc rfl
    have hclosed : (s.handlers id).opened mxc = none := hapart mxc rfl
    cases answer with
    | yes =>
      refine (howned.touch hclaim .openFile).move rfl (fun _ _ _ hclaim => hclaim)
        (handlerOk_plain (fun other hopen => ?_) (hcons ⟨rfl, rfl⟩)) fun _ hstep => .inl hstep
      by_cases hne : other = mxc
      · subst hne
        exact hclaim
      · simp only at hopen
        rw [update_of_ne hne] at hopen
        exact hopened other hopen
    | error =>
      exact (howned.touch hclaim .openFile).goOnApart rfl rfl (fun _ => hclaim) hclosed hsame hrest
    | _ => exact howned
  | openFailed mxc =>
    have hclosed : (s.handlers id).opened mxc = none := hapart mxc rfl
    simp only [State.advance]
    refine howned.release (fun other hopen => ?_) ?_
    · refine ⟨?_, hopen⟩
      rintro rfl
      simp only at hopen
      rw [hclosed] at hopen
      cases hopen
    · exact hcons ⟨rfl, rfl⟩
  | refusedClaim mxc | opened mxc =>
    simp only [State.advance]
    split_ifs <;> exact howned.goOn hsame (hcons ⟨rfl, rfl⟩)
  | handOver mxc =>
    simp only [State.advance]
    cases s.findOtherDownloader id mxc <;> exact howned.goOn hsame (by exact hcons ⟨rfl, rfl⟩)
  | takeWaiters target mxc | startJob mxc | endJob mxc jobEnd | closeQueue =>
    simp only [State.advance]
    exact howned.goOn (by simp) (by exact hcons ⟨rfl, rfl⟩)
  | enqueueInto target mxc waiters =>
    exact (howned.goOn hsame hrest).setHandler (enqueueInto_opened ..) (enqueueInto_frames ..)
  | leavePreparing mxc | answerSeeks mxc =>
    simp only [State.advance]
    exact howned.goOn (by simp) hrest
  | continueMain mxc =>
    simp only [State.advance]
    cases (s.handlers id).downloading mxc with
    | none => exact howned.goOn hsame hrest
    | some cancelled =>
      cases cancelled with
      | true => exact howned.goOn hsame (hcons ⟨rfl, rfl⟩)
      | false =>
        cases hopen : (s.handlers id).opened mxc with
        | none => exact howned.goOn hsame (hcons ⟨rfl, rfl⟩)
        | some verified =>
          have hclaim : s.claims mxc = some id := hopened mxc (by rw [hopen]; rfl)
          simp only
          split_ifs
          · exact howned.goOn hsame (hcons ⟨rfl, rfl⟩)
          · exact howned.goOn (fun other hother => by simpa using hother) hrest
          · cases answer with
            | moved => exact (howned.touch hclaim .write).goOn hsame (hcons ⟨rfl, rfl⟩)
            | error => exact (howned.touch hclaim .write).goOn hsame (hcons ⟨rfl, rfl⟩)
            | chunk index =>
              exact howned.goOn (fun other hother => by simpa using hother) hrest
            | _ => exact howned
  | finishJob mxc =>
    simp only [State.advance]
    cases hopen : (s.handlers id).opened mxc with
    | none => exact howned.goOn hsame hrest
    | some verified =>
      refine howned.goOnApart rfl rfl (fun _ => hopened mxc (by rw [hopen]; rfl)) (by simp)
        (fun other hother => ?_) hrest
      by_cases hne : other = mxc
      · subst hne
        simp at hother
      · simp only at hother
        rwa [update_of_ne hne] at hother
  | adopt mxc =>
    have hclaim : s.claims mxc = some id := hheld mxc rfl
    have hclosed : (s.handlers id).opened mxc = none := hapart mxc rfl
    cases answer with
    | yes | error =>
      exact (howned.touch hclaim .move).goOnApart rfl rfl (fun _ => hclaim) hclosed hsame hrest
    | _ => exact howned
  | recordFinished mxc =>
    have hclaim : s.claims mxc = some id := hheld mxc rfl
    have hclosed : (s.handlers id).opened mxc = none := hapart mxc rfl
    cases answer with
    | yes | error => exact howned.goOnApart rfl rfl (fun _ => hclaim) hclosed hsame hrest
    | _ => exact howned
  | resetUnfinished mxc =>
    have hclaim : s.claims mxc = some id := hheld mxc rfl
    have hclosed : (s.handlers id).opened mxc = none := hapart mxc rfl
    have htouched : Owned { s.touch id mxc .reset with discards := s.discards ++ [.notFinished] } :=
      ⟨howned.handlers, (howned.touch hclaim .reset).steps⟩
    simp only [State.advance]
    exact htouched.goOnApart rfl rfl (fun _ => hclaim) hclosed hsame hrest
  | releaseFinished mxc jobEnd =>
    have hclosed : (s.handlers id).opened mxc = none := hapart mxc rfl
    refine howned.release (fun other hopen => ⟨?_, hopen⟩) ?_
    · rintro rfl
      rw [hclosed] at hopen
      cases hopen
    · intro other hother
      rcases List.mem_cons.mp hother with rfl | hother
      · exact ⟨rfl, rfl⟩
      · exact hcons ⟨rfl, rfl⟩ other hother
  | failMedia mxc discard =>
    simp only [State.advance]
    cases discard with
    | none =>
      have hdropped := dropRequests_opened (s.handlers id) mxc
      cases hopen : ((s.handlers id).dropRequests mxc).opened mxc with
      | none | some verified => exact howned.takeOpen hdropped mxc (hcons ⟨rfl, rfl⟩)
    | some cause =>
      have hdropped := dropRequests_opened (s.handlers id) mxc
      rw [hdropped, hkeeps mxc cause rest hframes]
      exact howned.takeOpen hdropped mxc (hcons ⟨rfl, rfl⟩)
  | discard mxc cause | cacheReset mxc => cases hthrows
  | endIfRunning mxc =>
    simp only [State.advance]
    split_ifs
    · exact howned.goOn hsame (hcons ⟨rfl, rfl⟩)
    · exact howned.goOn hsame hrest
  | closeCancelled mxc jobEnd waiters =>
    simp only [State.advance]
    split_ifs
    · exact howned.takeOpen rfl mxc (hcons ⟨rfl, rfl⟩)
    · exact howned.goOn hsame (hcons ⟨rfl, rfl⟩)
  | answer jobEnd waiters =>
    have hanswered : Owned (s.answerAll jobEnd waiters) := ⟨howned.handlers, howned.steps⟩
    exact hanswered.goOn hsame hrest
  | seekComplete mxc index =>
    cases answer with
    | yes => exact howned.goOn hsame hrest
    | no => exact howned.goOn (fun other hother => by simpa using hother) hrest
    | _ => exact howned
  | closeFiles =>
    simp only [State.advance]
    refine howned.move rfl (fun mxc other hne hclaim => ?_)
      (handlerOk_plain (fun other hopen => by cases hopen) (hcons ⟨rfl, rfl⟩))
      fun _ hstep => .inl hstep
    refine (if_neg ?_).trans hclaim
    rintro ⟨hmine, _⟩
    rw [hclaim, Option.some.injEq] at hmine
    exact hne hmine

theorem Owned.closeIdle (howned : Owned s) {id : Nat} (hframes : (s.handlers id).frames = []) :
    Owned ({ s with
      claims := fun mxc =>
        if s.claims mxc = some id ∧ (s.handlers id).isIdle mxc then none else s.claims mxc }.setHandler
      id { s.handlers id with
        opened := fun mxc =>
          if (s.handlers id).isIdle mxc then none else (s.handlers id).opened mxc }) := by
  obtain ⟨hopened, hstack⟩ := howned.handlers id
  refine howned.move rfl (fun mxc other hne hclaim => ?_) ⟨fun mxc hopen => ?_, ?_⟩
    fun _ hstep => .inl hstep
  · refine (if_neg ?_).trans hclaim
    rintro ⟨hmine, _⟩
    rw [hclaim, Option.some.injEq] at hmine
    exact hne hmine
  · simp only at hopen
    split_ifs at hopen with hidle
    · cases hopen
    · exact (if_neg fun hboth => hidle hboth.2).trans (hopened mxc hopen)
  · intro frame rest hcons
    rw [hframes] at hcons
    cases hcons

theorem Frame.Begins.isPlain {gives : Cause → Prop} {frame : Frame} (h : frame.Begins gives) :
    frame.IsPlain := by
  cases frame with
  | continueMain | failMedia => exact ⟨rfl, rfl⟩
  | _ => exact h.elim

theorem Owned.handleReply (howned : Owned s) (id : Nat) (request : Request) (reply : Reply) :
    Owned (s.handleReply id (s.handlers id) request reply) := by
  obtain ⟨touched, h', frames, heq, htouched, -, hopened, hframes⟩ :=
    handleReply_replied s id request reply
  rw [heq]
  have hopen : ∀ other, (h'.opened other).isSome → ((s.handlers id).opened other).isSome :=
    fun other hother => by rwa [← hopened]
  have hplain : ∀ frame ∈ frames, frame.IsPlain := fun frame hframe => (hframes frame hframe).isPlain
  rcases htouched with rfl | ⟨hsome, op, rfl⟩
  · exact howned.goOn hopen hplain
  · exact (howned.touch ((howned.handlers id).opened _ hsome) op).goOn hopen hplain

theorem Owned.step (howned : Owned s) {action : Action} (hkeeps : KeepsFiles s action) :
    Owned (s.step action) := by
  have hnil : ∀ frame ∈ ([] : List Frame), frame.IsPlain := fun _ hframe => absurd hframe List.not_mem_nil
  have hone : ∀ {frame : Frame}, frame.IsPlain → ∀ other ∈ [frame], other.IsPlain := by
    intro frame hframe other hother
    rw [List.mem_singleton.mp hother]
    exact hframe
  cases action with
  | enqueue call id mxc waits =>
    simp only [State.step]
    cases s.calls call with
    | some _ => exact howned
    | none => exact ⟨howned.handlers, howned.steps⟩
  | enter call =>
    simp only [State.step]
    split
    · rename_i target mxc waits _
      have hcalled : Owned { s with
          calls := update s.calls call
            (some { target := target, mxc := mxc, waits := waits, entered := true }) } :=
        ⟨howned.handlers, howned.steps⟩
      exact hcalled.setHandler (enqueueInto_opened ..) (enqueueInto_frames ..)
    · exact howned
  | cancel id mxc =>
    simp only [State.step, State.cancel]
    split_ifs
    · exact howned.setHandler rfl rfl
    · exact howned.setHandler rfl rfl
    · have hanswered : Owned (s.answerAll .cancelled ((s.handlers id).waitersOf mxc)) :=
        ⟨howned.handlers, howned.steps⟩
      exact hanswered.setHandler rfl rfl
    · exact howned
  | stop id => exact howned.setHandler rfl rfl
  | abort id =>
    simp only [State.step]
    split_ifs
    · exact howned.goOn (by simp) (by exact hone ⟨rfl, rfl⟩)
    · exact howned
  | processInbox id =>
    simp only [State.step]
    split
    · refine howned.goOn (by simp) fun frame hframe => ?_
      rcases List.mem_cons.mp hframe with rfl | hframe
      · exact ⟨rfl, rfl⟩
      · exact hone ⟨rfl, rfl⟩ frame hframe
    · exact howned
  | processSeek id mxc index present =>
    simp only [State.step]
    split
    · split_ifs
      · exact howned.goOn (by simp) hnil
      · exact howned.goOn (by simp) (by exact hone ⟨rfl, rfl⟩)
    · exact howned
  | handleCancellation id mxc =>
    simp only [State.step]
    split
    · rw [State.handleCancellation]
      cases (s.handlers id).mainRequest mxc with
      | none => exact howned.goOn (by simp) (by exact hone ⟨rfl, rfl⟩)
      | some entry =>
        simp only
        split_ifs
        · exact howned.goOn (by simp) (by exact hone ⟨rfl, rfl⟩)
        · exact howned.goOn (by simp) (by exact hone ⟨rfl, rfl⟩)
        · exact howned
    · exact howned
  | closeIdle id =>
    simp only [State.step]
    split
    · rename_i hframes _
      exact howned.closeIdle hframes
    · exact howned
  | forgetSeek id mxc =>
    simp only [State.step]
    split
    · exact howned.setHandler rfl rfl
    · exact howned
  | send id =>
    simp only [State.step]
    split
    · exact howned
    · exact howned.setHandler rfl rfl
  | handleReply id request reply =>
    simp only [State.step]
    split
    · split_ifs
      · exact howned.handleReply id request reply
      · exact howned
    · exact howned
  | run id answer =>
    simp only [State.step]
    split
    · exact howned
    · rename_i frame rest hframes
      exact howned.advance hframes hkeeps

/-- In every run in which no open file is thrown away, a file is only written, moved or
deleted, and its row reset, by the handler that has the claim on it. -/
theorem fileSteps_held (actions : List Action)
    (hkeeps : Runs.Along State.step KeepsFiles .start actions) :
    ∀ fileStep ∈ (Runs.run State.step .start actions).fileSteps, fileStep.held = true :=
  (Runs.run_invariant_along Owned (fun _ _ hstep h => Owned.step h hstep) actions _ hkeeps
    owned_start).steps

/-- No two handlers have one file open, and only the holder of a claim has a file open. -/
theorem open_in_one_handler (actions : List Action)
    (hkeeps : Runs.Along State.step KeepsFiles .start actions) :
    let s := Runs.run State.step .start actions
    ∀ id mxc, ((s.handlers id).opened mxc).isSome = true →
      s.claims mxc = some id ∧
        ∀ other, ((s.handlers other).opened mxc).isSome = true → other = id := by
  have howned := Runs.run_invariant_along Owned (fun _ _ hstep h => Owned.step h hstep) actions _
    hkeeps owned_start
  intro s id mxc hopen
  have hclaim := (howned.handlers id).opened mxc hopen
  refine ⟨hclaim, fun other hother => ?_⟩
  exact Option.some.inj (((howned.handlers other).opened mxc hother).symm.trans hclaim)

/-- The handler is about to throw a file away. -/
def throwsNext (s : State) (id : Nat) : Bool :=
  match (s.handlers id).frames with
  | .failMedia _ (some _) :: _ => true
  | _ => false

theorem keepsFiles_run {id : Nat} {answer : Answer} (h : throwsNext s id = false) :
    KeepsFiles s (.run id answer) := by
  intro mxc cause rest hframes
  rw [throwsNext, hframes] at h
  cases h

/-- A file of one chunk is downloaded. -/
def exampleDownload : List Action :=
  [.enqueue 0 0 "m" true, .enter 0, .processInbox 0, .run 0 .yes, .run 0 .no, .run 0 .yes,
    .run 0 .yes, .run 0 .yes, .run 0 .yes, .run 0 .yes, .run 0 .no, .run 0 .yes, .send 0,
    .handleReply 0 (.info "m") (.info []), .run 0 (.chunk 0), .send 0,
    .handleReply 0 (.chunk "m" 0) (.chunk true true), .run 0 .written, .run 0 .yes, .run 0 .yes,
    .run 0 .yes, .run 0 .yes, .run 0 .yes, .run 0 .yes, .run 0 .yes, .run 0 .yes]

theorem fileSteps_held_download :
    (Runs.run State.step .start exampleDownload).fileSteps ≠ [] ∧
      ∀ fileStep ∈ (Runs.run State.step .start exampleDownload).fileSteps, fileStep.held = true := by
  refine ⟨by decide +kernel, fileSteps_held exampleDownload ⟨trivial, trivial, trivial, ?_⟩⟩
  refine ⟨keepsFiles_run ?_, keepsFiles_run ?_, keepsFiles_run ?_, keepsFiles_run ?_,
    keepsFiles_run ?_, keepsFiles_run ?_, keepsFiles_run ?_, keepsFiles_run ?_, keepsFiles_run ?_,
    trivial, trivial, keepsFiles_run ?_, trivial, trivial, keepsFiles_run ?_, keepsFiles_run ?_,
    keepsFiles_run ?_, keepsFiles_run ?_, keepsFiles_run ?_, keepsFiles_run ?_, keepsFiles_run ?_,
    keepsFiles_run ?_, keepsFiles_run ?_, trivial⟩ <;>
    decide +kernel

theorem open_in_one_handler_download :
    (Runs.run State.step .start (exampleDownload.take 8)).claims "m" = some 0 := by
  refine (open_in_one_handler (exampleDownload.take 8) ⟨trivial, trivial, trivial, keepsFiles_run ?_,
    keepsFiles_run ?_, keepsFiles_run ?_, keepsFiles_run ?_, keepsFiles_run ?_, trivial⟩ 0 "m" ?_).1 <;>
    decide +kernel

/-- The server refuses the file. The claim is given back, another handler opens the file,
and then it is deleted. -/
theorem deletes_unclaimed :
    ¬∀ fileStep ∈ (Runs.run State.step .start
      [.enqueue 0 0 "m" true, .enter 0, .processInbox 0, .run 0 .yes, .run 0 .no, .run 0 .yes,
        .run 0 .yes, .run 0 .yes, .run 0 .yes, .run 0 .yes, .run 0 .no, .run 0 .yes, .send 0,
        .handleReply 0 (.info "m") .refused, .run 0 .yes, .enqueue 1 1 "m" true, .enter 1,
        .processInbox 1, .run 1 .yes, .run 1 .no, .run 1 .yes, .run 1 .yes, .run 1 .yes,
        .run 0 .yes]).fileSteps, fileStep.held = true := by decide +kernel

end Steps

end DownloadQueue
end WbfMatrixClient
