import WbfMatrixClient.DownloadSteps
import WbfMatrixClient.Lib.Runs

/-!
# Why a download is thrown away

A file that was started is thrown away when the server describes another file, when a
chunk is broken and broken again, and when the server refuses the file. A chunk that was
asked for by a seek alone may come back when a download has opened the file and has not
checked its description yet, and then the file is thrown away as well, with all that was
downloaded before.
-/

namespace WbfMatrixClient
namespace DownloadQueue

/-- A reason to throw a file away. -/
def Cause.IsReason : Cause → Prop
  | .infoMismatch | .chunkBroken | .refused => True
  | _ => False

def Frame.HasReason (frame : Frame) : Prop :=
  ∀ cause, frame.cause = some cause → cause.IsReason

/-- Whatever is thrown away, or is about to be, there is a reason for. -/
structure Reasoned (s : State) : Prop where
  frames : ∀ id, ∀ frame ∈ (s.handlers id).frames, frame.HasReason
  discards : ∀ cause ∈ s.discards, cause.IsReason

theorem reasoned_start : Reasoned .start where
  frames := fun _ _ h => absurd h List.not_mem_nil
  discards := fun _ h => absurd h List.not_mem_nil

/-- No chunk comes to a file that is open and whose description was not checked, no
description is unreadable twice, and the file can be written and moved into the pool. -/
def KeepsProgress (s : State) : Action → Prop
  | .handleReply id (.chunk mxc _) (.chunk _ _) => (s.handlers id).opened mxc ≠ some false
  | .handleReply id (.info mxc) .broken =>
      (s.handlers id).opened mxc = none ∨
        ∀ entry ∈ (s.handlers id).inFlight, entry.request = .info mxc → entry.retries.badReplies = 0
  | .run id .error =>
      ∀ mxc rest, (s.handlers id).frames ≠ .continueMain mxc :: rest ∧
        (s.handlers id).frames ≠ .adopt mxc :: rest
  | _ => True

section Steps

variable {s s' : State} {id : Nat} {h' : Handler}

theorem hasReason_of_none {frame : Frame} (h : frame.cause = none) : frame.HasReason := by
  intro cause hcause
  rw [h] at hcause
  cases hcause

theorem hasReason_cons {top : Frame} {rest : List Frame} (htop : top.HasReason)
    (hrest : ∀ frame ∈ rest, frame.HasReason) : ∀ frame ∈ top :: rest, frame.HasReason := by
  intro frame hframe
  rcases List.mem_cons.mp hframe with rfl | hframe
  · exact htop
  · exact hrest frame hframe

theorem hasReason_nil : ∀ frame ∈ ([] : List Frame), frame.HasReason :=
  fun _ hframe => absurd hframe List.not_mem_nil

theorem Reasoned.setHandler (h : Reasoned s) (hframes : ∀ frame ∈ h'.frames, frame.HasReason) :
    Reasoned (s.setHandler id h') := by
  refine ⟨fun other frame hframe => ?_, h.discards⟩
  by_cases hsame : other = id
  · subst hsame
    rw [State.setHandler] at hframe
    simp only [Function.update_self] at hframe
    exact hframes frame hframe
  · rw [State.setHandler] at hframe
    simp only [Function.update_of_ne hsame] at hframe
    exact h.frames other frame hframe

theorem Reasoned.goOn (h : Reasoned s) {frames : List Frame}
    (hframes : ∀ frame ∈ frames, frame.HasReason) :
    Reasoned (s.goOn id h' frames) := h.setHandler hframes

theorem Reasoned.touch (h : Reasoned s) (mxc : String) (op : FileOp) :
    Reasoned (s.touch id mxc op) := ⟨h.frames, h.discards⟩

theorem Reasoned.advance (h : Reasoned s) {answer : Answer} {frame : Frame} {rest : List Frame}
    (hframes : (s.handlers id).frames = frame :: rest) (hkeeps : KeepsProgress s (.run id answer)) :
    Reasoned (s.advance id (s.handlers id) answer rest frame) := by
  have hstack := h.frames id
  rw [hframes] at hstack
  have hrest : ∀ other ∈ rest, other.HasReason :=
    fun other hother => hstack other (List.mem_cons_of_mem _ hother)
  have htop : frame.HasReason := hstack frame List.mem_cons_self
  have hquiet : ∀ {top : Frame}, top.cause = none → ∀ other ∈ top :: rest, other.HasReason :=
    fun hcause => hasReason_cons (hasReason_of_none hcause) hrest
  cases hshared : frame.isShared with
  | false =>
    rcases advance_quiet s id answer rest hshared with heq | ⟨s', h', tops, heq, hq⟩
    · rw [heq]
      exact h
    have hmoved : Reasoned s' := by
      refine ⟨by rw [hq.handlers]; exact h.frames, fun cause hcause => ?_⟩
      exact (hq.discards cause hcause).elim (h.discards cause) (htop cause)
    rw [heq]
    refine hmoved.goOn fun other hother => ?_
    rcases List.mem_append.mp hother with hother | hother
    · intro cause hcause
      rcases hq.causes other hother cause hcause with hold | ⟨rfl, hfails⟩
      · exact htop cause hold
      · cases frame with
        | continueMain mxc => exact absurd hframes (hkeeps mxc rest).1
        | adopt mxc => exact absurd hframes (hkeeps mxc rest).2
        | _ => cases hfails
    · exact hrest other hother
  | true =>
    cases frame with
    | takeWaiters | startJob | endJob | closeQueue => exact h.goOn (by exact hquiet rfl)
    | leavePreparing => exact h.goOn (by exact hrest)
    | enqueueInto target mxc waiters =>
      have hgone : Reasoned (s.goOn id (s.handlers id) rest) := h.goOn hrest
      refine hgone.setHandler fun frame hframe => hgone.frames target frame ?_
      simp only [Handler.enqueueInto] at hframe
      split at hframe <;> exact hframe
    | answer jobEnd waiters =>
      have hanswered : Reasoned (s.answerAll jobEnd waiters) := ⟨h.frames, h.discards⟩
      exact hanswered.goOn hrest
    | closeFiles =>
      have hclosed : ∀ claims, Reasoned { s with claims := claims } := fun _ => ⟨h.frames, h.discards⟩
      exact (hclosed _).goOn (by exact hquiet rfl)
    | _ => cases hshared

theorem isReason_of_gives {request : Request} {reply : Reply} {cause : Cause}
    (hkeeps : KeepsProgress s (.handleReply id request reply))
    (h : reply.Gives (s.handlers id) request cause) : cause.IsReason := by
  cases request with
  | info mxc =>
    cases cause with
    | infoUnreadable =>
      obtain ⟨rfl, hopen, entry, hentry, hrequest, hagain⟩ := h
      exact (hkeeps.resolve_left hopen entry hentry hrequest |> hagain).elim
    | _ => exact h
  | chunk mxc index =>
    cases cause with
    | chunkTooEarly =>
      obtain ⟨⟨isNext, stored, rfl⟩, hopen⟩ := h
      exact hkeeps hopen
    | _ => exact h

theorem Reasoned.handleReply (h : Reasoned s) {request : Request} {reply : Reply}
    (hkeeps : KeepsProgress s (.handleReply id request reply)) :
    Reasoned (s.handleReply id (s.handlers id) request reply) := by
  obtain ⟨touched, h', frames, heq, htouched, -, -, hframes⟩ :=
    handleReply_replied s id request reply
  rw [heq]
  have hreason : ∀ frame ∈ frames, frame.HasReason := by
    intro frame hframe
    have hbegins := hframes frame hframe
    cases frame with
    | continueMain => exact hasReason_of_none rfl
    | failMedia => exact fun cause hcause => isReason_of_gives hkeeps (hbegins cause hcause)
    | _ => exact hbegins.elim
  rcases htouched with rfl | ⟨-, op, rfl⟩
  · exact h.goOn hreason
  · exact (h.touch request.mxc op).goOn hreason

theorem Reasoned.step (h : Reasoned s) {action : Action} (hkeeps : KeepsProgress s action) :
    Reasoned (s.step action) := by
  have hone : ∀ {frame : Frame}, frame.cause = none → ∀ other ∈ [frame], other.HasReason :=
    fun hcause => hasReason_cons (hasReason_of_none hcause) hasReason_nil
  cases action with
  | enqueue call id mxc waits =>
    simp only [State.step]
    cases s.calls call with
    | some _ => exact h
    | none => exact ⟨h.frames, h.discards⟩
  | enter call =>
    simp only [State.step]
    split
    · rename_i target mxc waits _
      have hcalled : Reasoned { s with
          calls := Function.update s.calls call
            (some { target := target, mxc := mxc, waits := waits, entered := true }) } :=
        ⟨h.frames, h.discards⟩
      refine hcalled.setHandler fun frame hframe => h.frames target frame ?_
      simp only [Handler.enqueueInto] at hframe
      split at hframe <;> exact hframe
    · exact h
  | cancel id mxc =>
    simp only [State.step, State.cancel]
    split_ifs
    · exact h.setHandler (h.frames id)
    · exact h.setHandler (h.frames id)
    · have hanswered : Reasoned (s.answerAll .cancelled ((s.handlers id).waitersOf mxc)) :=
        ⟨h.frames, h.discards⟩
      exact hanswered.setHandler (h.frames id)
    · exact h
  | stop id => exact h.setHandler (h.frames id)
  | abort id =>
    simp only [State.step]
    split_ifs
    · exact h.goOn (by exact hone rfl)
    · exact h
  | processInbox id =>
    simp only [State.step]
    split
    · exact h.goOn (hasReason_cons (hasReason_of_none rfl) (by exact hone rfl))
    · exact h
  | processSeek id mxc index present =>
    simp only [State.step]
    split
    · split_ifs
      · exact h.goOn hasReason_nil
      · exact h.goOn (by exact hone rfl)
    · exact h
  | handleCancellation id mxc =>
    simp only [State.step]
    split
    · rw [State.handleCancellation]
      cases (s.handlers id).mainRequest mxc with
      | none => exact h.goOn (by exact hone rfl)
      | some entry =>
        simp only
        split_ifs
        · exact h.goOn (by exact hone rfl)
        · exact h.goOn (by exact hone rfl)
        · exact h
    · exact h
  | closeIdle id =>
    simp only [State.step]
    split
    · have hclosed : ∀ claims, Reasoned { s with claims := claims } :=
        fun _ => ⟨h.frames, h.discards⟩
      exact (hclosed _).setHandler (h.frames id)
    · exact h
  | forgetSeek id mxc =>
    simp only [State.step]
    split
    · exact h.setHandler (h.frames id)
    · exact h
  | send id =>
    simp only [State.step]
    split
    · exact h
    · exact h.setHandler (h.frames id)
  | handleReply id request reply =>
    simp only [State.step]
    split
    · split_ifs
      · exact h.handleReply hkeeps
      · exact h
    · exact h
  | run id answer =>
    simp only [State.step]
    split
    · exact h
    · rename_i frame rest hframes
      exact h.advance hframes hkeeps

/-- In every run in which no chunk comes to a file that is open and not checked, no
description is unreadable twice, and files can be written and moved: a file is thrown away
only when the server describes another one or refuses it, or when a chunk was broken again. -/
theorem discards_reasoned (actions : List Action)
    (hkeeps : Runs.Along State.step KeepsProgress .start actions) :
    ∀ cause ∈ (Runs.run State.step .start actions).discards,
      cause = .infoMismatch ∨ cause = .chunkBroken ∨ cause = .refused := by
  intro cause hcause
  have hreason : cause.IsReason :=
    (Runs.run_invariant_along Reasoned (fun _ _ hstep h => Reasoned.step h hstep) actions _ hkeeps
      reasoned_start).discards cause hcause
  cases cause with
  | infoMismatch => exact .inl rfl
  | chunkBroken => exact .inr (.inl rfl)
  | refused => exact .inr (.inr rfl)
  | infoUnreadable | chunkTooEarly | notWritten | notFinished => exact hreason.elim

/-- The server refuses the file after a chunk of it has come. -/
def exampleRefused : List Action :=
  [.enqueue 0 0 "m" true, .enter 0, .processInbox 0, .run 0 .yes, .run 0 .no, .run 0 .yes,
    .run 0 .yes, .run 0 .yes, .run 0 .yes, .run 0 .yes, .run 0 .no, .run 0 .yes, .send 0,
    .handleReply 0 (.info "m") (.info []), .run 0 (.chunk 0), .send 0,
    .handleReply 0 (.chunk "m" 0) (.chunk true true), .run 0 (.chunk 1), .send 0,
    .handleReply 0 (.chunk "m" 1) .refused, .run 0 .yes, .run 0 .yes, .run 0 .yes, .run 0 .yes,
    .run 0 .yes, .run 0 .yes, .run 0 .yes]

theorem discards_reasoned_refused :
    (Runs.run State.step .start exampleRefused).discards ≠ [] ∧
      ∀ cause ∈ (Runs.run State.step .start exampleRefused).discards,
        cause = .infoMismatch ∨ cause = .chunkBroken ∨ cause = .refused := by
  refine ⟨by decide +kernel, discards_reasoned exampleRefused ?_⟩
  refine ⟨trivial, trivial, trivial, trivial, trivial, trivial,
    trivial, trivial, trivial, trivial, trivial, trivial, trivial, trivial, trivial, trivial, ?_,
    trivial, trivial, trivial, trivial, trivial, trivial, trivial, trivial, trivial, trivial, trivial⟩
  change ((_ : Option Bool)) ≠ some false
  decide +kernel

/-- A seek has asked for a chunk, and a download opens the file before it comes. -/
theorem discarded_tooEarly :
    ¬∀ cause ∈ (Runs.run State.step .start
      [.processSeek 0 "m" 0 false, .run 0 .no, .send 0, .handleReply 0 (.info "m") (.info []),
        .send 0, .enqueue 0 0 "m" true, .enter 0, .processInbox 0, .run 0 .yes, .run 0 .no,
        .run 0 .yes, .run 0 .yes, .run 0 .yes, .run 0 .yes, .run 0 .yes, .run 0 .no, .run 0 .yes,
        .handleReply 0 (.chunk "m" 0) (.chunk true true), .run 0 .yes, .run 0 .yes]).discards,
      cause = .infoMismatch ∨ cause = .chunkBroken ∨ cause = .refused := by decide +kernel

end Steps

end DownloadQueue
end WbfMatrixClient
