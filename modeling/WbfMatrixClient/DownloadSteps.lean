import WbfMatrixClient.DownloadQueue

/-!
# What a step of a download can do

What a handler does with a reply, and what the function on top of it does next, is said once
here, for all that is proved of the handlers.
-/

namespace WbfMatrixClient
namespace DownloadQueue

open State

/-- What a handler shares with its callers is the same. -/
structure Alike (h h' : Handler) : Prop where
  inbox : h'.inbox = h.inbox
  preparing : h'.preparing = h.preparing
  downloading : h'.downloading = h.downloading
  waiters : h'.waiters = h.waiters
  closed : h'.closed = h.closed

section Fields

variable {h' h'' : Handler} (h : Handler)

theorem alike_refl {h : Handler} : Alike h h := ⟨rfl, rfl, rfl, rfl, rfl⟩

theorem Alike.trans {h : Handler} (h₁ : Alike h h') (h₂ : Alike h' h'') : Alike h h'' :=
  ⟨h₂.inbox.trans h₁.inbox, h₂.preparing.trans h₁.preparing, h₂.downloading.trans h₁.downloading,
    h₂.waiters.trans h₁.waiters, h₂.closed.trans h₁.closed⟩

theorem want_alike (request : Request) (waiting : Waiting) (atFront : Bool) :
    Alike h (h.want request waiting atFront) := by
  rw [Handler.want]
  split_ifs <;> exact ⟨rfl, rfl, rfl, rfl, rfl⟩

@[simp] theorem want_opened (request : Request) (waiting : Waiting) (atFront : Bool) :
    (h.want request waiting atFront).opened = h.opened := by
  rw [Handler.want]
  split_ifs <;> rfl

/-- A seek asks for something, or for nothing. -/
theorem requestSeekChunk_cases (mxc : String) (index : Nat) (present : Bool) :
    h.requestSeekChunk mxc index present = h ∨ ∃ request,
      h.requestSeekChunk mxc index present = h.want request (.seek index) true := by
  rw [Handler.requestSeekChunk]
  cases h.opened mxc with
  | some verified =>
    cases present with
    | true => exact .inl rfl
    | false => exact .inr ⟨_, rfl⟩
  | none =>
    cases h.seekOnly mxc with
    | some verified => exact .inr ⟨_, rfl⟩
    | none => exact .inl rfl

theorem requestSeekChunk_alike (mxc : String) (index : Nat) (present : Bool) :
    Alike h (h.requestSeekChunk mxc index present) := by
  rcases requestSeekChunk_cases h mxc index present with hnone | ⟨request, hasked⟩
  · rw [hnone]
    exact alike_refl
  · rw [hasked]
    exact want_alike ..

@[simp] theorem requestSeekChunk_opened (mxc : String) (index : Nat) (present : Bool) :
    (h.requestSeekChunk mxc index present).opened = h.opened := by
  rcases requestSeekChunk_cases h mxc index present with hnone | ⟨request, hasked⟩
  · rw [hnone]
  · rw [hasked, want_opened]

theorem requestSeeks_alike (mxc : String) (present : List Nat) (waiters : List Waiting) :
    Alike h (h.requestSeeks mxc present waiters) := by
  induction waiters generalizing h with
  | nil => exact alike_refl
  | cons waiting waiters ih =>
    cases waiting with
    | main => exact ih h
    | seek index => exact (requestSeekChunk_alike ..).trans (ih _)

@[simp] theorem requestSeeks_opened (mxc : String) (present : List Nat) (waiters : List Waiting) :
    (h.requestSeeks mxc present waiters).opened = h.opened := by
  induction waiters generalizing h with
  | nil => rfl
  | cons waiting waiters ih =>
    cases waiting with
    | main => exact ih h
    | seek index => simp [Handler.requestSeeks, ih]

end Fields

/-- Why a reply can have the file of its request thrown away. -/
def Reply.Gives (reply : Reply) (h : Handler) : Request → Cause → Prop
  | .info mxc, .infoUnreadable => reply = .broken ∧ h.opened mxc ≠ none ∧
      ∃ entry ∈ h.inFlight, entry.request = .info mxc ∧ entry.retries.badReplies ≠ 0
  | .chunk mxc _, .chunkTooEarly =>
      (∃ isNext stored, reply = .chunk isNext stored) ∧ h.opened mxc = some false
  | _, .infoMismatch | _, .chunkBroken | _, .refused => True
  | _, _ => False

/-- What a handler begins with when a reply has come: the job goes on, or it fails, and its
file is thrown away for a cause that the reply gives. -/
def Frame.Begins (gives : Cause → Prop) : Frame → Prop
  | .continueMain _ => True
  | .failMedia _ why => ∀ cause, why = some cause → gives cause
  | _ => False

/-- What a handler makes of a reply. The file is written only when it is open, and stays so. -/
def Replied (s : State) (id : Nat) (mxc : String) (gives : Cause → Prop) (s' : State) : Prop :=
  ∃ touched h' frames, s' = goOn touched id h' frames ∧
    (touched = s ∨ ((s.handlers id).opened mxc).isSome ∧ ∃ op, touched = s.touch id mxc op) ∧
    Alike (s.handlers id) h' ∧
    (∀ other, (h'.opened other).isSome = ((s.handlers id).opened other).isSome) ∧
    ∀ frame ∈ frames, frame.Begins gives

section Replies

variable {s : State} {id : Nat} {h h' : Handler} {mxc : String} {gives : Cause → Prop}
  {waiters : List Waiting}

theorem begins_nil : ∀ frame ∈ ([] : List Frame), frame.Begins gives :=
  fun _ hframe => absurd hframe List.not_mem_nil

theorem begins_one {frame : Frame} (hframe : frame.Begins gives) :
    ∀ other ∈ [frame], other.Begins gives := by
  intro other hother
  rw [List.mem_singleton.mp hother]
  exact hframe

theorem begins_mainGoesOn : ∀ frame ∈ mainGoesOn mxc waiters, frame.Begins gives := by
  rw [mainGoesOn]
  split_ifs
  · exact begins_one trivial
  · exact begins_nil

theorem begins_fails : (Frame.failMedia mxc none).Begins gives := fun _ hcause => by cases hcause

theorem begins_throws {cause : Cause} (hcause : gives cause) :
    (Frame.failMedia mxc (some cause)).Begins gives :=
  fun _ hother => Option.some.inj hother ▸ hcause

theorem begins_mainFails : ∀ frame ∈ mainFails mxc waiters, frame.Begins gives := by
  rw [mainFails]
  split_ifs
  · exact begins_one begins_fails
  · exact begins_nil

/-- A file that is open stays so when its description is checked. -/
theorem isSome_update {opened : String → Option Bool} {verified : Bool}
    (hopen : opened mxc = some verified) (other : String) :
    (Function.update opened mxc (some true) other).isSome = (opened other).isSome := by
  rw [Function.update_apply]
  split_ifs with hsame
  · rw [hsame, hopen]
    rfl
  · rfl

variable (halike : Alike (s.handlers id) h) (hopened : h.opened = (s.handlers id).opened)

include halike hopened

theorem Replied.goOn (hnext : Alike h h') (hfiles : h'.opened = h.opened) {frames : List Frame}
    (hframes : ∀ frame ∈ frames, frame.Begins gives) : Replied s id mxc gives (s.goOn id h' frames) :=
  ⟨s, h', frames, rfl, .inl rfl, halike.trans hnext, fun _ => by rw [hfiles, hopened], hframes⟩

variable {entry : InFlight}

theorem infoArrived_replied (hentry : entry ∈ (s.handlers id).inFlight)
    (hrequest : entry.request = .info mxc) (reply : Reply) :
    Replied s id mxc (reply.Gives (s.handlers id) (.info mxc)) (s.infoArrived id h mxc entry reply) := by
  have hends : ∀ {gives h'}, Alike h h' → h'.opened = h.opened →
      Replied s id mxc gives (s.goOn id h' []) := fun hnext hfiles => .goOn halike hopened hnext hfiles begins_nil
  simp only [infoArrived]
  split
  · rename_i hopen
    have hchecked : ∀ opened, Alike h { h with opened := opened } := fun _ => ⟨rfl, rfl, rfl, rfl, rfl⟩
    refine ⟨s, _, _, rfl, .inl rfl, halike.trans ((hchecked _).trans (requestSeeks_alike ..)),
      fun other => ?_, begins_mainGoesOn⟩
    rw [requestSeeks_opened, ← hopened]
    exact isSome_update hopen other
  · rename_i hopen
    split_ifs with hfirst
    · exact hends ⟨rfl, rfl, rfl, rfl, rfl⟩ rfl
    · refine .goOn halike hopened alike_refl rfl
        (begins_one (begins_throws ⟨rfl, ?_, entry, hentry, hrequest, hfirst⟩))
      rw [← hopened, hopen]
      exact Option.some_ne_none _
  · exact .goOn halike hopened alike_refl rfl (begins_one (begins_throws trivial))
  · have hchecked : ∀ seekOnly, Alike h { h with seekOnly := seekOnly } := fun _ => ⟨rfl, rfl, rfl, rfl, rfl⟩
    refine .goOn halike hopened ?_ ?_ begins_mainGoesOn
    · exact (hchecked _).trans (requestSeeks_alike ..)
    · exact requestSeeks_opened ..
  · split_ifs <;> exact hends ⟨rfl, rfl, rfl, rfl, rfl⟩ rfl
  · exact hends ⟨rfl, rfl, rfl, rfl, rfl⟩ rfl
  · exact hends alike_refl rfl

theorem chunkArrived_replied (index : Nat) (reply : Reply) :
    Replied s id mxc (reply.Gives (s.handlers id) (.chunk mxc index))
      (s.chunkArrived id h mxc entry reply) := by
  have hends : ∀ {gives h'}, Alike h h' → h'.opened = h.opened →
      Replied s id mxc gives (s.goOn id h' []) := fun hnext hfiles => .goOn halike hopened hnext hfiles begins_nil
  simp only [chunkArrived]
  split
  · rename_i hopen
    have hwritten : ∀ {gives} op {frames}, (∀ frame ∈ frames, frame.Begins gives) →
        Replied s id mxc gives ((s.touch id mxc op).goOn id h frames) := fun op _ hframes =>
      ⟨_, h, _, rfl, .inr ⟨by rw [← hopened, hopen]; rfl, op, rfl⟩, halike,
        fun _ => by rw [hopened], hframes⟩
    split_ifs
    · exact hwritten .write begins_mainGoesOn
    · exact hwritten .write (begins_one begins_fails)
    · exact hwritten .writeSeek begins_mainGoesOn
  · rename_i isNext stored hopen
    exact .goOn halike hopened alike_refl rfl
      (begins_one (begins_throws ⟨⟨isNext, stored, rfl⟩, by rw [← hopened, hopen]⟩))
  · split_ifs
    · exact hends ⟨rfl, rfl, rfl, rfl, rfl⟩ rfl
    · exact .goOn halike hopened alike_refl rfl (begins_one (begins_throws trivial))
  · exact hends ⟨rfl, rfl, rfl, rfl, rfl⟩ rfl
  · split_ifs <;> exact hends ⟨rfl, rfl, rfl, rfl, rfl⟩ rfl
  · exact hends alike_refl rfl

end Replies

theorem handleReply_replied (s : State) (id : Nat) (request : Request) (reply : Reply) :
    Replied s id request.mxc (reply.Gives (s.handlers id) request)
      (s.handleReply id (s.handlers id) request reply) := by
  have hgoes : ∀ {gives h' frames}, Alike (s.handlers id) h' → h'.opened = (s.handlers id).opened →
      (∀ frame ∈ frames, frame.Begins gives) → Replied s id request.mxc gives (s.goOn id h' frames) :=
    fun hnext hfiles hframes => .goOn alike_refl rfl hnext hfiles hframes
  simp only [handleReply]
  split
  · exact hgoes ⟨rfl, rfl, rfl, rfl, rfl⟩ rfl begins_nil
  · rename_i entry hentry
    have hrequest : entry.request = request := by simpa using List.find?_some hentry
    cases reply with
    | network =>
      simp only
      split_ifs <;> exact hgoes ⟨rfl, rfl, rfl, rfl, rfl⟩ rfl begins_nil
    | timeout | corrupt =>
      simp only
      split_ifs
      · exact hgoes ⟨rfl, rfl, rfl, rfl, rfl⟩ rfl begins_nil
      · exact hgoes ⟨rfl, rfl, rfl, rfl, rfl⟩ rfl begins_mainFails
    | refused =>
      exact hgoes ⟨rfl, rfl, rfl, rfl, rfl⟩ rfl
        (begins_one (begins_throws (by cases request <;> trivial)))
    | other => exact hgoes ⟨rfl, rfl, rfl, rfl, rfl⟩ rfl begins_mainFails
    | info | infoMismatch | chunk | broken =>
      cases request with
      | info mxc =>
        exact infoArrived_replied (by exact ⟨rfl, rfl, rfl, rfl, rfl⟩) (by rfl)
          (List.mem_of_find?_eq_some hentry) hrequest _
      | chunk mxc index =>
        exact chunkArrived_replied (by exact ⟨rfl, rfl, rfl, rfl, rfl⟩) (by rfl) index _

/-- The waiters that a function has taken, to answer them or to hand them over. -/
def Frame.waiting : Frame → List Nat
  | .enqueueInto _ _ waiters | .closeCancelled _ _ waiters | .answer _ waiters => waiters
  | _ => []

/-- The file that a function is about to start the job of, or to end it. -/
def Frame.prepares : Frame → Option String
  | .prepareDownload mxc | .findComplete mxc | .claim mxc | .beginRow mxc | .openFile mxc
  | .openFailed mxc | .refusedClaim mxc | .handOver mxc | .takeWaiters _ mxc | .opened mxc
  | .startJob mxc | .endJob mxc _ => some mxc
  | _ => none

/-- Why the function throws its file away, if it does. -/
def Frame.cause : Frame → Option Cause
  | .failMedia _ why => why
  | .discard _ cause => some cause
  | .resetUnfinished _ => some .notFinished
  | _ => none

/-- A function that changes what the handler shares, or answers callers. -/
def Frame.isShared : Frame → Bool
  | .takeWaiters _ _ | .enqueueInto _ _ _ | .startJob _ | .leavePreparing _ | .endJob _ _
  | .answer _ _ | .closeFiles | .closeQueue => true
  | _ => false

/-- A function that writes or moves the file, which can fail. -/
def Frame.canFail : Frame → Bool
  | .continueMain _ | .adopt _ => true
  | _ => false

attribute [simp] Frame.waiting Frame.prepares Frame.cause Frame.canFail

/-- What callers see stays, and what was thrown away. -/
structure SameShared (s s' : State) : Prop where
  handlers : s'.handlers = s.handlers
  calls : s'.calls = s.calls
  results : s'.results = s.results
  discards : s'.discards = s.discards

/-- A handler goes from a function to others, and what it shares stays. -/
structure Quiet (s : State) (id : Nat) (answer : Answer) (frame : Frame) (s' : State) (h' : Handler)
    (tops : List Frame) : Prop where
  handlers : s'.handlers = s.handlers
  calls : s'.calls = s.calls
  results : s'.results = s.results
  discards : ∀ cause ∈ s'.discards, cause ∈ s.discards ∨ frame.cause = some cause
  alike : Alike (s.handlers id) h'
  waiting : tops.flatMap Frame.waiting = frame.waiting
  prepares : ∀ mxc, frame.prepares = some mxc →
    ((s.handlers id).downloading mxc).isSome ∨ ∃ top ∈ tops, top.prepares = some mxc
  causes : ∀ top ∈ tops, ∀ cause, top.cause = some cause →
    frame.cause = some cause ∨ answer = .error ∧ frame.canFail = true

/-- What a function without effect on what is shared makes of a state. -/
def Advanced (s : State) (id : Nat) (answer : Answer) (frame : Frame) (rest : List Frame)
    (next : State) : Prop :=
  next = s ∨ ∃ s' h' tops, next = goOn s' id h' (tops ++ rest) ∧ Quiet s id answer frame s' h' tops

section Functions

variable {s s' : State} {id : Nat} {h' : Handler} {answer : Answer} {frame : Frame}
  {rest : List Frame} {mxc : String}

theorem SameShared.refl : SameShared s s := ⟨rfl, rfl, rfl, rfl⟩

theorem release_shared : SameShared s (s.release id mxc) := by
  rw [release]
  split_ifs <;> exact ⟨rfl, rfl, rfl, rfl⟩

theorem claim_shared : SameShared s (s.claim id mxc) := by
  rw [claim]
  split <;> exact ⟨rfl, rfl, rfl, rfl⟩

theorem touch_shared {op : FileOp} : SameShared s (s.touch id mxc op) := ⟨rfl, rfl, rfl, rfl⟩

variable (hsame : SameShared s s') (halike : Alike (s.handlers id) h')

include hsame halike

/-- The function goes on as others for the same file, or returns. -/
theorem Advanced.push (tops : List Frame) (hwaiting : tops.flatMap Frame.waiting = frame.waiting)
    (hprepares : ∀ mxc, frame.prepares = some mxc →
      ((s.handlers id).downloading mxc).isSome ∨ ∃ top ∈ tops, top.prepares = some mxc)
    (hcauses : ∀ top ∈ tops, ∀ cause, top.cause = some cause →
      frame.cause = some cause ∨ answer = .error ∧ frame.canFail = true) :
    Advanced s id answer frame rest (s'.goOn id h' (tops ++ rest)) :=
  .inr ⟨s', h', tops, rfl, hsame.handlers, hsame.calls, hsame.results,
    fun _ hcause => .inl (hsame.discards ▸ hcause), halike, hwaiting, hprepares, hcauses⟩

theorem Advanced.swap {top : Frame} (hwaiting : top.waiting = frame.waiting)
    (hprepares : ∀ mxc, frame.prepares = some mxc → top.prepares = some mxc)
    (hcauses : ∀ cause, top.cause = some cause →
      frame.cause = some cause ∨ answer = .error ∧ frame.canFail = true) :
    Advanced s id answer frame rest (s'.goOn id h' (top :: rest)) := by
  refine .push hsame halike [top] (by simpa using hwaiting) (fun mxc hmxc => ?_) (by simpa using hcauses)
  exact .inr ⟨top, List.mem_singleton_self top, hprepares mxc hmxc⟩

omit halike hsame

/-- A file that is closed gives its claim back. -/
theorem takeOpen_cases (s : State) (id : Nat) (h : Handler) (mxc : String) (frames : List Frame) :
    ∃ s' h', s.takeOpen id h mxc frames = s'.goOn id h' frames ∧ SameShared s s' ∧ Alike h h' := by
  rw [takeOpen]
  cases h.opened mxc with
  | none => exact ⟨s, h, rfl, .refl, alike_refl⟩
  | some verified => exact ⟨_, _, rfl, release_shared, rfl, rfl, rfl, rfl, rfl⟩

/-- A function that does not work on what is shared leaves it. -/
theorem advance_quiet (s : State) (id : Nat) (answer : Answer) (rest : List Frame)
    (hshared : frame.isShared = false) :
    Advanced s id answer frame rest (s.advance id (s.handlers id) answer rest frame) := by
  cases frame with
  | takeWaiters | enqueueInto | startJob | leavePreparing | endJob | answer | closeFiles
  | closeQueue => cases hshared
  | prepareDownload mxc =>
    simp only [advance]
    split_ifs with hrunning
    · exact .push .refl alike_refl [] rfl (fun other hother => .inl (by cases hother; exact hrunning)) (by simp)
    · exact .swap .refl alike_refl rfl (by simp) (by simp)
    · exact .swap .refl alike_refl rfl (by simp) (by simp)
  | findComplete mxc | beginRow mxc | recordFinished mxc =>
    cases answer with
    | yes | no | error => first | exact .inl rfl | exact .swap .refl alike_refl rfl (by simp) (by simp)
    | _ => exact .inl rfl
  | claim mxc =>
    simp only [advance]
    split_ifs
    · exact .swap claim_shared (by exact ⟨rfl, rfl, rfl, rfl, rfl⟩) rfl (by simp) (by simp)
    · exact .swap .refl alike_refl rfl (by simp) (by simp)
  | openFile mxc | adopt mxc =>
    cases answer with
    | yes | error => exact .swap touch_shared (by exact ⟨rfl, rfl, rfl, rfl, rfl⟩) rfl (by simp) (by simp)
    | _ => exact .inl rfl
  | openFailed mxc => exact .swap release_shared (by exact ⟨rfl, rfl, rfl, rfl, rfl⟩) rfl (by simp) (by simp)
  | refusedClaim mxc | opened mxc =>
    simp only [advance]
    split_ifs <;> exact .swap .refl alike_refl rfl (by simp) (by simp)
  | handOver mxc =>
    simp only [advance]
    cases s.findOtherDownloader id mxc <;> exact .swap .refl alike_refl rfl (by simp) (by simp)
  | continueMain mxc =>
    simp only [advance]
    cases (s.handlers id).downloading mxc with
    | none => exact .push .refl alike_refl [] rfl (by simp) (by simp)
    | some cancelled =>
      cases cancelled with
      | true => exact .swap .refl alike_refl rfl (by simp) (by simp)
      | false =>
        cases (s.handlers id).opened mxc with
        | none => exact .swap .refl alike_refl rfl (by simp) (by simp)
        | some verified =>
          simp only
          split_ifs
          · exact .swap .refl alike_refl rfl (by simp) (by simp)
          · exact .push .refl (want_alike ..) [] rfl (by simp) (by simp)
          · cases answer with
            | moved | error => exact .swap touch_shared alike_refl rfl (by simp) (by simp)
            | chunk index => exact .push .refl (want_alike ..) [] rfl (by simp) (by simp)
            | _ => exact .inl rfl
  | finishJob mxc =>
    simp only [advance]
    cases (s.handlers id).opened mxc with
    | none => exact .push .refl alike_refl [] rfl (by simp) (by simp)
    | some verified => exact .swap .refl (by exact ⟨rfl, rfl, rfl, rfl, rfl⟩) rfl (by simp) (by simp)
  | resetUnfinished mxc =>
    refine .inr ⟨_, _, [.releaseFinished mxc .failed], rfl, rfl, rfl, rfl, fun cause hcause => ?_,
      alike_refl, rfl, by simp, by simp⟩
    exact (List.mem_append.mp hcause).imp_right fun hnew => by rw [List.mem_singleton.mp hnew]; rfl
  | releaseFinished mxc jobEnd =>
    exact .push release_shared alike_refl [.answerSeeks mxc, .endJob mxc jobEnd] rfl (by simp) (by simp)
  | answerSeeks mxc => exact .push .refl (by exact ⟨rfl, rfl, rfl, rfl, rfl⟩) [] rfl (by simp) (by simp)
  | failMedia mxc why =>
    have halike : Alike (s.handlers id) ((s.handlers id).dropRequests mxc) := ⟨rfl, rfl, rfl, rfl, rfl⟩
    simp only [advance]
    split
    · rename_i cause _
      obtain ⟨s', h', heq, hsame, hnext⟩ := takeOpen_cases s id ((s.handlers id).dropRequests mxc) mxc
        (.discard mxc cause :: .cacheReset mxc :: .endIfRunning mxc :: rest)
      rw [heq]
      exact .push hsame (halike.trans hnext) [.discard mxc cause, .cacheReset mxc, .endIfRunning mxc] rfl
        (by simp) (by simp)
    · obtain ⟨s', h', heq, hsame, hnext⟩ := takeOpen_cases s id ((s.handlers id).dropRequests mxc) mxc
        (.endIfRunning mxc :: rest)
      rw [heq]
      exact .swap hsame (halike.trans hnext) rfl (by simp) (by simp)
  | discard mxc cause =>
    refine .inr ⟨_, _, [], rfl, rfl, rfl, rfl, fun other hother => ?_, alike_refl, rfl, by simp, by simp⟩
    exact (List.mem_append.mp hother).imp_right fun hnew => by rw [List.mem_singleton.mp hnew]; rfl
  | cacheReset mxc => exact .push touch_shared alike_refl [] rfl (by simp) (by simp)
  | endIfRunning mxc =>
    simp only [advance]
    split_ifs
    · exact .swap .refl alike_refl rfl (by simp) (by simp)
    · exact .push .refl alike_refl [] rfl (by simp) (by simp)
  | closeCancelled mxc jobEnd waiters =>
    simp only [advance]
    split_ifs
    · obtain ⟨s', h', heq, hsame, hnext⟩ := takeOpen_cases s id (s.handlers id) mxc
        (.answer jobEnd waiters :: rest)
      rw [heq]
      exact .swap hsame hnext rfl (by simp) (by simp)
    · exact .swap .refl alike_refl rfl (by simp) (by simp)
  | seekComplete mxc index =>
    cases answer with
    | yes => exact .push .refl alike_refl [] rfl (by simp) (by simp)
    | no =>
      have hopened : ∀ seekOnly, Alike (s.handlers id) { s.handlers id with seekOnly := seekOnly } :=
        fun _ => ⟨rfl, rfl, rfl, rfl, rfl⟩
      exact .push .refl (by exact (hopened _).trans (requestSeekChunk_alike ..)) [] rfl (by simp)
        (by simp)
    | _ => exact .inl rfl

end Functions

end DownloadQueue
end WbfMatrixClient
