import WbfMatrixClient.DownloadProgress
import WbfMatrixClient.Lib.Ledger

/-!
# Every waiter is answered

A waiter that was given to a handler is with exactly one handler, until it has its one
result. Who waits at a handler waits for a job, unless it came when the handler was through
with the file and had not taken it out of those it prepares, or had closed its queue.
-/

namespace WbfMatrixClient
namespace DownloadQueue

open Function

/-- The waiters that are with a handler. -/
def Handler.held (h : Handler) : List Nat :=
  h.waiters.map Prod.snd ++ h.frames.flatMap Frame.waiting

/-- A caller that waits and has put its job in is owed one result. -/
def State.owed (s : State) (call : Nat) : Nat :=
  match s.calls call with
  | some called => if called.waits ∧ called.entered then 1 else 0
  | none => 0

def Accounted (s : State) : Prop :=
  ∀ call, Ledger.Total (fun id => (s.handlers id).held.count call)
    ((s.results.map Prod.fst).count call) (s.owed call)

theorem accounted_start : Accounted .start := fun _ => Ledger.Total.empty

section Accounts

variable {s s' : State} {id : Nat} {h' : Handler}

/-- One handler gives waiters away, or answers them. -/
theorem Accounted.move (hs : Accounted s) (hcalls : s'.calls = s.calls)
    (hhandlers : s'.handlers = update s.handlers id h')
    (hcount : ∀ call, (s'.results.map Prod.fst).count call + h'.held.count call = (s.results.map
      Prod.fst).count call + (s.handlers id).held.count call) : Accounted s' := by
  intro call
  have hplaces : (fun other => (s'.handlers other).held.count call) =
      update (fun other => (s.handlers other).held.count call) id (h'.held.count call) := by
    funext other
    rw [hhandlers]
    by_cases hsame : other = id
    · rw [hsame, update_self, update_self]
    · rw [update_of_ne hsame, update_of_ne hsame]
  have howed : s'.owed call = s.owed call := by rw [State.owed, State.owed, hcalls]
  rw [hplaces, howed]
  refine (hs call).change id ?_
  rw [hcount call]

theorem Accounted.same (hs : Accounted s) (hcalls : s'.calls = s.calls)
    (hhandlers : s'.handlers = s.handlers) (hresults : s'.results = s.results) : Accounted s' := by
  intro call
  have howed : s'.owed call = s.owed call := by rw [State.owed, State.owed, hcalls]
  rw [hhandlers, hresults, howed]
  exact hs call

theorem Accounted.goOn (hs : Accounted s) {before frames : List Frame}
    (hbefore : (s.handlers id).frames = before) (hwaiters : h'.waiters = (s.handlers id).waiters)
    (hwaiting : frames.flatMap Frame.waiting = before.flatMap Frame.waiting) :
    Accounted (s.goOn id h' frames) := by
  refine hs.move rfl rfl fun call => ?_
  simp only [State.goOn, State.setHandler, Handler.held]
  rw [hbefore, hwaiters, hwaiting]

theorem Accounted.setHandler (hs : Accounted s) (hframes : h'.frames = (s.handlers id).frames)
    (hwaiters : h'.waiters = (s.handlers id).waiters) : Accounted (s.setHandler id h') := by
  refine hs.move rfl rfl fun call => ?_
  simp only [State.setHandler, Handler.held]
  rw [hframes, hwaiters]

theorem count_waitersOf (h : Handler) (mxc : String) (call : Nat) :
    (h.waitersOf mxc).count call + ((h.dropWaiters mxc).waiters.map Prod.snd).count call =
      (h.waiters.map Prod.snd).count call := by
  simp only [Handler.waitersOf, Handler.dropWaiters]
  induction h.waiters with
  | nil => rfl
  | cons waiter waiters ih =>
    by_cases hsame : waiter.1 = mxc
    · rw [List.filter_cons_of_pos (by simpa using hsame), List.filter_cons_of_neg (by simpa using hsame)]
      simp only [List.map_cons, List.count_cons]
      omega
    · rw [List.filter_cons_of_neg (by simpa using hsame), List.filter_cons_of_pos (by simpa using hsame)]
      simp only [List.map_cons, List.count_cons]
      omega

variable {mxc : String}

section

variable (hs : Accounted s)

include hs

/-- A function of the handler takes the waiters of a file. -/
theorem Accounted.takes {frame top : Frame} {rest : List Frame}
    (hbefore : (s.handlers id).frames = frame :: rest) (hnone : frame.waiting = [])
    (htop : top.waiting = (s.handlers id).waitersOf mxc)
    (hwaiters : h'.waiters = ((s.handlers id).dropWaiters mxc).waiters) :
    Accounted (s.goOn id h' (top :: rest)) := by
  refine hs.move rfl rfl fun call => ?_
  have hcount := count_waitersOf (s.handlers id) mxc call
  simp only [State.goOn, State.setHandler, Handler.held]
  rw [hbefore, hwaiters, List.flatMap_cons, List.flatMap_cons, htop, hnone]
  simp only [List.count_append, List.count_nil]
  omega

omit hs in
theorem count_enqueueInto (h : Handler) (mxc : String) (waiters : List Nat) (call : Nat) :
    (h.enqueueInto mxc waiters).held.count call = h.held.count call + waiters.count call := by
  have hwaiters : (h.enqueueInto mxc waiters).waiters =
      h.waiters ++ waiters.map fun waiter => (mxc, waiter) := by
    simp only [Handler.enqueueInto]
    split <;> rfl
  have hsame : (waiters.map fun waiter => (mxc, waiter)).map Prod.snd = waiters := by
    rw [List.map_map]
    exact List.map_id' _
  rw [Handler.held, Handler.held, hwaiters, enqueueInto_frames, List.map_append, hsame]
  simp only [List.count_append]
  omega

/-- The waiters are handed over to another handler. -/
theorem Accounted.handsOver {target : Nat} {waiters : List Nat} {rest : List Frame}
    (hbefore : (s.handlers id).frames = .enqueueInto target mxc waiters :: rest) :
    let popped := s.goOn id (s.handlers id) rest
    Accounted (popped.setHandler target ((popped.handlers target).enqueueInto mxc waiters)) := by
  intro popped call
  -- on their way the waiters are with nobody
  have hgiven : Ledger.Total (fun other => (popped.handlers other).held.count call)
      ((s.results.map Prod.fst).count call + waiters.count call) (s.owed call) := by
    have hplaces : (fun other => (popped.handlers other).held.count call) =
        update (fun other => (s.handlers other).held.count call) id
          (((s.handlers id).waiters.map Prod.snd).count call + (rest.flatMap Frame.waiting).count call) := by
      funext other
      change ((update s.handlers id _) other).held.count call = _
      by_cases hsame : other = id
      · rw [hsame, update_self, update_self]
        exact List.count_append ..
      · rw [update_of_ne hsame, update_of_ne hsame]
    rw [hplaces]
    refine (hs call).change id ?_
    rw [Handler.held, hbefore, List.flatMap_cons]
    simp only [List.count_append, Frame.waiting]
    omega
  have hplaces : (fun other => ((popped.setHandler target
      ((popped.handlers target).enqueueInto mxc waiters)).handlers other).held.count call) =
      update (fun other => (popped.handlers other).held.count call) target
        ((popped.handlers target).held.count call + waiters.count call) := by
    funext other
    change ((update popped.handlers target _) other).held.count call = _
    by_cases hsame : other = target
    · rw [hsame, update_self, update_self]
      exact count_enqueueInto ..
    · rw [update_of_ne hsame, update_of_ne hsame]
  rw [hplaces]
  refine hgiven.change target ?_
  change (s.results.map Prod.fst).count call + _ + _ = _
  have howed : (popped.setHandler target
      ((popped.handlers target).enqueueInto mxc waiters)).owed call = s.owed call := rfl
  rw [howed]
  omega

theorem Accounted.advance {answer : Answer} {frame : Frame} {rest : List Frame}
    (hframes : (s.handlers id).frames = frame :: rest) :
    Accounted (s.advance id (s.handlers id) answer rest frame) := by
  cases hshared : frame.isShared with
  | false =>
    rcases advance_quiet s id answer rest hshared with heq | ⟨s', h', tops, heq, hq⟩
    · rw [heq]
      exact hs
    rw [heq]
    refine (hs.same hq.calls hq.handlers hq.results).goOn rfl (by rw [hq.handlers, hq.alike.waiters]) ?_
    rw [hq.handlers, hframes, List.flatMap_append, hq.waiting, List.flatMap_cons]
  | true =>
    cases frame with
    | takeWaiters | endJob => exact hs.takes hframes rfl rfl rfl
    | enqueueInto => exact hs.handsOver hframes
    | startJob | leavePreparing => exact hs.goOn hframes rfl rfl
    | answer jobEnd waiters =>
      refine hs.move rfl rfl fun call => ?_
      change ((s.results ++ waiters.map fun waiter => (waiter, jobEnd)).map Prod.fst).count call + _ = _
      simp only [Handler.held]
      rw [hframes, List.flatMap_cons, List.map_append, List.map_map]
      have hsame : waiters.map (Prod.fst ∘ fun waiter => (waiter, jobEnd)) = waiters :=
        List.map_id' waiters
      rw [hsame]
      simp only [List.count_append, Frame.waiting]
      omega
    | closeFiles =>
      have hreleased : ∀ claims, Accounted { s with claims := claims } := fun _ => hs.same rfl rfl rfl
      exact (hreleased _).goOn hframes rfl rfl
    | closeQueue =>
      refine hs.move rfl rfl fun call => ?_
      simp only [Handler.held]
      rw [hframes]
      rfl
    | _ => cases hshared

theorem Accounted.handleReply (hnil : (s.handlers id).frames = []) (request : Request)
    (reply : Reply) : Accounted (s.handleReply id (s.handlers id) request reply) := by
  obtain ⟨touched, h', frames, heq, htouched, halike, -, hframes⟩ :=
    handleReply_replied s id request reply
  rw [heq]
  have hnone : frames.flatMap Frame.waiting = [] := by
    refine List.flatMap_eq_nil_iff.mpr fun frame hframe => ?_
    have hbegins := hframes frame hframe
    cases frame with
    | continueMain | failMedia => rfl
    | _ => exact hbegins.elim
  rcases htouched with rfl | ⟨-, op, rfl⟩
  · exact hs.goOn hnil halike.waiters hnone
  · have hwritten : Accounted (s.touch id request.mxc op) := hs.same rfl rfl rfl
    exact hwritten.goOn hnil halike.waiters hnone

omit hs in
theorem last_waiting {frames : List Frame} (h : ∀ frame ∈ frames, frame.IsLast) :
    frames.flatMap Frame.waiting = [] := by
  refine List.flatMap_eq_nil_iff.mpr fun frame hframe => ?_
  obtain ⟨mxc, rfl⟩ := h frame hframe
  rfl

omit hs in
/-- A handler that is taken down while it waits has nobody's waiters in its hands. -/
theorem waiting_none {h : Handler} (hstacked : Stacked h.opened h.frames)
    (hwaits : State.isWaiting h.frames = true) : h.frames.flatMap Frame.waiting = [] := by
  cases hframes : h.frames with
  | nil => rfl
  | cons frame rest =>
    rw [hframes] at hstacked hwaits
    cases frame with
    | findComplete mxc => exact (last_waiting hstacked : rest.flatMap Frame.waiting = [])
    | beginRow mxc => exact (last_waiting hstacked : rest.flatMap Frame.waiting = [])
    | recordFinished mxc => exact (last_waiting hstacked : rest.flatMap Frame.waiting = [])
    | seekComplete mxc index => exact (last_waiting hstacked : rest.flatMap Frame.waiting = [])
    | answerSeeks mxc =>
      obtain ⟨jobEnd, below, rfl, hlast⟩ := hstacked
      exact (last_waiting hlast : below.flatMap Frame.waiting = [])
    | _ => cases hwaits

theorem Accounted.enqueue {call : Nat} (hfree : s.calls call = none) (called : Call)
    (hentered : called.entered = false) :
    Accounted { s with calls := update s.calls call (some called) } := by
  intro other
  have howed : State.owed { s with calls := update s.calls call (some called) } other =
      s.owed other := by
    simp only [State.owed]
    by_cases hsame : other = call
    · rw [hsame, update_self, hfree]
      simp [hentered]
    · rw [update_of_ne hsame]
  rw [howed]
  exact hs other

/-- A caller puts its job in, and is owed a result from then on when it waits. -/
theorem Accounted.enter {call target : Nat} {waits : Bool}
    (hcall : s.calls call = some { target := target, mxc := mxc, waits := waits, entered := false
      }) :
    Accounted ({ s with
      calls := update s.calls call
        (some { target := target, mxc := mxc, waits := waits, entered := true }) }.setHandler
      target ((s.handlers target).enqueueInto mxc (if waits then [call] else []))) := by
  intro other
  have hplaces : (fun id => (update s.handlers target
      ((s.handlers target).enqueueInto mxc (if waits then [call] else [])) id).held.count other) =
      update (fun id => (s.handlers id).held.count other) target
        ((s.handlers target).held.count other + (if waits then [call] else []).count other) := by
    funext id
    by_cases hsame : id = target
    · rw [hsame, update_self, update_self]
      exact count_enqueueInto ..
    · rw [update_of_ne hsame, update_of_ne hsame]
  change Ledger.Total (fun id => (update s.handlers target
    ((s.handlers target).enqueueInto mxc (if waits then [call] else [])) id).held.count other) _ _
  rw [hplaces]
  refine (hs other).change target ?_
  change (s.results.map Prod.fst).count other + _ + _ = _
  simp only [State.owed, State.setHandler]
  by_cases hsame : other = call
  · rw [hsame, update_self, hcall]
    cases waits with
    | true =>
      simp
      omega
    | false => simp
  · rw [update_of_ne hsame]
    have hnone : (if waits then [call] else []).count other = 0 := by
      cases waits <;> simp [Ne.symm hsame]
    omega

theorem Accounted.step (hprogress : Progress s) (action : Action) : Accounted (s.step action) := by
  cases action with
  | enqueue call id mxc waits =>
    simp only [State.step]
    split
    · exact hs
    · rename_i hfree
      exact hs.enqueue hfree _ rfl
  | enter call =>
    simp only [State.step]
    split
    · rename_i target mxc waits hcall
      exact hs.enter hcall
    · exact hs
  | cancel id mxc =>
    simp only [State.step, State.cancel]
    split_ifs
    · exact hs.setHandler rfl rfl
    · exact hs.setHandler rfl rfl
    · refine hs.move rfl rfl fun call => ?_
      have hcount := count_waitersOf (s.handlers id) mxc call
      have hsame : ((s.handlers id).waitersOf mxc).map
          (Prod.fst ∘ fun waiter => (waiter, JobEnd.cancelled)) = (s.handlers id).waitersOf mxc :=
        List.map_id' _
      have hframes : ((s.handlers id).dropWaiters mxc).frames = (s.handlers id).frames := rfl
      simp only [State.setHandler, State.answerAll, Handler.held]
      rw [List.map_append, List.map_map, hsame, hframes]
      simp only [List.count_append]
      omega
    · exact hs
  | stop id => exact hs.setHandler rfl rfl
  | abort id =>
    simp only [State.step]
    split_ifs with hwaits
    · obtain ⟨_, hclosed, hwaits⟩ := hwaits
      have hstacked : Stacked (s.handlers id).opened (s.handlers id).frames := by
        rcases hprogress id with (⟨hgone, _⟩ | hone | hone) | hok
        · rw [hgone] at hclosed
          cases hclosed
        · rw [hone] at hwaits
          cases hwaits
        · rw [hone] at hwaits
          cases hwaits
        · exact hok.stacked
      exact hs.goOn rfl rfl (waiting_none hstacked hwaits).symm
    · exact hs
  | processInbox id =>
    simp only [State.step]
    split
    · rename_i hnil _ _
      exact hs.goOn hnil rfl rfl
    · exact hs
  | processSeek id mxc index present =>
    simp only [State.step]
    split
    · rename_i hnil _
      split_ifs
      · exact hs.goOn hnil (requestSeekChunk_alike ..).waiters rfl
      · exact hs.goOn hnil rfl rfl
    · exact hs
  | handleCancellation id mxc =>
    simp only [State.step]
    split
    · rename_i hnil _ _
      rw [State.handleCancellation]
      cases (s.handlers id).mainRequest mxc with
      | none => exact hs.goOn hnil rfl rfl
      | some entry =>
        simp only
        split_ifs
        · exact hs.goOn hnil (by rfl) rfl
        · exact hs.goOn hnil (by rfl) rfl
        · exact hs
    · exact hs
  | closeIdle id =>
    simp only [State.step]
    split
    · have hreleased : ∀ claims, Accounted { s with claims := claims } := fun _ => hs.same rfl rfl rfl
      exact (hreleased _).setHandler rfl rfl
    · exact hs
  | forgetSeek id mxc =>
    simp only [State.step]
    split
    · exact hs.setHandler rfl rfl
    · exact hs
  | send id =>
    simp only [State.step]
    split
    · exact hs
    · exact hs.setHandler rfl rfl
  | handleReply id request reply =>
    simp only [State.step]
    split
    · rename_i hnil _
      split_ifs
      · exact hs.handleReply hnil request reply
      · exact hs
    · exact hs
  | run id answer =>
    simp only [State.step]
    split
    · exact hs
    · rename_i hframes
      exact hs.advance hframes

end

end Accounts

/-- The file has a job, which is queued, prepared or running. -/
def Handler.HasJob (h : Handler) (mxc : String) : Prop :=
  mxc ∈ h.inbox ∨ (h.downloading mxc).isSome ∨ ∃ frame ∈ h.frames, frame.prepares = some mxc

instance (h : Handler) (mxc : String) : Decidable (h.HasJob mxc) :=
  inferInstanceAs (Decidable (_ ∨ _ ∨ _))

/-- What is put in now comes to a job: the queue is not closed, and a file that counts as
prepared is still being prepared. -/
def Handler.Takes (h : Handler) (mxc : String) : Prop :=
  h.closed = false ∧ ((h.preparing mxc).isSome → h.HasJob mxc)

instance (h : Handler) (mxc : String) : Decidable (h.Takes mxc) :=
  inferInstanceAs (Decidable (_ ∧ _))

/-- Nothing is put in, by a caller or by another handler, where it does not come to a job. -/
def Enters (s : State) : Action → Prop
  | .enter call => ∀ called, s.calls call = some called → called.entered = false →
      (s.handlers called.target).Takes called.mxc
  | .run id _ => ∀ target mxc waiters rest,
      (s.handlers id).frames = .enqueueInto target mxc waiters :: rest → (s.handlers target).Takes mxc
  | _ => True

/-- The handler is being taken down, and answers everybody next. -/
def Closing (h : Handler) : Prop := h.frames = [.closeFiles] ∨ h.frames = [.closeQueue]

structure Kept (h : Handler) : Prop where
  waiting : ∀ waiter ∈ h.waiters, h.HasJob waiter.1 ∨ Closing h
  preparing : ∀ mxc, (h.preparing mxc).isSome → .leavePreparing mxc ∈ h.frames ∨ Closing h
  closed : h.closed = true → (h.frames = [] ∨ ∃ jobEnd waiters, h.frames = [.answer jobEnd waiters]) ∧
    h.inbox = [] ∧ h.waiters = [] ∧ ∀ mxc, h.downloading mxc = none ∧ h.preparing mxc = none

def KeptAll (s : State) : Prop := ∀ id, Kept (s.handlers id)

theorem keptAll_start : KeptAll .start := fun _ =>
  ⟨fun _ h => absurd h List.not_mem_nil, fun _ h => absurd h Bool.false_ne_true,
    fun h => absurd h Bool.false_ne_true⟩

section Kept

variable {s s' : State} {id : Nat} {h h' h'' : Handler}

theorem KeptAll.setHandler (hs : KeptAll s) (hk : Kept h') : KeptAll (s.setHandler id h') := by
  intro other
  rw [State.setHandler]
  by_cases hsame : other = id
  · subst hsame
    simp only [update_self]
    exact hk
  · simp only [update_of_ne hsame]
    exact hs other

theorem KeptAll.same (hs : KeptAll s) (hhandlers : s'.handlers = s.handlers) : KeptAll s' := by
  intro other
  rw [hhandlers]
  exact hs other

/-- A step of an open handler in one of its functions. -/
theorem Kept.next (hk : Kept h) (hopen : ¬Closing h) (hclosed : h'.closed = false) {frame : Frame}
    {rest : List Frame} (hbefore : h.frames = frame :: rest)
    (hplain : ∀ mxc, frame ≠ .leavePreparing mxc) (hrest : ∀ other ∈ rest, other ∈ h'.frames)
    (hinbox : h'.inbox = h.inbox) (hpreparing : h'.preparing = h.preparing)
    (hwaiters : ∀ waiter ∈ h'.waiters, waiter ∈ h.waiters)
    (hdownloading : ∀ waiter ∈ h'.waiters, (h.downloading waiter.1).isSome → (h'.downloading
      waiter.1).isSome)
    (hkeeps : ∀ waiter ∈ h'.waiters, frame.prepares = some waiter.1 → h'.HasJob waiter.1) :
    Kept h' := by
  constructor
  case waiting =>
    intro waiter hwaiter
    left
    rcases (hk.waiting waiter (hwaiters waiter hwaiter)).resolve_right hopen with
      hin | hrunning | ⟨other, hother, hprepares⟩
    · exact .inl (by rw [hinbox]; exact hin)
    · exact .inr (.inl (hdownloading waiter hwaiter hrunning))
    · rw [hbefore] at hother
      rcases List.mem_cons.mp hother with rfl | hother
      · exact hkeeps waiter hwaiter hprepares
      · exact .inr (.inr ⟨other, hrest other hother, hprepares⟩)
  case preparing =>
    intro mxc hsome
    rw [hpreparing] at hsome
    left
    have hlast := (hk.preparing mxc hsome).resolve_right hopen
    rw [hbefore] at hlast
    rcases List.mem_cons.mp hlast with hsame | hlast
    · exact absurd hsame.symm (hplain mxc)
    · exact hrest _ hlast
  case closed =>
    intro hgone
    rw [hclosed] at hgone
    cases hgone

theorem KeptAll.goOn (hs : KeptAll s) (hopen : ¬Closing (s.handlers id))
    (hclosed : (s.handlers id).closed = false) {frame : Frame} {rest frames : List Frame}
    (hbefore : (s.handlers id).frames = frame :: rest) (hplain : ∀ mxc, frame ≠ .leavePreparing mxc)
    (halike : Alike (s.handlers id) h') (hrest : ∀ other ∈ rest, other ∈ frames)
    (hkeeps : ∀ mxc, frame.prepares = some mxc → ((s.handlers id).downloading mxc).isSome ∨ ∃ top ∈
      frames, top.prepares = some mxc) : KeptAll (s.goOn id h' frames) := by
  refine hs.setHandler ((hs id).next hopen (halike.closed.trans hclosed) hbefore hplain hrest
    halike.inbox halike.preparing (fun waiter hwaiter => ?_) (fun waiter _ hrunning => ?_)
    fun waiter _ hprepares => .inr ?_)
  · rw [← halike.waiters]
    exact hwaiter
  · change (h'.downloading waiter.1).isSome
    rw [halike.downloading]
    exact hrunning
  · refine (hkeeps waiter.1 hprepares).imp_left fun hrunning => ?_
    change (h'.downloading waiter.1).isSome
    rw [halike.downloading]
    exact hrunning

/-- A handler between two steps begins with something. -/
theorem KeptAll.begins (hs : KeptAll s) (hnil : (s.handlers id).frames = [])
    (hclosed : (s.handlers id).closed = false) (halike : Alike (s.handlers id) h')
    (frames : List Frame) : KeptAll (s.goOn id h' frames) := by
  have hopen : ¬Closing (s.handlers id) := by
    rintro (hone | hone) <;>
      · rw [hnil] at hone
        cases hone
  refine hs.setHandler ⟨fun waiter hwaiter => .inl ?_, fun mxc hsome => ?_, fun hgone => ?_⟩
  · change waiter ∈ h'.waiters at hwaiter
    rw [halike.waiters] at hwaiter
    rcases ((hs id).waiting waiter hwaiter).resolve_right hopen with hin | hrunning | ⟨frame, hframe, _⟩
    · exact .inl (by change waiter.1 ∈ h'.inbox; rw [halike.inbox]; exact hin)
    · exact .inr (.inl (by
        change (h'.downloading waiter.1).isSome
        rw [halike.downloading]
        exact hrunning))
    · rw [hnil] at hframe
      cases hframe
  · change (h'.preparing mxc).isSome at hsome
    rw [halike.preparing] at hsome
    have hlast := ((hs id).preparing mxc hsome).resolve_right hopen
    rw [hnil] at hlast
    cases hlast
  · have hgone : h'.closed = true := hgone
    rw [halike.closed, hclosed] at hgone
    cases hgone

/-- What a handler shares with its callers stays, and the functions it is in. -/
theorem KeptAll.shares (hs : KeptAll s) (halike : Alike (s.handlers id) h')
    (hframes : h'.frames = (s.handlers id).frames) : KeptAll (s.setHandler id h') := by
  obtain ⟨hwaiting, hpreparing, hgone⟩ := hs id
  obtain ⟨hinbox, hprepared, hrunning, hwaiters, hclosed⟩ := halike
  refine hs.setHandler ⟨?_, ?_, ?_⟩
  · rw [hwaiters, Closing, hframes]
    simp only [Handler.HasJob, hinbox, hrunning, hframes]
    exact hwaiting
  · rw [hprepared, Closing, hframes]
    exact hpreparing
  · rw [hclosed, hframes, hinbox, hwaiters, hrunning, hprepared]
    exact hgone

variable {mxc : String}

theorem hasJob_enqueueInto (htakes : h.Takes mxc) (waiters : List Nat) :
    (h.enqueueInto mxc waiters).HasJob mxc := by
  simp only [Handler.enqueueInto]
  split
  · rename_i status hstatus
    simp only [Handler.statusIn] at hstatus
    split_ifs at hstatus with hrunning hqueued
    · exact .inr (.inl hrunning)
    · rcases hqueued with hsome | hin
      · exact htakes.2 hsome
      · exact .inl hin
  · exact .inl (List.mem_append_right _ (List.mem_singleton_self mxc))

/-- Who is told that a job is queued is told of one that does not run yet. -/
theorem queued_of_hasJob (hjob : h.HasJob mxc) (hqueued : h.statusIn mxc = some .queued) :
    mxc ∈ h.inbox ∨ ∃ frame ∈ h.frames, frame.prepares = some mxc := by
  rcases hjob with hin | hrunning | hprepared
  · exact .inl hin
  · rw [Handler.statusIn, if_pos hrunning] at hqueued
    cases hqueued
  · exact .inr hprepared

section

variable (hs : KeptAll s)

include hs

theorem KeptAll.enqueueInto {target : Nat} {mxc : String} (htakes : (s.handlers target).Takes mxc)
    (waiters : List Nat) :
    KeptAll (s.setHandler target ((s.handlers target).enqueueInto mxc waiters)) := by
  obtain ⟨hclosed, hprepared⟩ := htakes
  obtain ⟨hwaiting, hpreparing, _⟩ := hs target
  have hall : ∀ waiter ∈ (s.handlers target).waiters ++ waiters.map (fun waiter => (mxc, waiter)),
      waiter ∈ (s.handlers target).waiters ∨ waiter.1 = mxc := by
    intro waiter hwaiter
    refine (List.mem_append.mp hwaiter).imp_right fun hnew => ?_
    obtain ⟨call, _, rfl⟩ := List.mem_map.mp hnew
    rfl
  refine hs.setHandler ?_
  simp only [Handler.enqueueInto]
  split
  · rename_i status hstatus
    -- the file has a job already
    have hjob : (s.handlers target).HasJob mxc := by
      simp only [Handler.statusIn] at hstatus
      split_ifs at hstatus with hrunning hqueued
      · exact .inr (.inl hrunning)
      · rcases hqueued with hsome | hin
        · exact hprepared hsome
        · exact .inl hin
    refine ⟨fun waiter hwaiter => ?_, hpreparing, fun hgone => ?_⟩
    · rcases hall waiter hwaiter with hold | hsame
      · exact hwaiting waiter hold
      · rw [hsame]
        exact .inl hjob
    · have hgone : (s.handlers target).closed = true := hgone
      rw [hclosed] at hgone
      cases hgone
  · refine ⟨fun waiter hwaiter => ?_, hpreparing, fun hgone => ?_⟩
    · rcases hall waiter hwaiter with hold | hsame
      · exact (hwaiting waiter hold).imp_left fun hjob => hjob.imp_left (List.mem_append_left _)
      · rw [hsame]
        exact .inl (.inl (List.mem_append_right _ (List.mem_singleton_self mxc)))
    · have hgone : (s.handlers target).closed = true := hgone
      rw [hclosed] at hgone
      cases hgone

/-- A handler that is taken down closes its queue, or answers the last ones. -/
theorem KeptAll.closes (hgone : (s.handlers id).closed = true ∨ Closing (s.handlers id))
    {answer : Answer} {frame : Frame} {rest : List Frame}
    (hframes : (s.handlers id).frames = frame :: rest) :
    KeptAll (s.advance id (s.handlers id) answer rest frame) := by
  obtain ⟨hwaiting, hpreparing, hempty⟩ := hs id
  rcases hgone with hclosed | hone | hone
  · obtain ⟨hlast, hinbox, hwaiters, hnone⟩ := hempty hclosed
    rcases hlast with hnil | ⟨jobEnd, waiters, hone⟩
    · rw [hnil] at hframes
      cases hframes
    · rw [hone] at hframes
      cases hframes
      have hanswered : KeptAll (s.answerAll jobEnd waiters) := hs.same rfl
      refine hanswered.setHandler ⟨fun waiter hwaiter => ?_, fun mxc hsome => ?_, fun _ =>
        ⟨.inl rfl, hinbox, hwaiters, hnone⟩⟩
      · have hwaiter : waiter ∈ (s.handlers id).waiters := hwaiter
        rw [hwaiters] at hwaiter
        cases hwaiter
      · have hsome : ((s.handlers id).preparing mxc).isSome := hsome
        rw [(hnone mxc).2] at hsome
        cases hsome
  · rw [hone] at hframes
    cases hframes
    have hreleased : ∀ claims, KeptAll { s with claims := claims } := fun _ => hs.same rfl
    refine (hreleased _).setHandler ⟨fun _ _ => .inr (.inr rfl), fun _ _ => .inr (.inr rfl), fun hclosed => ?_⟩
    obtain ⟨hlast, _⟩ := hempty hclosed
    rw [hone] at hlast
    rcases hlast with hnil | ⟨jobEnd, waiters, hlast⟩
    · cases hnil
    · cases hlast
  · rw [hone] at hframes
    cases hframes
    exact hs.setHandler ⟨fun _ hwaiter => absurd hwaiter List.not_mem_nil,
      fun _ hsome => absurd hsome Bool.false_ne_true,
      fun _ => ⟨.inr ⟨.failed, _, rfl⟩, rfl, rfl, fun _ => ⟨rfl, rfl⟩⟩⟩

/-- The file is not among those that are prepared any more. -/
theorem KeptAll.leavePreparing (hopen : ¬Closing (s.handlers id))
    (hclosed : (s.handlers id).closed = false) {answer : Answer} {mxc : String} {rest : List Frame}
    (hframes : (s.handlers id).frames = .leavePreparing mxc :: rest) :
    KeptAll (s.advance id (s.handlers id) answer rest (.leavePreparing mxc)) := by
  obtain ⟨hwaiting, hpreparing, _⟩ := hs id
  refine hs.setHandler ⟨fun waiter hwaiter => .inl ?_, fun other hsome => .inl ?_, fun hgone => ?_⟩
  · rcases (hwaiting waiter hwaiter).resolve_right hopen with hin | hrunning | ⟨other, hother, hprepares⟩
    · exact .inl hin
    · refine .inr (.inl ?_)
      simp only
      split_ifs with hcancelled
      · rw [update_apply]
        split_ifs
        · rfl
        · exact hrunning
      · exact hrunning
    · rw [hframes] at hother
      rcases List.mem_cons.mp hother with rfl | hother
      · cases hprepares
      · exact .inr (.inr ⟨other, hother, hprepares⟩)
  · have hsome : (update (s.handlers id).preparing mxc none other).isSome := hsome
    rw [update_apply] at hsome
    split_ifs at hsome with hsame
    · cases hsome
    · have hlast := (hpreparing other hsome).resolve_right hopen
      rw [hframes] at hlast
      rcases List.mem_cons.mp hlast with heq | hlast
      · cases heq
        exact absurd rfl hsame
      · exact hlast
  · have hgone : (s.handlers id).closed = true := hgone
    rw [hclosed] at hgone
    cases hgone

theorem KeptAll.advance (hopen : ¬Closing (s.handlers id))
    (hclosed : (s.handlers id).closed = false)
    (hstacked : Stacked (s.handlers id).opened (s.handlers id).frames) {answer : Answer}
    {frame : Frame} {rest : List Frame} (hframes : (s.handlers id).frames = frame :: rest)
    (henters : Enters s (.run id answer)) :
    KeptAll (s.advance id (s.handlers id) answer rest frame) := by
  have hplain : ∀ {tops : List Frame}, ∀ other ∈ rest, other ∈ tops ++ rest :=
    fun other hother => List.mem_append_right _ hother
  cases hshared : frame.isShared with
  | false =>
    rcases advance_quiet s id answer rest hshared with heq | ⟨s', h', tops, heq, hq⟩
    · rw [heq]
      exact hs
    have hsame : s'.handlers id = s.handlers id := by rw [hq.handlers]
    rw [heq]
    refine (hs.same hq.handlers).goOn (by rwa [hsame]) (by rwa [hsame]) (by rwa [hsame]) ?_
      (by rw [hsame]; exact hq.alike) hplain fun mxc hmxc => ?_
    · rintro mxc rfl
      cases hshared
    · rw [hsame]
      exact (hq.prepares mxc hmxc).imp_right fun ⟨top, htop, hprepares⟩ =>
        ⟨top, List.mem_append_left _ htop, hprepares⟩
  | true =>
    rw [hframes] at hstacked
    cases frame with
    | takeWaiters target mxc =>
      refine hs.setHandler ((hs id).next hopen hclosed hframes (by simp)
        (fun other hother => List.mem_cons_of_mem _ hother) rfl rfl
        (fun waiter hwaiter => (List.mem_filter.mp hwaiter).1) (fun _ _ hrunning => hrunning)
        fun waiter hwaiter hother => ?_)
      cases hother
      exact absurd rfl (of_decide_eq_true (List.mem_filter.mp hwaiter).2)
    | enqueueInto target mxc waiters =>
      have hpopped : KeptAll (s.goOn id (s.handlers id) rest) := 
          hs.goOn hopen hclosed hframes (by simp) alike_refl (fun _ hother => hother) (by simp)
      refine hpopped.enqueueInto ?_ waiters
      -- the function that hands over does not prepare the file any more
      have htakes := henters target mxc waiters rest hframes
      change Handler.Takes (update s.handlers id _ target) mxc
      by_cases hsame : target = id
      · rw [hsame, update_self]
        rw [hsame] at htakes
        refine ⟨htakes.1, fun hsome => (htakes.2 hsome).imp_right (Or.imp_right ?_)⟩
        rintro ⟨other, hother, hprepares⟩
        rw [hframes] at hother
        rcases List.mem_cons.mp hother with rfl | hother
        · cases hprepares
        · exact ⟨other, hother, hprepares⟩
      · rw [update_of_ne hsame]
        exact htakes
    | startJob mxc =>
      have hsome : ∀ other, ((s.handlers id).downloading other).isSome ∨ other = mxc →
          (update (s.handlers id).downloading mxc (some false) other).isSome := by
        intro other hother
        rw [update_apply]
        split_ifs with hsame
        · rfl
        · exact hother.resolve_right hsame
      refine hs.setHandler ((hs id).next hopen hclosed hframes (by simp)
        (fun other hother => List.mem_cons_of_mem _ hother) rfl rfl (fun _ hwaiter => hwaiter)
        (fun waiter _ hrunning => hsome waiter.1 (.inl hrunning))
        fun waiter _ hother => .inr (.inl (hsome waiter.1 (.inr ?_))))
      cases hother
      rfl
    | leavePreparing mxc => exact hs.leavePreparing hopen hclosed hframes
    | endJob mxc jobEnd =>
      have hothers : ∀ waiter ∈ ((s.handlers id).dropWaiters mxc).waiters, waiter.1 ≠ mxc :=
        fun waiter hwaiter => of_decide_eq_true (List.mem_filter.mp hwaiter).2
      refine hs.setHandler ((hs id).next hopen hclosed hframes (by simp)
        (fun other hother => List.mem_cons_of_mem _ hother) rfl rfl
        (fun waiter hwaiter => (List.mem_filter.mp hwaiter).1) (fun waiter hwaiter hrunning => ?_)
        fun waiter hwaiter hother => ?_)
      · change (update (s.handlers id).downloading mxc none waiter.1).isSome
        rw [update_of_ne (hothers waiter hwaiter)]
        exact hrunning
      · cases hother
        exact absurd rfl (hothers waiter hwaiter)
    | answer jobEnd waiters =>
      have hanswered : KeptAll (s.answerAll jobEnd waiters) := hs.same rfl
      exact hanswered.goOn hopen hclosed hframes (by simp) alike_refl (fun _ hother => hother) (by simp)
    | closeFiles | closeQueue => exact hstacked.elim
    | _ => cases hshared

theorem KeptAll.handleReply (hnil : (s.handlers id).frames = [])
    (hclosed : (s.handlers id).closed = false) (request : Request) (reply : Reply) :
    KeptAll (s.handleReply id (s.handlers id) request reply) := by
  obtain ⟨touched, h', frames, heq, htouched, halike, -⟩ := handleReply_replied s id request reply
  rw [heq]
  rcases htouched with rfl | ⟨-, op, rfl⟩
  · exact hs.begins hnil hclosed halike frames
  · have hwritten : KeptAll (s.touch id request.mxc op) := hs.same rfl
    exact hwritten.begins hnil hclosed halike frames

theorem KeptAll.cancel (mxc : String) : KeptAll (s.cancel id (s.handlers id) mxc) := by
  obtain ⟨hwaiting, hpreparing, hempty⟩ := hs id
  simp only [State.cancel]
  split_ifs with hrunning hprepared hin
  · have hsome : ∀ other, ((s.handlers id).downloading other).isSome →
        (update (s.handlers id).downloading mxc (some true) other).isSome := by
      intro other hother
      rw [update_apply]
      split_ifs
      · rfl
      · exact hother
    refine hs.setHandler ⟨fun waiter hwaiter => ?_, hpreparing, fun hgone => ?_⟩
    · exact (hwaiting waiter hwaiter).imp_left fun hjob =>
        hjob.imp_right (Or.imp_left (hsome waiter.1))
    · obtain ⟨_, _, _, hnone⟩ := hempty hgone
      rw [(hnone mxc).1] at hrunning
      cases hrunning
  · refine hs.setHandler ⟨hwaiting, fun other hsome => ?_, fun hgone => ?_⟩
    · refine hpreparing other ?_
      have hsome : (update (s.handlers id).preparing mxc (some true) other).isSome := hsome
      rw [update_apply] at hsome
      split_ifs at hsome with hsame
      · rw [hsame]
        exact hprepared
      · exact hsome
    · obtain ⟨_, _, _, hnone⟩ := hempty hgone
      rw [(hnone mxc).2] at hprepared
      cases hprepared
  · have hanswered : KeptAll (s.answerAll .cancelled ((s.handlers id).waitersOf mxc)) := hs.same rfl
    refine hanswered.setHandler ⟨fun waiter hwaiter => ?_, hpreparing, fun hgone => ?_⟩
    · obtain ⟨hold, hne⟩ := List.mem_filter.mp hwaiter
      refine (hwaiting waiter hold).imp_left fun hjob => hjob.imp_left fun hinbox => ?_
      exact List.mem_filter.mpr ⟨hinbox, hne⟩
    · obtain ⟨_, hinbox, _⟩ := hempty hgone
      rw [hinbox] at hin
      cases hin
  · exact hs

theorem KeptAll.processInbox (hnil : (s.handlers id).frames = [])
    (hclosed : (s.handlers id).closed = false) {inbox : List String}
    (hinbox : (s.handlers id).inbox = mxc :: inbox) :
    KeptAll (s.goOn id { s.handlers id with
      inbox := inbox
      preparing := update (s.handlers id).preparing mxc (some false) }
      [.prepareDownload mxc, .leavePreparing mxc]) := by
  obtain ⟨hwaiting, hpreparing, _⟩ := hs id
  have hopen : ¬Closing (s.handlers id) := by
    rintro (hone | hone) <;>
      · rw [hnil] at hone
        cases hone
  refine hs.setHandler ⟨fun waiter hwaiter => .inl ?_, fun other hsome => .inl ?_, fun hgone => ?_⟩
  · rcases (hwaiting waiter hwaiter).resolve_right hopen with hin | hrunning | ⟨frame, hframe, _⟩
    · rw [hinbox] at hin
      rcases List.mem_cons.mp hin with hsame | hin
      · exact .inr (.inr ⟨.prepareDownload mxc, List.mem_cons_self, by rw [hsame]; rfl⟩)
      · exact .inl hin
    · exact .inr (.inl hrunning)
    · rw [hnil] at hframe
      cases hframe
  · have hsome : (update (s.handlers id).preparing mxc (some false) other).isSome := hsome
    rw [update_apply] at hsome
    split_ifs at hsome with hsame
    · rw [hsame]
      exact List.mem_cons_of_mem _ (List.mem_singleton_self _)
    · have hlast := (hpreparing other hsome).resolve_right hopen
      rw [hnil] at hlast
      cases hlast
  · have hgone : (s.handlers id).closed = true := hgone
    rw [hclosed] at hgone
    cases hgone

theorem KeptAll.step (hprogress : Progress s) {action : Action} (henters : Enters s action) :
    KeptAll (s.step action) := by
  cases action with
  | enqueue call id mxc waits =>
    simp only [State.step]
    split
    · exact hs
    · exact hs.same rfl
  | enter call =>
    simp only [State.step]
    split
    · rename_i target mxc waits hcall
      have hcalled : KeptAll { s with
          calls := update s.calls call
            (some { target := target, mxc := mxc, waits := waits, entered := true }) } := hs.same rfl
      exact hcalled.enqueueInto (henters _ hcall rfl) _
    · exact hs
  | cancel id mxc => exact hs.cancel mxc
  | stop id => exact hs.shares ⟨rfl, rfl, rfl, rfl, rfl⟩ rfl
  | abort id =>
    simp only [State.step]
    split_ifs with hwaits
    · obtain ⟨_, hclosed, _⟩ := hwaits
      refine hs.setHandler ⟨fun _ _ => .inr (.inl rfl), fun _ _ => .inr (.inl rfl), fun hgone => ?_⟩
      have hgone : (s.handlers id).closed = true := hgone
      rw [hgone] at hclosed
      cases hclosed
    · exact hs
  | processInbox id =>
    simp only [State.step]
    split
    · rename_i hnil hclosed hinbox
      exact hs.processInbox hnil hclosed hinbox
    · exact hs
  | processSeek id mxc index present =>
    simp only [State.step]
    split
    · rename_i hnil hclosed
      split_ifs
      · exact hs.begins hnil hclosed (requestSeekChunk_alike ..) _
      · exact hs.begins hnil hclosed alike_refl _
    · exact hs
  | handleCancellation id mxc =>
    simp only [State.step]
    split
    · rename_i hnil hclosed _
      rw [State.handleCancellation]
      cases (s.handlers id).mainRequest mxc with
      | none => exact hs.begins hnil hclosed alike_refl _
      | some entry =>
        simp only
        split_ifs
        · exact hs.begins hnil hclosed (by exact ⟨rfl, rfl, rfl, rfl, rfl⟩) _
        · exact hs.begins hnil hclosed (by exact ⟨rfl, rfl, rfl, rfl, rfl⟩) _
        · exact hs
    · exact hs
  | closeIdle id =>
    simp only [State.step]
    split
    · have hreleased : ∀ claims, KeptAll { s with claims := claims } := fun _ => hs.same rfl
      exact (hreleased _).shares ⟨rfl, rfl, rfl, rfl, rfl⟩ rfl
    · exact hs
  | forgetSeek id mxc =>
    simp only [State.step]
    split
    · exact hs.shares ⟨rfl, rfl, rfl, rfl, rfl⟩ rfl
    · exact hs
  | send id =>
    simp only [State.step]
    split
    · exact hs
    · exact hs.shares ⟨rfl, rfl, rfl, rfl, rfl⟩ rfl
  | handleReply id request reply =>
    simp only [State.step]
    split
    · rename_i hnil hclosed
      split_ifs
      · exact hs.handleReply hnil hclosed request reply
      · exact hs
    · exact hs
  | run id answer =>
    simp only [State.step]
    split
    · exact hs
    · rename_i frame rest hframes
      by_cases hgone : (s.handlers id).closed = true ∨ Closing (s.handlers id)
      · exact hs.closes hgone hframes
      · rw [not_or, Bool.not_eq_true] at hgone
        obtain ⟨hclosed, hopen⟩ := hgone
        have hok : Driven (s.handlers id) := by
          refine (hprogress id).resolve_left ?_
          rintro (⟨hgone, _⟩ | hone | hone)
          · rw [hclosed] at hgone
            cases hgone
          · exact hopen (.inl hone)
          · exact hopen (.inr hone)
        exact hs.advance hopen hclosed hok.stacked hframes henters

end

end Kept

/-- The caller has its one result, or it is with one handler that has the job of its file or
is about to answer it or to hand it over. -/
def Told (s : State) (call : Nat) : Prop :=
  ((s.results.map Prod.fst).count call = 1 ∧ ∀ id, (s.handlers id).held.count call = 0) ∨
    ((s.results.map Prod.fst).count call = 0 ∧ ∃ id, (s.handlers id).held.count call = 1 ∧
      (∀ other, other ≠ id → (s.handlers other).held.count call = 0) ∧
      ((∃ mxc, (mxc, call) ∈ (s.handlers id).waiters ∧
          ((s.handlers id).HasJob mxc ∨ Closing (s.handlers id))) ∨
        ∃ frame ∈ (s.handlers id).frames, call ∈ frame.waiting))

variable {s : State}

theorem told_of_kept (hs : KeptAll s) (hcounts : Accounted s) {call : Nat}
    (howed : s.owed call = 1) : Told s call := by
  have htotal := hcounts call
  rw [howed] at htotal
  rcases htotal.one with hanswered | ⟨hnone, id, hone, hothers⟩
  · exact .inl hanswered
  · refine .inr ⟨hnone, id, hone, hothers, ?_⟩
    have hheld : call ∈ (s.handlers id).held := List.count_pos_iff.mp (by omega)
    rcases List.mem_append.mp hheld with hwaits | hwaits
    · obtain ⟨waiter, hwaiter, rfl⟩ := List.mem_map.mp hwaits
      exact .inl ⟨waiter.1, hwaiter, (hs id).waiting waiter hwaiter⟩
    · exact .inr (List.mem_flatMap.mp hwaits)

/-- In every run in which nothing is put in where it does not come to a job, every caller is
told once, what is put in where it may be has a job, no file stays among those that are
prepared, and a file that counts as running has its job. -/
theorem waiters_told (actions : List Action)
    (henters : Runs.Along State.step Enters .start actions) :
    let s := Runs.run State.step .start actions
    (∀ call, s.owed call = 1 → Told s call) ∧
      (∀ call, s.owed call = 0 → (s.results.map Prod.fst).count call = 0) ∧
      (∀ id mxc waiters, (s.handlers id).Takes mxc →
        let h := (s.handlers id).enqueueInto mxc waiters
        h.HasJob mxc ∧ (h.statusIn mxc = some .queued →
          mxc ∈ h.inbox ∨ ∃ frame ∈ h.frames, frame.prepares = some mxc)) ∧
      ∀ id, (s.handlers id).frames = [] → ∀ mxc, (s.handlers id).preparing mxc = none ∧
        (((s.handlers id).downloading mxc).isSome → mains mxc (s.handlers id).inFlight = 1) := by
  have hall : Progress (Runs.run State.step .start actions) ∧
      Accounted (Runs.run State.step .start actions) ∧ KeptAll (Runs.run State.step .start actions) :=
    Runs.run_invariant_along (fun s => Progress s ∧ Accounted s ∧ KeptAll s)
      (fun s action henter hs => ⟨hs.1.step action, hs.2.1.step hs.1 action, hs.2.2.step hs.1 henter⟩)
      actions _ henters ⟨fun _ => .inr driven_start, accounted_start, keptAll_start⟩
  obtain ⟨hprogress, hcounts, hkept⟩ := hall
  refine ⟨fun call => told_of_kept hkept hcounts, fun call howed => ?_, fun id mxc waiters htakes => ?_,
    fun id hnil mxc => ⟨?_, fun hrunning => ?_⟩⟩
  · have htotal := hcounts call
    rw [howed] at htotal
    exact htotal.zero.1
  · have hjob := hasJob_enqueueInto htakes waiters
    exact ⟨hjob, fun hqueued => queued_of_hasJob hjob hqueued⟩
  · cases hsome : (Runs.run State.step .start actions).handlers id |>.preparing mxc with
    | none => rfl
    | some cancelled =>
        rcases (hkept id).preparing mxc (by rw [hsome]; rfl) with hlast | hone | hone <;>
          · rw [hnil] at *
            contradiction
  · have hclosed : ((Runs.run State.step .start actions).handlers id).closed = false := by
      by_contra hgone
      rw [Bool.not_eq_false] at hgone
      obtain ⟨_, _, _, hnone⟩ := (hkept id).closed hgone
      rw [(hnone mxc).1] at hrunning
      cases hrunning
    rcases (hprogress.driven hnil hclosed).job mxc hrunning with ⟨hwaits, _⟩ | ⟨frame, hframe, _⟩
    · exact hwaits
    · rw [hnil] at hframe
      cases hframe

/-- The handler is about to hand waiters over. -/
def handsOverNext (s : State) (id : Nat) : Bool :=
  match (s.handlers id).frames with
  | .enqueueInto _ _ _ :: _ => true
  | _ => false

theorem enters_run {id : Nat} {answer : Answer} (h : handsOverNext s id = false) :
    Enters s (.run id answer) := by
  intro target mxc waiters rest hframes
  rw [handsOverNext, hframes] at h
  cases h

theorem enters_enter {call : Nat} (called : Call) (hcall : s.calls call = some called)
    (htakes : (s.handlers called.target).Takes called.mxc) : Enters s (.enter call) := by
  intro other hother _
  rw [hcall, Option.some.injEq] at hother
  subst hother
  exact htakes

theorem waiters_told_download : Told (Runs.run State.step .start exampleDownload) 0 := by
  refine (waiters_told exampleDownload ⟨trivial, ?_, trivial, ?_⟩).1 0 (by decide +kernel)
  · exact enters_enter { target := 0, mxc := "m", waits := true, entered := false }
      (by decide +kernel) (by decide +kernel)
  · refine ⟨enters_run ?_, enters_run ?_, enters_run ?_, enters_run ?_, enters_run ?_, enters_run ?_,
      enters_run ?_, enters_run ?_, enters_run ?_, trivial, trivial, enters_run ?_, trivial, trivial,
      enters_run ?_, enters_run ?_, enters_run ?_, enters_run ?_, enters_run ?_, enters_run ?_,
      enters_run ?_, enters_run ?_, enters_run ?_, trivial⟩ <;>
      decide +kernel

/-- The file was complete, its waiters were answered, and it still counts as prepared when
another caller puts it in. -/
def exampleGap : List Action :=
  [.enqueue 0 0 "m" true, .enter 0, .processInbox 0, .run 0 .yes, .run 0 .yes, .run 0 .yes,
    .run 0 .yes, .run 0 .yes, .enqueue 1 0 "m" true, .enter 1, .run 0 .yes]

/-- That caller is told that its job is queued, and nobody answers it. -/
theorem untold_gap :
    ¬∀ call, (Runs.run State.step .start exampleGap).owed call = 1 →
      Told (Runs.run State.step .start exampleGap) call := by
  intro htold
  have hwaiters : ((Runs.run State.step .start exampleGap).handlers 0).waiters = [("m", 1)] := by
    decide +kernel
  have hframes : ((Runs.run State.step .start exampleGap).handlers 0).frames = [] := by decide +kernel
  have hheld : ((Runs.run State.step .start exampleGap).handlers 0).held.count 1 = 1 := by
    decide +kernel
  rcases htold 1 (by decide +kernel) with ⟨hone, _⟩ | ⟨_, id, _, hothers, hjob⟩
  · exact absurd hone (by decide +kernel)
  · obtain rfl : id = 0 := by
      by_contra hne
      rw [hothers 0 (Ne.symm hne)] at hheld
      cases hheld
    rcases hjob with ⟨mxc, hin, hjob | hone | hone⟩ | ⟨frame, hframe, _⟩
    · rw [hwaiters, List.mem_singleton] at hin
      cases hin
      exact absurd hjob (by decide +kernel)
    · rw [hframes] at hone
      cases hone
    · rw [hframes] at hone
      cases hone
    · rw [hframes] at hframe
      cases hframe

end DownloadQueue
end WbfMatrixClient
