import Mathlib.Algebra.BigOperators.Group.List.Basic
import Mathlib.Algebra.GroupWithZero.Nat
import Mathlib.Data.List.Nodup
import WbfMatrixClient.DownloadClaims

/-!
# No job gets stuck

A job that runs waits for exactly one request, the next piece of its file. Every branch in
which that request has come back wants the next one or ends the job. What a handler has in
flight is still with its line, so that it comes back.
-/

namespace WbfMatrixClient
namespace DownloadQueue

open Function

/-- How often the job of a file waits for something. -/
def mains (mxc : String) (entries : List InFlight) : Nat :=
  (entries.map fun entry => if entry.request.mxc = mxc then entry.waiters.count .main else 0).sum

section Mains

variable {mxc : String} {entries : List InFlight} {request : Request}

theorem mains_append (entries others : List InFlight) :
    mains mxc (entries ++ others) = mains mxc entries + mains mxc others := by simp [mains]

theorem mains_singleton (entry : InFlight) :
    mains mxc [entry] = if entry.request.mxc = mxc then entry.waiters.count .main else 0 := by
  simp [mains]

theorem mains_cons (entry : InFlight) (entries : List InFlight) :
    mains mxc (entry :: entries) = mains mxc [entry] + mains mxc entries :=
  mains_append [entry] entries

theorem mains_eq_zero (h : ∀ entry ∈ entries, entry.request.mxc = mxc → .main ∉ entry.waiters) :
    mains mxc entries = 0 := by
  refine List.sum_eq_zero fun count hcount => ?_
  obtain ⟨entry, hentry, rfl⟩ := List.mem_map.mp hcount
  split_ifs with hmxc
  · exact List.count_eq_zero_of_not_mem (h entry hentry hmxc)
  · rfl

/-- The entry of a request is the only one for it. -/
theorem mains_remove (hkeys : (entries.map InFlight.request).Nodup) {entry : InFlight}
    (hentry : entry ∈ entries) :
    mains mxc entries =
      mains mxc [entry] + mains mxc (entries.filter fun other => other.request ≠ entry.request) := by
  induction entries with
  | nil => cases hentry
  | cons first entries ih =>
    rw [List.map_cons, List.nodup_cons] at hkeys
    obtain ⟨hfresh, hkeys⟩ := hkeys
    rcases List.mem_cons.mp hentry with rfl | hentry
    · have hothers : entries.filter (fun other => other.request ≠ entry.request) = entries := by
        refine List.filter_eq_self.mpr fun other hother => decide_eq_true ?_
        intro hsame
        exact hfresh (hsame ▸ List.mem_map_of_mem hother)
      rw [List.filter_cons_of_neg (by simp), hothers, ← mains_cons]
    · have hne : first.request ≠ entry.request := by
        intro hsame
        exact hfresh (hsame ▸ List.mem_map_of_mem hentry)
      have hcons := @mains_cons mxc first (entries.filter fun other => other.request ≠ entry.request)
      rw [List.filter_cons_of_pos (by simpa using hne), hcons, mains_cons, ih hkeys hentry]
      omega

/-- Who is added to an entry is counted once. -/
theorem mains_join (hkeys : (entries.map InFlight.request).Nodup) {entry : InFlight}
    (hentry : entry ∈ entries) (waiting : Waiting) :
    mains mxc (entries.map fun other =>
        if other.request = entry.request then
          { other with waiters := other.waiters ++ [waiting] }
        else
          other) =
      mains mxc entries + if entry.request.mxc = mxc then [waiting].count .main else 0 := by
  induction entries with
  | nil => cases hentry
  | cons first entries ih =>
    rw [List.map_cons, List.nodup_cons] at hkeys
    obtain ⟨hfresh, hkeys⟩ := hkeys
    rcases List.mem_cons.mp hentry with rfl | hentry
    · have hothers : entries.map (fun other => if other.request = entry.request then
          { other with waiters := other.waiters ++ [waiting] } else other) = entries := by
        refine (List.map_congr_left fun other hother => if_neg ?_).trans (List.map_id' _)
        intro hsame
        exact hfresh (hsame ▸ List.mem_map_of_mem hother)
      rw [List.map_cons, hothers, if_pos rfl, mains_cons, mains_cons entry, mains_singleton,
        mains_singleton]
      simp only [List.count_append]
      split_ifs <;> omega
    · have hne : first.request ≠ entry.request := by
        intro hsame
        exact hfresh (hsame ▸ List.mem_map_of_mem hentry)
      rw [List.map_cons, if_neg hne, mains_cons, ih hkeys hentry, mains_cons first entries]
      omega

theorem mains_filter_mxc (mxc other : String) (entries : List InFlight) :
    mains mxc (entries.filter fun entry => entry.request.mxc ≠ other) =
      if mxc = other then 0 else mains mxc entries := by
  induction entries with
  | nil => simp [mains]
  | cons first entries ih =>
    rw [← List.singleton_append, List.filter_append, mains_append, ih, mains_append,
      mains_singleton]
    by_cases hfirst : first.request.mxc = other
    · rw [List.filter_cons_of_neg (by simpa using hfirst), List.filter_nil]
      by_cases hsame : mxc = other
      · simp [hsame, mains]
      · have hne : first.request.mxc ≠ mxc := fun h => hsame (h.symm.trans hfirst)
        simp [hsame, hne, mains]
    · rw [List.filter_cons_of_pos (by simpa using hfirst), List.filter_nil, mains_singleton]
      by_cases hsame : mxc = other
      · have hne : first.request.mxc ≠ mxc := fun h => hfirst (h.trans hsame)
        simp [hsame, hfirst]
      · simp [hsame]

end Mains

/-- Every entry has its own request, and the request is still with the line. -/
structure TableOk (h : Handler) : Prop where
  keys : (h.inFlight.map InFlight.request).Nodup
  line : ∀ entry ∈ h.inFlight, entry.request ∈ h.queue ∨ entry.request ∈ h.sent

section Table

variable {h h' : Handler}

section

variable (hok : TableOk h)

include hok

theorem TableOk.same (hinFlight : h'.inFlight = h.inFlight) (hqueue : h'.queue = h.queue)
    (hsent : h'.sent = h.sent) : TableOk h' := by
  refine ⟨by rw [hinFlight]; exact hok.keys, ?_⟩
  rw [hinFlight, hqueue, hsent]
  exact hok.line

theorem TableOk.keys_append {request : Request}
    (hfresh : ∀ entry ∈ h.inFlight, entry.request ≠ request) (entry : InFlight)
    (hentry : entry.request = request) : ((h.inFlight ++ [entry]).map InFlight.request).Nodup := by
  rw [List.map_append, List.map_singleton, hentry, List.nodup_append]
  refine ⟨hok.keys, List.nodup_singleton _, ?_⟩
  intro first hfirst second hsecond
  obtain ⟨old, hold, rfl⟩ := List.mem_map.mp hfirst
  rw [List.mem_singleton.mp hsecond]
  exact hfresh old hold

theorem TableOk.want (request : Request) (waiting : Waiting) (atFront : Bool) :
    TableOk (h.want request waiting atFront) ∧
      ∀ mxc, mains mxc (h.want request waiting atFront).inFlight =
        mains mxc h.inFlight + if request.mxc = mxc then [waiting].count .main else 0 := by
  rw [Handler.want]
  by_cases hany : h.inFlight.any fun entry => entry.request = request
  · rw [if_pos hany]
    obtain ⟨entry, hentry, hsame⟩ := List.any_eq_true.mp hany
    obtain rfl : entry.request = request := of_decide_eq_true hsame
    refine ⟨⟨?_, ?_⟩, fun mxc => mains_join hok.keys hentry waiting⟩
    · have hkeys : (h.inFlight.map fun other => if other.request = entry.request then
          { other with waiters := other.waiters ++ [waiting] } else other).map InFlight.request =
            h.inFlight.map InFlight.request := by
        rw [List.map_map]
        refine List.map_congr_left fun other _ => ?_
        simp only [comp_apply]
        split_ifs <;> rfl
      rw [hkeys]
      exact hok.keys
    · intro joined hjoined
      obtain ⟨other, hother, rfl⟩ := List.mem_map.mp hjoined
      have hrequest : (if other.request = entry.request then
          { other with waiters := other.waiters ++ [waiting] } else other).request =
            other.request := by
        split_ifs <;> rfl
      rw [hrequest]
      refine (hok.line other hother).imp_left fun hqueue => ?_
      by_cases hfront : atFront ∧ entry.request ∈ h.queue
      · rw [if_pos hfront]
        by_cases hfirst : other.request = entry.request
        · rw [hfirst]
          exact List.mem_cons_self
        · exact List.mem_cons_of_mem _ ((List.mem_erase_of_ne hfirst).mpr hqueue)
      · rw [if_neg hfront]
        exact hqueue
  · rw [if_neg hany]
    have hfresh : ∀ entry ∈ h.inFlight, entry.request ≠ request := by
      intro entry hentry hsame
      exact hany (List.any_eq_true.mpr ⟨entry, hentry, decide_eq_true hsame⟩)
    refine ⟨⟨?_, ?_⟩, fun mxc => ?_⟩
    · exact hok.keys_append hfresh _ rfl
    · intro entry hentry
      rcases List.mem_append.mp hentry with hentry | hentry
      · refine (hok.line entry hentry).imp_left fun hqueue => ?_
        cases atFront with
        | true => exact List.mem_cons_of_mem _ hqueue
        | false => exact List.mem_append_left _ hqueue
      · left
        rw [List.mem_singleton.mp hentry]
        cases atFront with
        | true => exact List.mem_cons_self
        | false => exact List.mem_append_right _ (List.mem_singleton_self _)
    · rw [mains_append, mains_singleton]

theorem TableOk.resend {request : Request} (hfresh : ∀ entry ∈ h.inFlight, entry.request ≠ request)
    (waiters : List Waiting) (retries : Retries) :
    TableOk (h.resend request waiters retries) ∧
      ∀ mxc, mains mxc (h.resend request waiters retries).inFlight =
        mains mxc h.inFlight + if request.mxc = mxc then waiters.count .main else 0 := by
  rw [Handler.resend]
  refine ⟨⟨?_, ?_⟩, fun mxc => by rw [mains_append, mains_singleton]⟩
  · exact hok.keys_append hfresh _ rfl
  · intro entry hentry
    rcases List.mem_append.mp hentry with hentry | hentry
    · exact (hok.line entry hentry).imp_left (List.mem_cons_of_mem _)
    · rw [List.mem_singleton.mp hentry]
      exact .inl List.mem_cons_self

/-- A request is taken out of the line, and its entry with it. -/
theorem TableOk.remove {request : Request}
    (hinFlight : h'.inFlight = h.inFlight.filter fun other => other.request ≠ request)
    (hqueue : h'.queue = h.queue ∨ h'.queue = h.queue.erase request)
    (hsent : h'.sent = h.sent ∨ h'.sent = h.sent.erase request) :
    TableOk h' ∧ ∀ entry ∈ h'.inFlight, entry.request ≠ request := by
  have hfresh : ∀ entry ∈ h'.inFlight, entry ∈ h.inFlight ∧ entry.request ≠ request := by
    intro entry hentry
    rw [hinFlight, List.mem_filter] at hentry
    exact ⟨hentry.1, of_decide_eq_true hentry.2⟩
  refine ⟨⟨?_, fun entry hentry => ?_⟩, fun entry hentry => (hfresh entry hentry).2⟩
  · rw [hinFlight]
    exact hok.keys.sublist (List.filter_sublist.map _)
  · obtain ⟨hbefore, hne⟩ := hfresh entry hentry
    refine (hok.line entry hbefore).imp (fun hin => ?_) fun hin => ?_
    · rcases hqueue with hsame | herase
      · rw [hsame]
        exact hin
      · rw [herase]
        exact (List.mem_erase_of_ne hne).mpr hin
    · rcases hsent with hsame | herase
      · rw [hsame]
        exact hin
      · rw [herase]
        exact (List.mem_erase_of_ne hne).mpr hin

omit hok in
theorem mem_foldl_erase {request : Request} (entries : List InFlight)
    (hother : ∀ entry ∈ entries, entry.request ≠ request) {queue : List Request}
    (h : request ∈ queue) :
    request ∈ entries.foldl (fun queue entry => queue.erase entry.request) queue := by
  induction entries generalizing queue with
  | nil => exact h
  | cons first entries ih =>
    refine ih (fun entry hentry => hother entry (List.mem_cons_of_mem _ hentry)) ?_
    exact (List.mem_erase_of_ne (hother first List.mem_cons_self).symm).mpr h

theorem TableOk.dropRequests (mxc : String) : TableOk (h.dropRequests mxc) := by
  rw [Handler.dropRequests]
  refine ⟨hok.keys.sublist (List.filter_sublist.map _), fun entry hentry => ?_⟩
  obtain ⟨hbefore, hne⟩ := List.mem_filter.mp hentry
  refine (hok.line entry hbefore).imp_left fun hin => mem_foldl_erase _ (fun other hother => ?_) hin
  intro hsame
  have hmxc := of_decide_eq_true (List.mem_filter.mp hother).2
  rw [hsame] at hmxc
  exact of_decide_eq_true hne hmxc

theorem TableOk.requestSeekChunk (mxc : String) (index : Nat) (present : Bool) :
    TableOk (h.requestSeekChunk mxc index present) ∧
      ∀ other, mains other (h.requestSeekChunk mxc index present).inFlight = mains other h.inFlight := by
  have hwant : ∀ request atFront, TableOk (h.want request (.seek index) atFront) ∧
      ∀ other, mains other (h.want request (.seek index) atFront).inFlight =
        mains other h.inFlight := by
    intro request atFront
    obtain ⟨hwanted, hmains⟩ := hok.want request (.seek index) atFront
    refine ⟨hwanted, fun other => (hmains other).trans ?_⟩
    have hnone : [Waiting.seek index].count .main = 0 := by simp
    rw [hnone, ite_self, Nat.add_zero]
  rw [Handler.requestSeekChunk]
  cases h.opened mxc with
  | some verified =>
    simp only
    split_ifs
    · exact ⟨hok, fun _ => rfl⟩
    · exact hwant _ _
    · exact hwant _ _
  | none =>
    cases h.seekOnly mxc with
    | some verified => exact hwant _ _
    | none => exact ⟨hok, fun _ => rfl⟩

end

theorem TableOk.requestSeeks (mxc : String) (present : List Nat) (waiters : List Waiting)
    (hok : TableOk h) :
    TableOk (h.requestSeeks mxc present waiters) ∧
      ∀ other, mains other (h.requestSeeks mxc present waiters).inFlight = mains other h.inFlight := by
  induction waiters generalizing h with
  | nil => exact ⟨hok, fun _ => rfl⟩
  | cons waiting waiters ih =>
    cases waiting with
    | main => exact ih hok
    | seek index =>
      obtain ⟨hasked, hmains⟩ := hok.requestSeekChunk mxc index (index ∈ present)
      obtain ⟨hrest, hlater⟩ := ih hasked
      exact ⟨hrest, fun other => (hlater other).trans (hmains other)⟩

end Table

/-- The file whose job the function brings further, or ends. -/
def Frame.drives : Frame → Option String
  | .continueMain mxc | .finishJob mxc | .adopt mxc | .recordFinished mxc | .resetUnfinished mxc
  | .releaseFinished mxc _ | .endIfRunning mxc | .endJob mxc _ => some mxc
  | _ => none

/-- The file whose job the function stops, whatever it waits for. -/
def Frame.fails : Frame → Option String
  | .failMedia mxc _ => some mxc
  | _ => none

/-- The file that has no job while the handler is in the function. -/
def Frame.without : Frame → Option String
  | .findComplete mxc | .claim mxc | .beginRow mxc | .openFile mxc | .openFailed mxc
  | .refusedClaim mxc | .handOver mxc | .opened mxc | .startJob mxc | .closeCancelled mxc _ _ => some mxc
  | _ => none

attribute [simp] Frame.drives Frame.fails Frame.without

/-- A function that is run when the others have returned. -/
def Frame.IsLast (frame : Frame) : Prop :=
  ∃ mxc, frame = .leavePreparing mxc

/-- What is below the function that a handler is in, and that a file which is finished is
open. -/
def Stacked (opened : String → Option Bool) : List Frame → Prop
  | [] => True
  | .answerSeeks mxc :: rest =>
      ∃ jobEnd below, rest = .endJob mxc jobEnd :: below ∧ ∀ frame ∈ below, frame.IsLast
  | .discard mxc _ :: rest =>
      ∃ below, rest = .cacheReset mxc :: .endIfRunning mxc :: below ∧ ∀ frame ∈ below, frame.IsLast
  | .cacheReset mxc :: rest =>
      ∃ below, rest = .endIfRunning mxc :: below ∧ ∀ frame ∈ below, frame.IsLast
  | .finishJob mxc :: rest => (opened mxc).isSome ∧ ∀ frame ∈ rest, frame.IsLast
  | .closeFiles :: _ | .closeQueue :: _ => False
  | _ :: rest => ∀ frame ∈ rest, frame.IsLast

/-- Every job waits for one request, or a function of the handler brings it further. -/
structure Driven (h : Handler) : Prop where
  table : TableOk h
  stacked : Stacked h.opened h.frames
  starting : ∀ frame ∈ h.frames, ∀ mxc, frame.without = some mxc → h.downloading mxc = none
  driving : ∀ frame ∈ h.frames, ∀ mxc, frame.drives = some mxc → mains mxc h.inFlight = 0
  idle : ∀ mxc, h.downloading mxc = none → mains mxc h.inFlight = 0
  bound : ∀ mxc, mains mxc h.inFlight ≤ 1
  job : ∀ mxc, (h.downloading mxc).isSome →
    (mains mxc h.inFlight = 1 ∧ (h.opened mxc).isSome) ∨
      ∃ frame ∈ h.frames, frame.drives = some mxc ∨ frame.fails = some mxc

/-- The handler was taken down. -/
def Gone (h : Handler) : Prop :=
  (h.closed = true ∧ (h.frames = [] ∨ ∃ jobEnd waiters, h.frames = [.answer jobEnd waiters])) ∨
    h.frames = [.closeFiles] ∨ h.frames = [.closeQueue]

def Progress (s : State) : Prop :=
  ∀ id, Gone (s.handlers id) ∨ Driven (s.handlers id)

theorem driven_start : Driven .start where
  table := ⟨List.nodup_nil, fun _ h => absurd h List.not_mem_nil⟩
  stacked := trivial
  starting := fun _ h => absurd h List.not_mem_nil
  driving := fun _ h => absurd h List.not_mem_nil
  idle := fun _ _ => rfl
  bound := fun _ => Nat.zero_le _
  job := fun _ h => absurd h Bool.false_ne_true

section Driven

variable {h h' : Handler} {s : State} {id : Nat}

theorem IsLast.drives {frame : Frame} (h : frame.IsLast) :
    frame.drives = none ∧ frame.fails = none ∧ frame.without = none := by
  obtain ⟨mxc, rfl⟩ := h
  exact ⟨rfl, rfl, rfl⟩

theorem Progress.setHandler (hs : Progress s) (hok : Gone h' ∨ Driven h') :
    Progress (s.setHandler id h') := by
  intro other
  rw [State.setHandler]
  by_cases hsame : other = id
  · subst hsame
    simp only [update_self]
    exact hok
  · simp only [update_of_ne hsame]
    exact hs other

/-- What a handler shares changes, its jobs and its requests do not. -/
theorem Driven.same (hok : Driven h) (hinFlight : h'.inFlight = h.inFlight)
    (hqueue : h'.queue = h.queue) (hsent : h'.sent = h.sent) (hframes : h'.frames = h.frames)
    (hopened : h'.opened = h.opened)
    (hdownloading : ∀ mxc, (h'.downloading mxc).isSome = (h.downloading mxc).isSome) :
    Driven h' := by
  have hnone : ∀ mxc, h'.downloading mxc = none ↔ h.downloading mxc = none := by
    intro mxc
    rw [← Option.isNone_iff_eq_none, ← Option.isNone_iff_eq_none, ← Option.not_isSome,
      ← Option.not_isSome, hdownloading mxc]
  constructor
  case table => exact hok.table.same hinFlight hqueue hsent
  case stacked =>
    rw [hframes, hopened]
    exact hok.stacked
  case starting =>
    rw [hframes]
    exact fun frame hframe mxc hstarts => (hnone mxc).mpr (hok.starting frame hframe mxc hstarts)
  case driving =>
    rw [hframes, hinFlight]
    exact hok.driving
  case idle =>
    rw [hinFlight]
    exact fun mxc hrunning => hok.idle mxc ((hnone mxc).mp hrunning)
  case bound =>
    rw [hinFlight]
    exact hok.bound
  case job =>
    rw [hinFlight, hframes, hopened]
    exact fun mxc hrunning => hok.job mxc (by rw [← hdownloading mxc]; exact hrunning)

variable {frame : Frame} {rest frames : List Frame}

/-- The handler goes on with other functions, and its jobs and its requests stay. -/
theorem Driven.goOn (hok : Driven h) (hbefore : h.frames = frame :: rest)
    (hframes : h'.frames = frames) (hinFlight : h'.inFlight = h.inFlight)
    (hqueue : h'.queue = h.queue) (hsent : h'.sent = h.sent)
    (hdownloading : h'.downloading = h.downloading)
    (hopened : ∀ mxc, (h.downloading mxc).isSome → (h.opened mxc).isSome → (h'.opened mxc).isSome ∨
      ∃ top ∈ frames, top.drives = some mxc ∨ top.fails = some mxc)
    (hstacked : Stacked h'.opened frames)
    (htops : ∀ top ∈ frames, top ∈ rest ∨ (∀ mxc, top.without = some mxc → h.downloading mxc = none)
      ∧ ∀ mxc, top.drives = some mxc → mains mxc h.inFlight = 0)
    (hkeeps : ∀ mxc, (h.downloading mxc).isSome → frame.drives = some mxc ∨ frame.fails = some mxc →
      ∃ top ∈ frames, top.drives = some mxc ∨ top.fails = some mxc)
    (hrest : ∀ other ∈ rest, other ∈ frames) : Driven h' := by
  have hmem : ∀ other ∈ rest, other ∈ h.frames := by
    intro other hother
    rw [hbefore]
    exact List.mem_cons_of_mem _ hother
  constructor
  case table => exact hok.table.same hinFlight hqueue hsent
  case stacked =>
    rw [hframes]
    exact hstacked
  case starting =>
    rw [hframes, hdownloading]
    intro top htop mxc hstarts
    rcases htops top htop with hold | ⟨hnew, _⟩
    · exact hok.starting top (hmem top hold) mxc hstarts
    · exact hnew mxc hstarts
  case driving =>
    rw [hframes, hinFlight]
    intro top htop mxc hdrives
    rcases htops top htop with hold | ⟨_, hnew⟩
    · exact hok.driving top (hmem top hold) mxc hdrives
    · exact hnew mxc hdrives
  case idle =>
    rw [hinFlight, hdownloading]
    exact hok.idle
  case bound =>
    rw [hinFlight]
    exact hok.bound
  case job =>
    rw [hinFlight, hframes, hdownloading]
    intro mxc hrunning
    rcases hok.job mxc hrunning with ⟨hwaits, hopen⟩ | ⟨other, hother, hdrives⟩
    · exact (hopened mxc hrunning hopen).imp_left fun hstill => ⟨hwaits, hstill⟩
    · rw [hbefore] at hother
      rcases List.mem_cons.mp hother with rfl | hother
      · exact .inr (hkeeps mxc hrunning hdrives)
      · exact .inr ⟨other, hrest other hother, hdrives⟩

/-- What a handler has in flight, its jobs and its open files. -/
def Handler.work (h : Handler) :=
  (h.inFlight, h.queue, h.sent, h.downloading, h.opened)

theorem Handler.of_work (hwork : h'.work = h.work) :
    h'.inFlight = h.inFlight ∧ h'.queue = h.queue ∧ h'.sent = h.sent ∧
      h'.downloading = h.downloading ∧ h'.opened = h.opened := by simpa [Handler.work] using hwork

/-- Another function takes over what the function does for the jobs of the handler. -/
structure Handler.Follows (h : Handler) (before top : Frame) : Prop where
  without : ∀ mxc, top.without = some mxc → before.without = some mxc ∨ h.downloading mxc = none
  drives : ∀ mxc, top.drives = some mxc → before.drives = some mxc ∨ before.without = some mxc
  keeps : ∀ mxc, before.drives = some mxc ∨ before.fails = some mxc →
    top.drives = some mxc ∨ top.fails = some mxc

/-- The handler goes on with one other function. -/
theorem Driven.swap (hok : Driven h) (hbefore : h.frames = frame :: rest) {top : Frame}
    (hnext : h.Follows frame top) (hframes : h'.frames = top :: rest)
    (hinFlight : h'.inFlight = h.inFlight) (hqueue : h'.queue = h.queue) (hsent : h'.sent = h.sent)
    (hdownloading : h'.downloading = h.downloading)
    (hopened : ∀ mxc, (h.downloading mxc).isSome → (h.opened mxc).isSome → (h'.opened mxc).isSome ∨
      top.drives = some mxc ∨ top.fails = some mxc) (hstacked : Stacked h'.opened (top :: rest)) :
    Driven h' := by
  have htop : frame ∈ h.frames := by
    rw [hbefore]
    exact List.mem_cons_self
  have hwithout : ∀ mxc, top.without = some mxc → h.downloading mxc = none := by
    intro mxc hstarts
    exact (hnext.without mxc hstarts).elim (hok.starting frame htop mxc) id
  refine hok.goOn hbefore hframes hinFlight hqueue hsent hdownloading ?_ hstacked ?_ ?_
    fun other hother => List.mem_cons_of_mem _ hother
  · exact fun mxc hrunning hopen => (hopened mxc hrunning hopen).imp_right fun hnew =>
      ⟨top, List.mem_cons_self, hnew⟩
  · intro other hother
    rcases List.mem_cons.mp hother with rfl | hother
    · refine .inr ⟨hwithout, fun mxc hdrives => ?_⟩
      rcases hnext.drives mxc hdrives with hbefore | hbefore
      · exact hok.driving frame htop mxc hbefore
      · exact hok.idle mxc (hok.starting frame htop mxc hbefore)
    · exact .inl hother
  · exact fun mxc _ hold => ⟨top, List.mem_cons_self, hnext.keeps mxc hold⟩

theorem Driven.pop (hok : Driven h) (hbefore : h.frames = frame :: rest)
    (hwork : h'.work = h.work) (hframes : h'.frames = rest) (hstacked : Stacked h.opened rest)
    (hkeeps : ∀ mxc, (h.downloading mxc).isSome → frame.drives = some mxc ∨ frame.fails = some mxc →
      False) : Driven h' := by
  obtain ⟨hinFlight, hqueue, hsent, hdownloading, hopened⟩ := Handler.of_work hwork
  refine hok.goOn hbefore hframes hinFlight hqueue hsent hdownloading ?_ (by rwa [hopened]) ?_ ?_
    fun other hother => hother
  · exact fun mxc _ hopen => .inl (by rw [hopened]; exact hopen)
  · exact fun other hother => .inl hother
  · exact fun mxc hrunning hold => (hkeeps mxc hrunning hold).elim

theorem stacked_last {opened : String → Option Bool} (h : ∀ frame ∈ rest, frame.IsLast) :
    Stacked opened rest := by
  cases rest with
  | nil => trivial
  | cons first rest =>
    obtain ⟨mxc, rfl⟩ := h first List.mem_cons_self
    exact fun frame hframe => h frame (List.mem_cons_of_mem _ hframe)

/-- Where the functions of a handler are at work. -/
def AtWork (mxc : String) (frames : List Frame) : Prop :=
  ∀ frame ∈ frames, ∀ other,
    frame.without = some other ∨ frame.drives = some other ∨ frame.fails = some other → other = mxc

/-- A step that is about the job of one file. -/
theorem Driven.about (hok : Driven h) (mxc : String) (hmine : AtWork mxc h.frames)
    (htable : TableOk h')
    (hmains : ∀ other, other ≠ mxc → mains other h'.inFlight = mains other h.inFlight)
    (hdownloading : ∀ other, other ≠ mxc → h'.downloading other = h.downloading other)
    (hopened : ∀ other, other ≠ mxc → (h.opened other).isSome → (h'.opened other).isSome)
    (hstacked : Stacked h'.opened h'.frames) (hframes : AtWork mxc h'.frames)
    (hwithout : ∀ frame ∈ h'.frames, frame.without = some mxc → h'.downloading mxc = none)
    (hdrives : ∀ frame ∈ h'.frames, frame.drives = some mxc → mains mxc h'.inFlight = 0)
    (hidle : h'.downloading mxc = none → mains mxc h'.inFlight = 0)
    (hbound : mains mxc h'.inFlight ≤ 1)
    (hjob : (h'.downloading mxc).isSome → (mains mxc h'.inFlight = 1 ∧ (h'.opened mxc).isSome) ∨ ∃
      frame ∈ h'.frames, frame.drives = some mxc ∨ frame.fails = some mxc) : Driven h' := by
  constructor
  case table => exact htable
  case stacked => exact hstacked
  case starting =>
    intro frame hframe other hstarts
    obtain rfl := hframes frame hframe other (.inl hstarts)
    exact hwithout frame hframe hstarts
  case driving =>
    intro frame hframe other hother
    obtain rfl := hframes frame hframe other (.inr (.inl hother))
    exact hdrives frame hframe hother
  case idle =>
    intro other hnone
    by_cases hsame : other = mxc
    · subst hsame
      exact hidle hnone
    · rw [hmains other hsame]
      exact hok.idle other (by rw [← hdownloading other hsame]; exact hnone)
  case bound =>
    intro other
    by_cases hsame : other = mxc
    · subst hsame
      exact hbound
    · rw [hmains other hsame]
      exact hok.bound other
  case job =>
    intro other hrunning
    by_cases hsame : other = mxc
    · subst hsame
      exact hjob hrunning
    · rw [hdownloading other hsame] at hrunning
      rcases hok.job other hrunning with ⟨hwaits, hopen⟩ | ⟨frame, hframe, hold⟩
      · rw [hmains other hsame]
        exact .inl ⟨hwaits, hopened other hsame hopen⟩
      · exact absurd (hmine frame hframe other (.inr hold)) hsame

theorem atWork_last (mxc : String) (h : ∀ frame ∈ frames, frame.IsLast) : AtWork mxc frames := by
  intro frame hframe other hwork
  obtain ⟨hdrives, hfails, hwithout⟩ := IsLast.drives (h frame hframe)
  rw [hdrives, hfails, hwithout] at hwork
  rcases hwork with hwork | hwork | hwork <;> cases hwork

variable {mxc : String}

theorem atWork_cons {top : Frame}
    (htop : ∀ other, top.without = some other ∨ top.drives = some other ∨ top.fails = some other →
      other = mxc) (hrest : AtWork mxc rest) : AtWork mxc (top :: rest) := by
  intro frame hframe
  rcases List.mem_cons.mp hframe with rfl | hframe
  · exact htop
  · exact hrest frame hframe

theorem last_drives (h : ∀ frame ∈ frames, frame.IsLast) :
    (∀ frame ∈ frames, frame.without ≠ some mxc) ∧ ∀ frame ∈ frames, frame.drives ≠ some mxc := by
  refine ⟨fun frame hframe hwork => ?_, fun frame hframe hwork => ?_⟩
  · rw [(IsLast.drives (h frame hframe)).2.2] at hwork
    cases hwork
  · rw [(IsLast.drives (h frame hframe)).1] at hwork
    cases hwork

/-- The job of a file gets the next request to wait for. -/
theorem Driven.wantMain (hok : Driven h) (hbefore : h.frames = .continueMain mxc :: rest)
    (hrunning : (h.downloading mxc).isSome) (hopen : (h.opened mxc).isSome) {request : Request}
    (hrequest : request.mxc = mxc) : Driven { h.want request .main false with frames := rest } := by
  have hlast : ∀ frame ∈ rest, frame.IsLast := by
    have hstacked := hok.stacked
    rw [hbefore] at hstacked
    exact hstacked
  have hnone : mains mxc h.inFlight = 0 :=
    hok.driving (.continueMain mxc) (by rw [hbefore]; exact List.mem_cons_self) mxc rfl
  obtain ⟨htable, hmains⟩ := hok.table.want request .main false
  have hfields : (h.want request .main false).downloading = h.downloading ∧
      (h.want request .main false).opened = h.opened := by
    rw [Handler.want]
    split_ifs <;> exact ⟨rfl, rfl⟩
  have hself : mains mxc (h.want request .main false).inFlight = 1 := by
    rw [hmains, hnone, if_pos hrequest]
    rfl
  refine hok.about mxc ?_ (htable.same rfl rfl rfl) (fun other hne => ?_) (fun other _ => ?_)
    (fun other _ hbefore => ?_) (stacked_last hlast) (atWork_last mxc hlast)
    (fun frame hframe hwork => absurd hwork ((last_drives hlast).1 frame hframe))
    (fun frame hframe hwork => absurd hwork ((last_drives hlast).2 frame hframe))
    (fun hgone => ?_) (Nat.le_of_eq hself) (fun _ => .inl ⟨hself, ?_⟩)
  · rw [hbefore]
    refine atWork_cons (fun other hwork => ?_) (atWork_last mxc hlast)
    rcases hwork with hwork | hwork | hwork <;> cases hwork
    rfl
  · rw [hmains, if_neg fun hsame => hne (hsame.symm.trans hrequest), Nat.add_zero]
  · exact congrFun hfields.1 other
  · change ((h.want request .main false).opened other).isSome
    rw [hfields.2]
    exact hbefore
  · change (h.want request .main false).downloading mxc = none at hgone
    rw [hfields.1] at hgone
    rw [hgone] at hrunning
    cases hrunning
  · change ((h.want request .main false).opened mxc).isSome
    rw [hfields.2]
    exact hopen

/-- Seeks want something, and the jobs stay as they are. -/
theorem Driven.asks (hok : Driven h) (htable : TableOk h')
    (hmains : ∀ mxc, mains mxc h'.inFlight = mains mxc h.inFlight) (hframes : h'.frames = h.frames)
    (hdownloading : h'.downloading = h.downloading)
    (hopened : ∀ mxc, (h.downloading mxc).isSome → (h.opened mxc).isSome → (h'.opened mxc).isSome)
    (hstacked : Stacked h'.opened h.frames) : Driven h' := by
  constructor
  case table => exact htable
  case stacked =>
    rw [hframes]
    exact hstacked
  case starting =>
    rw [hframes, hdownloading]
    exact hok.starting
  case driving =>
    rw [hframes]
    intro frame hframe mxc hdrives
    exact (hmains mxc).trans (hok.driving frame hframe mxc hdrives)
  case idle =>
    rw [hdownloading]
    exact fun mxc hnone => (hmains mxc).trans (hok.idle mxc hnone)
  case bound => exact fun mxc => (hmains mxc).trans_le (hok.bound mxc)
  case job =>
    rw [hframes, hdownloading]
    intro mxc hrunning
    rw [hmains]
    exact (hok.job mxc hrunning).imp_left fun hwaits => ⟨hwaits.1, hopened mxc hrunning hwaits.2⟩

/-- Nothing of a file is wanted any more, and its job ends next. -/
theorem Driven.drops (hok : Driven h) (hmine : AtWork mxc h.frames) {opened : String → Option Bool}
    (hopened : ∀ other, other ≠ mxc → (h.opened other).isSome → (opened other).isSome)
    (hstacked : Stacked opened frames) (hframes : AtWork mxc frames)
    (hwithout : ∀ frame ∈ frames, frame.without ≠ some mxc)
    (hends : ∃ frame ∈ frames, frame.drives = some mxc ∨ frame.fails = some mxc) :
    Driven { h.dropRequests mxc with opened := opened, frames := frames } := by
  have hnone : mains mxc (h.dropRequests mxc).inFlight = 0 :=
    (mains_filter_mxc mxc mxc h.inFlight).trans (if_pos rfl)
  exact hok.about mxc hmine ((hok.table.dropRequests mxc).same rfl rfl rfl)
    (fun other hne => (mains_filter_mxc other mxc h.inFlight).trans (if_neg hne))
    (fun _ _ => rfl) hopened hstacked hframes (fun frame hframe hwork => absurd hwork (hwithout frame hframe))
    (fun _ _ _ => hnone) (fun _ => hnone) (hnone.trans_le (Nat.zero_le 1)) fun _ => .inr hends

@[simp] theorem want_frames (request : Request) (waiting : Waiting) (atFront : Bool) :
    (h.want request waiting atFront).frames = h.frames ∧
      (h.want request waiting atFront).downloading = h.downloading := by
  rw [Handler.want]
  split_ifs <;> exact ⟨rfl, rfl⟩

@[simp] theorem requestSeekChunk_frames (mxc : String) (index : Nat) (present : Bool) :
    (h.requestSeekChunk mxc index present).frames = h.frames ∧
      (h.requestSeekChunk mxc index present).downloading = h.downloading := by
  rw [Handler.requestSeekChunk]
  cases h.opened mxc with
  | some verified =>
    simp only
    split_ifs <;> simp
  | none =>
    cases h.seekOnly mxc with
    | some verified => simp
    | none => exact ⟨rfl, rfl⟩

theorem requestSeeks_frames (mxc : String) (present : List Nat) (waiters : List Waiting)
    (h : Handler) :
    (h.requestSeeks mxc present waiters).frames = h.frames ∧
      (h.requestSeeks mxc present waiters).downloading = h.downloading := by
  induction waiters generalizing h with
  | nil => exact ⟨rfl, rfl⟩
  | cons waiting waiters ih =>
    cases waiting with
    | main => exact ih h
    | seek index => simp [Handler.requestSeeks, ih]

theorem Driven.asksSeek (hok : Driven h) (mxc : String) (index : Nat)
    (seekOnly : String → Option Bool) (present : Bool) :
    Driven ({ h with seekOnly := seekOnly }.requestSeekChunk mxc index present) := by
  have htable : TableOk { h with seekOnly := seekOnly } := hok.table.same rfl rfl rfl
  obtain ⟨hasked, hmains⟩ := htable.requestSeekChunk mxc index present
  refine hok.asks hasked hmains (requestSeekChunk_frames ..).1 (requestSeekChunk_frames ..).2
    (fun other _ hopened => ?_) ?_
  · rw [requestSeekChunk_opened]
    exact hopened
  · rw [requestSeekChunk_opened]
    exact hok.stacked

end Driven

section Steps

variable {s s' : State} {id : Nat} {h' : Handler}

section

variable (hs : Progress s)

include hs

theorem Progress.same (hhandlers : s'.handlers = s.handlers) : Progress s' := by
  intro other
  rw [hhandlers]
  exact hs other

theorem Progress.goOn {frames : List Frame} (hok : Driven { h' with frames := frames }) :
    Progress (s.goOn id h' frames) := hs.setHandler (.inr hok)

theorem Progress.takeOpen {mxc : String} {frames : List Frame}
    (hok : Driven { h' with opened := update h'.opened mxc none, frames := frames })
    (hclosed : h'.opened mxc = none → Driven { h' with frames := frames }) :
    Progress (s.takeOpen id h' mxc frames) := by
  rw [State.takeOpen]
  cases hopen : h'.opened mxc with
  | none => exact hs.goOn (hclosed hopen)
  | some verified => exact (hs.same (release_handlers mxc)).goOn hok

/-- The handler goes on with one other function, and what it works at stays. -/
theorem Progress.follow {h : Handler} (hok : Driven h) {frame top : Frame} {rest : List Frame}
    (hbefore : h.frames = frame :: rest) (hwork : h'.work = h.work) (hnext : h.Follows frame top)
    (hstacked : Stacked h.opened (top :: rest)) : Progress (s.goOn id h' (top :: rest)) := by
  obtain ⟨hinFlight, hqueue, hsent, hdownloading, hopened⟩ := Handler.of_work hwork
  refine hs.goOn (hok.swap hbefore hnext rfl hinFlight hqueue hsent hdownloading
    (fun mxc _ hopen => .inl ?_) (by rwa [hopened]))
  change (h'.opened mxc).isSome
  rw [hopened]
  exact hopen

omit hs in
theorem claim_handlers (mxc : String) : (s.claim id mxc).handlers = s.handlers := by
  rw [State.claim]
  split <;> rfl

theorem Progress.enqueueInto (target : Nat) (mxc : String) (waiters : List Nat) :
    Progress (s.setHandler target ((s.handlers target).enqueueInto mxc waiters)) := by
  refine hs.setHandler ((hs target).imp (fun hgone => ?_) fun hok => ?_)
  · rw [Gone, enqueueInto_frames]
    simp only [Handler.enqueueInto]
    split <;> exact hgone
  · simp only [Handler.enqueueInto]
    split <;> exact hok.same rfl rfl rfl rfl rfl fun _ => rfl

omit hs in
/-- The handler is in a function that is not about the job of another file. -/
theorem atWork_top {mxc : String} {top : Frame} {rest : List Frame}
    (hwork : ∀ other, top.without = some other ∨ top.drives = some other ∨ top.fails = some other →
      other = mxc) (hrest : ∀ frame ∈ rest, frame.IsLast) :
    AtWork mxc (top :: rest) := atWork_cons hwork (atWork_last mxc hrest)

theorem Progress.failMedia (hok : Driven (s.handlers id)) {answer : Answer} {mxc : String}
    {discard : Option Cause} {rest : List Frame}
    (hframes : (s.handlers id).frames = .failMedia mxc discard :: rest) :
    Progress (s.advance id (s.handlers id) answer rest (.failMedia mxc discard)) := by
  have hlast : ∀ frame ∈ rest, frame.IsLast := by
    have hstacked := hok.stacked
    rw [hframes] at hstacked
    exact hstacked
  have hmine : AtWork mxc (s.handlers id).frames := by
    rw [hframes]
    exact atWork_top (by simp) hlast
  have hend : AtWork mxc (.endIfRunning mxc :: rest) :=
    atWork_top (by simp) hlast
  have hwithout : ∀ frame ∈ Frame.endIfRunning mxc :: rest, frame.without ≠ some mxc := by
    intro frame hframe
    rcases List.mem_cons.mp hframe with rfl | hframe
    · simp
    · exact (last_drives hlast).1 frame hframe
  have hsome : ∀ other, other ≠ mxc → ((s.handlers id).opened other).isSome →
      (update (s.handlers id).opened mxc none other).isSome := by
    intro other hne hopened
    rw [update_of_ne hne]
    exact hopened
  -- the file is thrown away, or it is only closed
  have hcloses : Progress (s.takeOpen id ((s.handlers id).dropRequests mxc) mxc
      (.endIfRunning mxc :: rest)) := by
    refine hs.takeOpen (hok.drops hmine hsome hlast hend hwithout ?_) fun _ =>
      hok.drops hmine (fun _ _ hopened => hopened) hlast hend hwithout ?_
    · exact ⟨.endIfRunning mxc, List.mem_cons_self, .inl rfl⟩
    · exact ⟨.endIfRunning mxc, List.mem_cons_self, .inl rfl⟩
  have hthrows : ∀ cause, Progress (s.takeOpen id ((s.handlers id).dropRequests mxc) mxc
      (.discard mxc cause :: .cacheReset mxc :: .endIfRunning mxc :: rest)) := by
    intro cause
    have hwork : AtWork mxc (.discard mxc cause :: .cacheReset mxc :: .endIfRunning mxc :: rest) :=
      atWork_cons (by simp)
        (atWork_cons (by simp) hend)
    have hnone : ∀ frame ∈ .discard mxc cause :: .cacheReset mxc :: .endIfRunning mxc :: rest,
        frame.without ≠ some mxc := by
      intro frame hframe
      rcases List.mem_cons.mp hframe with rfl | hframe
      · simp
      · rcases List.mem_cons.mp hframe with rfl | hframe
        · simp
        · exact hwithout frame hframe
    have hends : ∃ frame ∈ .discard mxc cause :: .cacheReset mxc :: .endIfRunning mxc :: rest,
        frame.drives = some mxc ∨ frame.fails = some mxc :=
      ⟨.endIfRunning mxc, List.mem_cons_of_mem _ (List.mem_cons_of_mem _ List.mem_cons_self), .inl rfl⟩
    exact hs.takeOpen (hok.drops hmine hsome ⟨rest, rfl, hlast⟩ hwork hnone hends) fun _ =>
      hok.drops hmine (fun _ _ hopened => hopened) ⟨rest, rfl, hlast⟩ hwork hnone hends
  simp only [State.advance]
  split
  · exact hthrows _
  · exact hcloses

theorem Progress.advance (hok : Driven (s.handlers id)) {answer : Answer} {frame : Frame}
    {rest : List Frame} (hframes : (s.handlers id).frames = frame :: rest) :
    Progress (s.advance id (s.handlers id) answer rest frame) := by
  have hstacked := hok.stacked
  rw [hframes] at hstacked
  have htop : frame ∈ (s.handlers id).frames := by
    rw [hframes]
    exact List.mem_cons_self
  have hwithout : ∀ mxc, frame.without = some mxc → (s.handlers id).downloading mxc = none :=
    hok.starting frame htop
  have hdrives : ∀ mxc, frame.drives = some mxc → mains mxc (s.handlers id).inFlight = 0 :=
    hok.driving frame htop
  -- a file without a job is not waited for
  have hidle : ∀ {mxc : String}, frame.without = some mxc → mains mxc (s.handlers id).inFlight = 0 :=
    fun hnone => hok.idle _ (hwithout _ hnone)
  cases frame with
  | prepareDownload mxc =>
    simp only [State.advance]
    split_ifs with hrunning
    · exact hs.goOn (hok.pop hframes rfl rfl (stacked_last hstacked) (by simp))
    · exact hs.follow hok hframes rfl ⟨by simpa using hrunning, by simp, by simp⟩ hstacked
    · exact hs.follow hok hframes rfl ⟨by simpa using hrunning, by simp, by simp⟩ hstacked
  | findComplete mxc =>
    cases answer with
    | yes | no => exact hs.follow hok hframes rfl ⟨by simp, by simp, by simp⟩ hstacked
    | _ => exact hs
  | claim mxc =>
    simp only [State.advance]
    split_ifs
    · exact (hs.same (claim_handlers mxc)).follow hok hframes rfl ⟨by simp, by simp, by simp⟩ hstacked
    · exact hs.follow hok hframes rfl ⟨by simp, by simp, by simp⟩ hstacked
  | beginRow mxc | recordFinished mxc =>
    cases answer with
    | yes | error => exact hs.follow hok hframes rfl ⟨by simp, by simp, by simp⟩ hstacked
    | _ => exact hs
  | openFile mxc =>
    have htouched : Progress (s.touch id mxc .openFile) := hs.same rfl
    cases answer with
    | yes =>
      refine htouched.goOn (hok.swap hframes ⟨by simp, by simp, by simp⟩ rfl rfl rfl rfl rfl
        (fun other _ hopened => .inl ?_) hstacked)
      simp only [update_apply]
      split_ifs
      · rfl
      · exact hopened
    | error => exact htouched.follow hok hframes rfl ⟨by simp, by simp, by simp⟩ hstacked
    | _ => exact hs
  | openFailed mxc =>
    exact (hs.same (release_handlers mxc)).follow hok hframes rfl ⟨by simp, by simp, by simp⟩ hstacked
  | refusedClaim mxc | opened mxc =>
    simp only [State.advance]
    split_ifs <;> exact hs.follow hok hframes rfl ⟨by simp, by simp, by simp⟩ hstacked
  | handOver mxc =>
    simp only [State.advance]
    cases s.findOtherDownloader id mxc with
    | none | some target => exact hs.follow hok hframes rfl ⟨by simp, by simp, by simp⟩ hstacked
  | takeWaiters target mxc => exact hs.follow hok hframes rfl ⟨by simp, by simp, by simp⟩ hstacked
  | enqueueInto target mxc waiters =>
    have hpopped : Progress (s.goOn id (s.handlers id) rest) :=
      hs.goOn (hok.pop hframes rfl rfl (stacked_last hstacked) (by simp))
    exact hpopped.enqueueInto target mxc waiters
  | startJob mxc =>
    have hmine : AtWork mxc (s.handlers id).frames := by
      rw [hframes]
      exact atWork_top (by simp) hstacked
    have hnone : mains mxc (s.handlers id).inFlight = 0 := hidle rfl
    refine hs.goOn (hok.about mxc hmine (hok.table.same rfl rfl rfl) (fun _ _ => rfl)
      (fun other hne => update_of_ne hne ..) (fun _ _ hopened => hopened) hstacked
      (atWork_top (by simp) hstacked) ?_
      (fun _ _ _ => hnone) (fun _ => hnone) (hnone.trans_le (Nat.zero_le 1)) fun _ => .inr
        ⟨.continueMain mxc, List.mem_cons_self, .inl rfl⟩)
    intro frame hframe hwork
    rcases List.mem_cons.mp hframe with rfl | hframe
    · cases hwork
    · exact absurd hwork ((last_drives hstacked).1 frame hframe)
  | leavePreparing mxc =>
    have hpopped : Driven { s.handlers id with frames := rest } :=
      hok.pop hframes rfl rfl (stacked_last hstacked) (by simp)
    refine hs.goOn (hpopped.same rfl rfl rfl rfl rfl fun other => ?_)
    simp only
    split_ifs with hcancelled
    · by_cases hsame : other = mxc
      · subst hsame
        simp [hcancelled.2]
      · simp [update_of_ne hsame]
    · rfl
  | continueMain mxc =>
    simp only [State.advance]
    cases hrunning : (s.handlers id).downloading mxc with
    | none =>
      refine hs.goOn (hok.pop hframes rfl rfl (stacked_last hstacked) ?_)
      intro other hother hwork
      rcases hwork with hwork | hwork <;> cases hwork
      rw [hrunning] at hother
      cases hother
    | some cancelled =>
      have hend : ∀ jobEnd, Progress (s.goOn id (s.handlers id) (.endJob mxc jobEnd :: rest)) :=
        fun jobEnd => hs.follow hok hframes rfl ⟨by simp, by simp, by simp⟩ hstacked
      cases cancelled with
      | true => exact hend .cancelled
      | false =>
        cases hopen : (s.handlers id).opened mxc with
        | none => exact hend .failed
        | some verified =>
          have htouched : Progress (s.touch id mxc .write) := hs.same rfl
          simp only
          split_ifs
          · exact hs.follow hok hframes rfl ⟨by simp, by simp, by simp⟩ ⟨by rw [hopen]; rfl, hstacked⟩
          · exact hs.goOn (hok.wantMain hframes (by rw [hrunning]; rfl) (by rw [hopen]; rfl) rfl)
          · cases answer with
            | moved | error =>
              exact htouched.follow hok hframes rfl ⟨by simp, by simp, by simp⟩ hstacked
            | chunk index =>
              exact hs.goOn (hok.wantMain hframes (by rw [hrunning]; rfl)
                (by rw [hopen]; rfl) rfl)
            | _ => exact hs
  | finishJob mxc =>
    simp only [State.advance]
    cases hopen : (s.handlers id).opened mxc with
    | none => exact absurd hstacked.1 (by rw [hopen]; exact Bool.false_ne_true)
    | some verified =>
      refine hs.goOn (hok.swap hframes ⟨by simp, by simp, by simp⟩ rfl rfl rfl rfl rfl
        (fun other _ hopened => ?_) hstacked.2)
      by_cases hsame : other = mxc
      · rw [hsame]
        exact .inr (.inl rfl)
      · left
        simp only
        rw [update_of_ne hsame]
        exact hopened
  | adopt mxc =>
    have htouched : Progress (s.touch id mxc .move) := hs.same rfl
    cases answer with
    | yes | error => exact htouched.follow hok hframes rfl ⟨by simp, by simp, by simp⟩ hstacked
    | _ => exact hs
  | resetUnfinished mxc =>
    have htouched : Progress
        { s.touch id mxc .reset with discards := s.discards ++ [Cause.notFinished] } := hs.same rfl
    exact htouched.follow hok hframes rfl ⟨by simp, by simp, by simp⟩ hstacked
  | releaseFinished mxc jobEnd =>
    refine (hs.same (release_handlers mxc)).goOn (hok.goOn hframes rfl rfl rfl rfl rfl
      (fun _ _ hopened => .inl hopened) ⟨jobEnd, rest, rfl, hstacked⟩ (fun top htop => ?_)
      (fun other _ hwork => ?_) fun other hother =>
        List.mem_cons_of_mem _ (List.mem_cons_of_mem _ hother))
    · rcases List.mem_cons.mp htop with rfl | htop
      · exact .inr ⟨by simp, by simp⟩
      · rcases List.mem_cons.mp htop with rfl | htop
        · exact .inr ⟨by simp, by simpa using hdrives mxc rfl⟩
        · exact .inl htop
    · rcases hwork with hwork | hwork <;> cases hwork
      exact ⟨.endJob mxc jobEnd, List.mem_cons_of_mem _ List.mem_cons_self, .inl rfl⟩
  | answerSeeks mxc =>
    obtain ⟨jobEnd, below, rfl, hlast⟩ := hstacked
    have hend : AtWork mxc (.endJob mxc jobEnd :: below) :=
      atWork_top (by simp) hlast
    have hmine : AtWork mxc (s.handlers id).frames := by
      rw [hframes]
      exact atWork_cons (by simp) hend
    refine hs.goOn (hok.drops hmine (fun _ _ hopened => hopened) hlast hend
      (fun frame hframe => ?_) ⟨.endJob mxc jobEnd, List.mem_cons_self, .inl rfl⟩)
    rcases List.mem_cons.mp hframe with rfl | hframe
    · simp
    · exact (last_drives hlast).1 frame hframe
  | failMedia mxc discard => exact hs.failMedia hok hframes
  | discard mxc cause =>
    obtain ⟨below, rfl, hlast⟩ := hstacked
    have htouched : Progress { s.touch id mxc .delete with discards := s.discards ++ [cause] } :=
      hs.same rfl
    exact htouched.goOn (hok.pop hframes rfl rfl ⟨below, rfl, hlast⟩ (by simp))
  | cacheReset mxc =>
    obtain ⟨below, rfl, hlast⟩ := hstacked
    have htouched : Progress (s.touch id mxc .reset) := hs.same rfl
    exact htouched.goOn (hok.pop hframes rfl rfl hlast (by simp))
  | endIfRunning mxc =>
    simp only [State.advance]
    split_ifs with hrunning
    · exact hs.follow hok hframes rfl ⟨by simp, by simp, by simp⟩ hstacked
    · refine hs.goOn (hok.pop hframes rfl rfl (stacked_last hstacked) ?_)
      intro other hother hwork
      rcases hwork with hwork | hwork <;> cases hwork
      exact hrunning hother
  | endJob mxc jobEnd =>
    have hmine : AtWork mxc (s.handlers id).frames := by
      rw [hframes]
      exact atWork_top (by simp) hstacked
    have hnone : mains mxc (s.handlers id).inFlight = 0 := hdrives mxc rfl
    refine hs.goOn (hok.about mxc hmine (hok.table.same rfl rfl rfl) (fun _ _ => rfl)
      (fun other hne => update_of_ne hne ..) (fun _ _ hopened => hopened) hstacked
      (atWork_top (by simp) hstacked)
      (fun _ _ _ => update_self ..)
      (fun _ _ _ => hnone) (fun _ => hnone) (hnone.trans_le (Nat.zero_le 1)) fun hrunning => ?_)
    simp at hrunning
  | closeCancelled mxc jobEnd waiters =>
    simp only [State.advance]
    have hclosed : (s.handlers id).downloading mxc = none := hwithout mxc rfl
    split_ifs
    · refine hs.takeOpen (hok.swap hframes ⟨by simp, by simp, by simp⟩ rfl rfl rfl rfl rfl
        (fun other hrunning hopened => ?_) hstacked) fun _ => ?_
      · left
        have hne : other ≠ mxc := by
          rintro rfl
          rw [hclosed] at hrunning
          cases hrunning
        simp only
        rw [update_of_ne hne]
        exact hopened
      · exact hok.swap hframes ⟨by simp, by simp, by simp⟩ rfl rfl rfl rfl rfl
          (fun _ _ hopened => .inl hopened) hstacked
    · exact hs.follow hok hframes rfl ⟨by simp, by simp, by simp⟩ hstacked
  | answer jobEnd waiters =>
    have hanswered : Progress (s.answerAll jobEnd waiters) := hs.same rfl
    exact hanswered.goOn (hok.pop hframes rfl rfl (stacked_last hstacked) (by simp))
  | seekComplete mxc index =>
    cases answer with
    | yes => exact hs.goOn (hok.pop hframes rfl rfl (stacked_last hstacked) (by simp))
    | no =>
      have hasked := hok.asksSeek mxc index
        (update (s.handlers id).seekOnly mxc
          (((s.handlers id).seekOnly mxc).or (some false))) false
      exact hs.goOn (hasked.pop ((requestSeekChunk_frames ..).1.trans hframes)
        rfl rfl (stacked_last hstacked) (by simp))
    | _ => exact hs
  | closeFiles | closeQueue => exact hstacked.elim

end

end Steps

/-- The handler when the entry of a request was taken out. -/
structure Answered (before h : Handler) (entry : InFlight) : Prop where
  table : TableOk h
  fresh : ∀ other ∈ h.inFlight, other.request ≠ entry.request
  counts : ∀ mxc, mains mxc before.inFlight =
    mains mxc h.inFlight + if entry.request.mxc = mxc then entry.waiters.count .main else 0
  downloading : h.downloading = before.downloading
  opened : h.opened = before.opened

section Replies

variable {before h h' : Handler} {entry : InFlight} {s : State} {id : Nat}

section

variable (hans : Answered before h entry)

include hans

theorem Answered.opens (mxc : String) (hopened : (before.opened mxc).isSome) :
    (h.opened mxc).isSome := by rwa [hans.opened]

/-- Nobody's job has waited for the request. -/
theorem Answered.dropped (hok : Driven before) (hnil : before.frames = [])
    (hmain : .main ∉ entry.waiters) (htable : TableOk h')
    (hmains : ∀ mxc, mains mxc h'.inFlight = mains mxc h.inFlight)
    (hdownloading : h'.downloading = before.downloading)
    (hopened : ∀ mxc, (before.opened mxc).isSome → (h'.opened mxc).isSome) :
    Driven { h' with frames := [] } := by
  refine hok.asks (htable.same rfl rfl rfl) (fun mxc => ?_) hnil.symm hdownloading
    (fun mxc _ => hopened mxc) (by rw [hnil]; trivial)
  have hcount := hans.counts mxc
  rw [List.count_eq_zero_of_not_mem hmain, ite_self, Nat.add_zero] at hcount
  exact (hmains mxc).trans hcount.symm

theorem Answered.again (hok : Driven before) (hnil : before.frames = []) {waiters : List Waiting}
    (hwaiters : waiters.count .main = entry.waiters.count .main) (retries : Retries) :
    Driven { h.resend entry.request waiters retries with frames := [] } := by
  obtain ⟨htable, hmains⟩ := hans.table.resend hans.fresh waiters retries
  refine hok.asks (htable.same rfl rfl rfl) (fun mxc => ?_) hnil.symm hans.downloading
    (fun mxc _ hopened => ?_) (by rw [hnil]; trivial)
  · rw [hans.counts mxc, ← hwaiters]
    exact hmains mxc
  · change (h.opened mxc).isSome
    rw [hans.opened]
    exact hopened

/-- The job goes on when it has waited for the request, or it ends. -/
theorem Answered.goesOn (hok : Driven before) (hnil : before.frames = []) (htable : TableOk h')
    (hmains : ∀ mxc, mains mxc h'.inFlight = mains mxc h.inFlight)
    (hdownloading : h'.downloading = before.downloading)
    (hopened : ∀ mxc, (before.opened mxc).isSome → (h'.opened mxc).isSome) {top : Frame}
    (htop : (top = .continueMain entry.request.mxc ∨ top = .endJob entry.request.mxc .cancelled) ∧
      .main ∈ entry.waiters ∨ ∃ cause, top = .failMedia entry.request.mxc cause) :
    Driven { h' with frames := [top] } := by
  have hcounts : ∀ mxc, mains mxc before.inFlight = mains mxc h'.inFlight +
      if entry.request.mxc = mxc then entry.waiters.count .main else 0 := by
    intro mxc
    rw [hmains]
    exact hans.counts mxc
  have hself := hcounts entry.request.mxc
  rw [if_pos rfl] at hself
  refine hok.about entry.request.mxc ?_ (htable.same rfl rfl rfl) (fun other hne => ?_)
    (fun other _ => congrFun hdownloading other) (fun other _ => hopened other) ?_ ?_
    (fun frame hframe hwork => ?_) (fun frame hframe hwork => ?_) (fun hnone => ?_) ?_ fun _ => .inr
      ⟨top, List.mem_cons_self, ?_⟩
  · rw [hnil]
    exact fun frame hframe => absurd hframe List.not_mem_nil
  · have hother := hcounts other
    rw [if_neg (Ne.symm hne), Nat.add_zero] at hother
    exact hother.symm
  · rcases htop with ⟨rfl | rfl, _⟩ | ⟨cause, rfl⟩ <;> exact fun frame hframe => absurd hframe List.not_mem_nil
  · refine atWork_cons ?_ fun frame hframe => absurd hframe List.not_mem_nil
    rcases htop with ⟨rfl | rfl, _⟩ | ⟨cause, rfl⟩ <;> simp
  · rw [List.mem_singleton.mp hframe] at hwork
    rcases htop with ⟨rfl | rfl, _⟩ | ⟨cause, rfl⟩ <;> cases hwork
  · rw [List.mem_singleton.mp hframe] at hwork
    rcases htop with ⟨_, hmain⟩ | ⟨cause, rfl⟩
    · have hpos := List.count_pos_iff.mpr hmain
      have hbound := hok.bound entry.request.mxc
      change mains entry.request.mxc h'.inFlight = 0
      omega
    · cases hwork
  · have hidle := hok.idle entry.request.mxc ((congrFun hdownloading _).symm.trans hnone)
    change mains entry.request.mxc h'.inFlight = 0
    omega
  · have hbound := hok.bound entry.request.mxc
    change mains entry.request.mxc h'.inFlight ≤ 1
    omega
  · rcases htop with ⟨rfl | rfl, _⟩ | ⟨cause, rfl⟩
    · exact .inl rfl
    · exact .inl rfl
    · exact .inr rfl

/-- A job runs only on a file that is open. -/
theorem Answered.noMain (hok : Driven before) (hnil : before.frames = [])
    (hclosed : before.opened entry.request.mxc = none) : .main ∉ entry.waiters := by
  have hnone : before.downloading entry.request.mxc = none := by
    cases hrunning : before.downloading entry.request.mxc with
    | none => rfl
    | some cancelled =>
      rcases hok.job entry.request.mxc (by rw [hrunning]; rfl) with ⟨_, hopen⟩ | ⟨frame, hframe, _⟩
      · rw [hclosed] at hopen
        cases hopen
      · rw [hnil] at hframe
        cases hframe
  have hself := hans.counts entry.request.mxc
  rw [if_pos rfl, hok.idle _ hnone] at hself
  intro hmain
  have hpos := List.count_pos_iff.mpr hmain
  omega

/-- Who has waited for the request goes on, or fails. -/
theorem Answered.mainGoesOn (hok : Driven before) (hnil : before.frames = []) (htable : TableOk h')
    (hmains : ∀ mxc, mains mxc h'.inFlight = mains mxc h.inFlight)
    (hdownloading : h'.downloading = before.downloading)
    (hopened : ∀ mxc, (before.opened mxc).isSome → (h'.opened mxc).isSome) :
    Driven { h' with frames := State.mainGoesOn entry.request.mxc entry.waiters } := by
  rw [State.mainGoesOn]
  split_ifs with hmain
  · exact hans.goesOn hok hnil htable hmains hdownloading hopened (.inl ⟨.inl rfl, hmain⟩)
  · exact hans.dropped hok hnil hmain htable hmains hdownloading hopened

theorem Answered.mainFails (hok : Driven before) (hnil : before.frames = []) :
    Driven { h with frames := State.mainFails entry.request.mxc entry.waiters } := by
  rw [State.mainFails]
  split_ifs with hmain
  · exact hans.goesOn hok hnil hans.table (fun _ => rfl) hans.downloading hans.opens
      (.inr ⟨none, rfl⟩)
  · exact hans.dropped hok hnil hmain hans.table (fun _ => rfl) hans.downloading hans.opens

theorem Answered.fails (hok : Driven before) (hnil : before.frames = []) (cause : Option Cause) :
    Driven { h with frames := [.failMedia entry.request.mxc cause] } :=
  hans.goesOn hok hnil hans.table (fun _ => rfl) hans.downloading hans.opens (.inr ⟨cause, rfl⟩)

end

/-- What only a seek has asked for is dropped. -/
theorem Progress.seekDropped (hs : Progress s) (hok : Driven (s.handlers id))
    (hnil : (s.handlers id).frames = []) (hans : Answered (s.handlers id) h entry)
    (hopen : h.opened entry.request.mxc = none) (seekOnly : String → Option Bool) :
    Progress (s.goOn id { h with seekOnly := seekOnly } []) := by
  have hmain : .main ∉ entry.waiters := hans.noMain hok hnil (by rw [← hans.opened]; exact hopen)
  exact hs.goOn (hans.dropped hok hnil hmain (hans.table.same rfl rfl rfl) (fun _ => rfl)
    hans.downloading hans.opens)

theorem Progress.infoArrived (hs : Progress s) (hok : Driven (s.handlers id))
    (hnil : (s.handlers id).frames = []) (hans : Answered (s.handlers id) h entry) {reply : Reply}
    (hreply : reply = .broken ∨ reply = .infoMismatch ∨ ∃ present, reply = .info present) :
    Progress (s.infoArrived id h entry.request.mxc entry reply) := by
  -- what the seeks ask for then is not for a job
  have hseeks : ∀ (h' : Handler) (present : List Nat), h'.inFlight = h.inFlight → h'.queue = h.queue →
      h'.sent = h.sent → TableOk (h'.requestSeeks entry.request.mxc present entry.waiters) ∧
        ∀ mxc, mains mxc (h'.requestSeeks entry.request.mxc present entry.waiters).inFlight =
          mains mxc h.inFlight := by
    intro h' present hinFlight hqueue hsent
    have hasked := TableOk.requestSeeks entry.request.mxc present entry.waiters
      (hans.table.same hinFlight hqueue hsent)
    rw [hinFlight] at hasked
    exact hasked
  simp only [State.infoArrived]
  cases hopen : h.opened entry.request.mxc with
  | some verified =>
    rcases hreply with rfl | rfl | ⟨present, rfl⟩
    · simp only
      split_ifs
      · exact hs.goOn (hans.again hok hnil rfl _)
      · exact hs.goOn (hans.fails hok hnil _)
    · exact hs.goOn (hans.fails hok hnil _)
    · obtain ⟨htable, hmains⟩ := hseeks { h with
        opened := update h.opened entry.request.mxc (some true) } present rfl rfl rfl
      refine hs.goOn (hans.mainGoesOn hok hnil htable hmains
        ((requestSeeks_frames ..).2.trans hans.downloading) fun mxc hopened => ?_)
      rw [requestSeeks_opened]
      simp only [update_apply]
      split_ifs
      · rfl
      · exact hans.opens mxc hopened
  | none =>
    have hdrop := hs.seekDropped hok hnil hans hopen
    cases h.seekOnly entry.request.mxc with
    | none => exact hdrop _
    | some verified =>
      rcases hreply with rfl | rfl | ⟨present, rfl⟩
      · simp only
        split_ifs
        · exact hs.goOn (hans.again hok hnil rfl _)
        · exact hdrop _
      · exact hdrop _
      · obtain ⟨htable, hmains⟩ := hseeks { h with
          seekOnly := update h.seekOnly entry.request.mxc (some true) } present rfl rfl rfl
        refine hs.goOn (hans.mainGoesOn hok hnil htable hmains
          ((requestSeeks_frames ..).2.trans hans.downloading) fun mxc hopened => ?_)
        rw [requestSeeks_opened]
        exact hans.opens mxc hopened

theorem Progress.chunkArrived (hs : Progress s) (hok : Driven (s.handlers id))
    (hnil : (s.handlers id).frames = []) (hans : Answered (s.handlers id) h entry) {reply : Reply}
    (hreply : reply = .broken ∨ ∃ isNext stored, reply = .chunk isNext stored) :
    Progress (s.chunkArrived id h entry.request.mxc entry reply) := by
  have hgoesOn : Driven { h with frames := State.mainGoesOn entry.request.mxc entry.waiters } :=
    hans.mainGoesOn hok hnil hans.table (fun _ => rfl) hans.downloading hans.opens
  have htouched : ∀ op, Progress (s.touch id entry.request.mxc op) := fun op => hs.same rfl
  simp only [State.chunkArrived]
  cases hopen : h.opened entry.request.mxc with
  | some verified =>
    rcases hreply with rfl | ⟨isNext, stored, rfl⟩
    · simp only
      split_ifs
      · exact hs.goOn (hans.again hok hnil rfl _)
      · exact hs.goOn (hans.fails hok hnil _)
    · cases verified with
      | false => exact hs.goOn (hans.fails hok hnil _)
      | true =>
        simp only
        split_ifs
        · exact (htouched .write).goOn hgoesOn
        · exact (htouched .write).goOn (hans.fails hok hnil _)
        · exact (htouched .writeSeek).goOn hgoesOn
  | none =>
    have hdrop := hs.seekDropped hok hnil hans hopen
    cases h.seekOnly entry.request.mxc with
    | none => exact hdrop _
    | some verified =>
      rcases hreply with rfl | ⟨isNext, stored, rfl⟩
      · simp only
        split_ifs
        · exact hs.goOn (hans.again hok hnil rfl _)
        · exact hdrop _
      · cases verified <;> exact hdrop _

/-- Every entry stands for one request, so what is taken out is what was counted. -/
theorem answered_of_mem (hok : Driven before) (hentry : entry ∈ before.inFlight)
    (hinFlight : h.inFlight = before.inFlight.filter fun other => other.request ≠ entry.request)
    (hqueue : h.queue = before.queue ∨ h.queue = before.queue.erase entry.request)
    (hsent : h.sent = before.sent ∨ h.sent = before.sent.erase entry.request)
    (hdownloading : h.downloading = before.downloading) (hopened : h.opened = before.opened) :
    Answered before h entry := by
  obtain ⟨htable, hfresh⟩ := hok.table.remove hinFlight hqueue hsent
  refine ⟨htable, hfresh, fun mxc => ?_, hdownloading, hopened⟩
  rw [mains_remove hok.table.keys hentry, mains_singleton, hinFlight, Nat.add_comm]

theorem Progress.handleReply (hs : Progress s) (hok : Driven (s.handlers id))
    (hnil : (s.handlers id).frames = []) {request : Request} {reply : Reply}
    (hfits : State.fits request reply = true) :
    Progress (s.handleReply id (s.handlers id) request reply) := by
  simp only [State.handleReply]
  split
  · rename_i hfind
    have hother : ∀ entry ∈ (s.handlers id).inFlight, entry.request ≠ request := by
      intro entry hentry hsame
      exact List.find?_eq_none.mp hfind entry hentry (decide_eq_true hsame)
    have hall : (s.handlers id).inFlight =
        (s.handlers id).inFlight.filter fun other => other.request ≠ request :=
      (List.filter_eq_self.mpr fun entry hentry => decide_eq_true (hother entry hentry)).symm
    refine hs.goOn (hok.asks ?_ (fun _ => rfl) hnil.symm rfl (fun _ _ hopened => hopened)
      (by rw [hnil]; trivial))
    exact And.left (hok.table.remove hall (.inl rfl) (.inr rfl))
  · rename_i entry hfind
    obtain rfl : entry.request = request := of_decide_eq_true (List.find?_some hfind :)
    have hans := answered_of_mem hok (List.mem_of_find?_eq_some hfind) (h := { s.handlers id with
      sent := (s.handlers id).sent.erase entry.request
      inFlight := (s.handlers id).inFlight.filter fun other => other.request ≠ entry.request })
      rfl (.inl rfl) (.inr rfl) rfl rfl
    cases reply with
    | network =>
      simp only
      split_ifs with hmain
      · refine hs.goOn (hans.again hok hnil ?_ _)
        -- a job waits for one request only
        have hself := hans.counts entry.request.mxc
        rw [if_pos rfl] at hself
        have hbound := hok.bound entry.request.mxc
        have hpos := List.count_pos_iff.mpr hmain
        have hone : [Waiting.main].count .main = 1 := rfl
        omega
      · exact hs.goOn (hans.dropped hok hnil hmain hans.table (fun _ => rfl) hans.downloading
          fun _ hopened => hopened)
    | timeout | corrupt =>
      simp only
      split_ifs
      · exact hs.goOn (hans.again hok hnil rfl _)
      · exact hs.goOn (hans.mainFails hok hnil)
    | refused => exact hs.goOn (hans.fails hok hnil _)
    | other => exact hs.goOn (hans.mainFails hok hnil)
    | info present =>
      obtain ⟨request, waiters, retries⟩ := entry
      cases request with
      | info mxc => exact hs.infoArrived hok hnil hans (.inr (.inr ⟨present, rfl⟩))
      | chunk mxc index => cases hfits
    | infoMismatch =>
      obtain ⟨request, waiters, retries⟩ := entry
      cases request with
      | info mxc => exact hs.infoArrived hok hnil hans (.inr (.inl rfl))
      | chunk mxc index => cases hfits
    | chunk isNext stored =>
      obtain ⟨request, waiters, retries⟩ := entry
      cases request with
      | info mxc => cases hfits
      | chunk mxc index => exact hs.chunkArrived hok hnil hans (.inr ⟨isNext, stored, rfl⟩)
    | broken =>
      obtain ⟨request, waiters, retries⟩ := entry
      cases request with
      | info mxc => exact hs.infoArrived hok hnil hans (.inl rfl)
      | chunk mxc index => exact hs.chunkArrived hok hnil hans (.inl rfl)

theorem Progress.handleCancellation (hs : Progress s) (hok : Driven (s.handlers id))
    (hnil : (s.handlers id).frames = []) {mxc : String}
    (hrunning : ((s.handlers id).downloading mxc).isSome) :
    Progress (s.handleCancellation id (s.handlers id) mxc) := by
  rw [State.handleCancellation]
  cases hmain : (s.handlers id).mainRequest mxc with
  | none =>
    have hnone : mains mxc (s.handlers id).inFlight = 0 := by
      refine mains_eq_zero fun entry hentry hmxc hwaits => ?_
      exact List.find?_eq_none.mp hmain entry hentry (decide_eq_true ⟨hmxc, hwaits⟩)
    rcases hok.job mxc hrunning with ⟨hwaits, _⟩ | ⟨frame, hframe, _⟩
    · omega
    · rw [hnil] at hframe
      cases hframe
  | some entry =>
    obtain ⟨rfl, hwaits⟩ := of_decide_eq_true (List.find?_some hmain :)
    have hans := answered_of_mem hok (List.mem_of_find?_eq_some hmain) (h := { s.handlers id with
      queue := (s.handlers id).queue.erase entry.request
      inFlight := (s.handlers id).inFlight.filter fun other => other.request ≠ entry.request })
      rfl (.inr rfl) (.inl rfl) rfl rfl
    have htop : (Frame.endJob entry.request.mxc .cancelled = .continueMain entry.request.mxc ∨
        Frame.endJob entry.request.mxc .cancelled = .endJob entry.request.mxc .cancelled) ∧
          .main ∈ entry.waiters := ⟨.inr rfl, hwaits⟩
    simp only
    split_ifs
    · exact hs.goOn (hans.goesOn hok hnil hans.table (fun _ => rfl) hans.downloading
        (fun _ hopened => hopened) (.inl htop))
    · obtain ⟨htable, hmains⟩ := hans.table.resend hans.fresh
        (entry.waiters.filter fun waiting => waiting ≠ .main) entry.retries
      refine hs.goOn (hans.goesOn hok hnil htable (fun other => ?_) hans.downloading
        (fun _ hopened => hopened) (.inl htop))
      have hnone : (entry.waiters.filter fun waiting => waiting ≠ .main).count .main = 0 :=
        List.count_eq_zero_of_not_mem fun hin => by simp at hin
      rw [hmains, hnone, ite_self, Nat.add_zero]
    · exact hs

end Replies

section Every

variable {s : State} {id : Nat} {h h' : Handler}

/-- A handler between two steps that was not taken down. -/
theorem Progress.driven (hs : Progress s) (hnil : (s.handlers id).frames = [])
    (hclosed : (s.handlers id).closed = false) : Driven (s.handlers id) := by
  refine (hs id).resolve_left ?_
  rintro (⟨hgone, _⟩ | hframes | hframes)
  · rw [hclosed] at hgone
    cases hgone
  · rw [hnil] at hframes
    cases hframes
  · rw [hnil] at hframes
    cases hframes

/-- The handler takes something on that is no job yet. -/
theorem Driven.begins (hok : Driven h) (hnil : h.frames = []) (htable : TableOk h')
    (hinFlight : h'.inFlight = h.inFlight) (hdownloading : h'.downloading = h.downloading)
    (hopened : h'.opened = h.opened) (hstacked : Stacked h'.opened h'.frames)
    (hframes : ∀ frame ∈ h'.frames, frame.without = none ∧ frame.drives = none) : Driven h' := by
  constructor
  case table => exact htable
  case stacked => exact hstacked
  case starting =>
    intro frame hframe mxc hwork
    rw [(hframes frame hframe).1] at hwork
    cases hwork
  case driving =>
    intro frame hframe mxc hwork
    rw [(hframes frame hframe).2] at hwork
    cases hwork
  case idle =>
    rw [hinFlight, hdownloading]
    exact hok.idle
  case bound =>
    rw [hinFlight]
    exact hok.bound
  case job =>
    rw [hinFlight, hdownloading, hopened]
    intro mxc hrunning
    rcases hok.job mxc hrunning with hwaits | ⟨frame, hframe, _⟩
    · exact .inl hwaits
    · rw [hnil] at hframe
      cases hframe

/-- What is shared changes, and a handler that was taken down stays so. -/
theorem Progress.shares (hs : Progress s) (hinFlight : h'.inFlight = (s.handlers id).inFlight)
    (hqueue : h'.queue = (s.handlers id).queue) (hsent : h'.sent = (s.handlers id).sent)
    (hframes : h'.frames = (s.handlers id).frames) (hclosed : h'.closed = (s.handlers id).closed)
    (hopened : h'.opened = (s.handlers id).opened)
    (hdownloading : ∀ mxc, (h'.downloading mxc).isSome = ((s.handlers id).downloading mxc).isSome) :
    Progress (s.setHandler id h') := by
  refine hs.setHandler ((hs id).imp (fun hgone => ?_) fun hok =>
    hok.same hinFlight hqueue hsent hframes hopened hdownloading)
  rw [Gone, hframes, hclosed]
  exact hgone

theorem Progress.send (hs : Progress s) {request : Request} {queue : List Request}
    (hqueue : (s.handlers id).queue = request :: queue) :
    Progress (s.setHandler id { s.handlers id with
      queue := queue
      sent := (s.handlers id).sent ++ [request] }) := by
  refine hs.setHandler ((hs id).imp (fun hgone => hgone) fun hok => ?_)
  refine hok.asks ⟨hok.table.keys, fun entry hentry => ?_⟩ (fun _ => rfl) rfl rfl
    (fun _ _ hopened => hopened) hok.stacked
  rcases hok.table.line entry hentry with hin | hin
  · rw [hqueue] at hin
    rcases List.mem_cons.mp hin with hsame | hin
    · rw [hsame]
      exact .inr (List.mem_append_right _ (List.mem_singleton_self _))
    · exact .inl hin
  · exact .inr (List.mem_append_left _ hin)

/-- A handler that was taken down closes its files, then answers everybody. -/
theorem Progress.gone (hs : Progress s) (hgone : Gone (s.handlers id)) {answer : Answer}
    {frame : Frame} {rest : List Frame} (hframes : (s.handlers id).frames = frame :: rest) :
    Progress (s.advance id (s.handlers id) answer rest frame) := by
  rcases hgone with ⟨hclosed, hnil | ⟨jobEnd, waiters, hone⟩⟩ | hone | hone
  · rw [hnil] at hframes
    cases hframes
  · rw [hone] at hframes
    cases hframes
    have hanswered : Progress (s.answerAll jobEnd waiters) := hs.same rfl
    exact hanswered.setHandler (.inl (.inl ⟨hclosed, .inl rfl⟩))
  · rw [hone] at hframes
    cases hframes
    have hreleased : ∀ claims, Progress { s with claims := claims } := fun _ => hs.same rfl
    exact (hreleased _).setHandler (.inl (.inr (.inr rfl)))
  · rw [hone] at hframes
    cases hframes
    exact hs.setHandler (.inl (.inl ⟨rfl, .inr ⟨.failed, _, rfl⟩⟩))

theorem Progress.step (hs : Progress s) (action : Action) : Progress (s.step action) := by
  cases action with
  | enqueue call id mxc waits =>
    simp only [State.step]
    split
    · exact hs
    · exact hs.same rfl
  | enter call =>
    simp only [State.step]
    split
    · rename_i target mxc waits _
      have hcalled : Progress { s with
          calls := update s.calls call
            (some { target := target, mxc := mxc, waits := waits, entered := true }) } := hs.same rfl
      exact hcalled.enqueueInto target mxc _
    · exact hs
  | cancel id mxc =>
    simp only [State.step, State.cancel]
    split_ifs with hrunning
    · refine hs.shares rfl rfl rfl rfl rfl rfl fun other => ?_
      simp only [update_apply]
      split_ifs with hsame
      · rw [hsame, hrunning]
        rfl
      · rfl
    · exact hs.shares rfl rfl rfl rfl rfl rfl fun _ => rfl
    · have hanswered : Progress (s.answerAll .cancelled ((s.handlers id).waitersOf mxc)) := hs.same rfl
      exact hanswered.shares rfl rfl rfl rfl rfl rfl fun _ => rfl
    · exact hs
  | stop id => exact hs.shares rfl rfl rfl rfl rfl rfl fun _ => rfl
  | abort id =>
    simp only [State.step]
    split_ifs
    · exact hs.setHandler (.inl (.inr (.inl rfl)))
    · exact hs
  | processInbox id =>
    simp only [State.step]
    split
    · rename_i hnil hclosed hinbox
      have hok := hs.driven hnil hclosed
      refine hs.goOn (hok.begins hnil (hok.table.same rfl rfl rfl) rfl rfl rfl ?_ ?_)
      · intro frame hframe
        exact ⟨_, List.mem_singleton.mp hframe⟩
      · intro frame hframe
        simp only [List.mem_cons, List.not_mem_nil, or_false] at hframe
        rcases hframe with rfl | rfl <;> exact ⟨rfl, rfl⟩
    · exact hs
  | processSeek id mxc index present =>
    simp only [State.step]
    split
    · rename_i hnil hclosed
      have hok := hs.driven hnil hclosed
      split_ifs
      · have hasked := hok.asksSeek mxc index (s.handlers id).seekOnly present
        refine hs.goOn (hasked.begins ((requestSeekChunk_frames ..).1.trans hnil)
          (hasked.table.same rfl rfl rfl) rfl rfl rfl trivial ?_)
        exact fun frame hframe => absurd hframe List.not_mem_nil
      · refine hs.goOn (hok.begins hnil (hok.table.same rfl rfl rfl) rfl rfl rfl ?_ ?_)
        · exact fun frame hframe => absurd hframe List.not_mem_nil
        · intro frame hframe
          rw [List.mem_singleton.mp hframe]
          exact ⟨rfl, rfl⟩
    · exact hs
  | handleCancellation id mxc =>
    simp only [State.step]
    split
    · rename_i hnil hclosed hrunning
      exact hs.handleCancellation (hs.driven hnil hclosed) hnil (by rw [hrunning]; rfl)
    · exact hs
  | closeIdle id =>
    simp only [State.step]
    split
    · rename_i hnil hclosed
      have hok := hs.driven hnil hclosed
      have hreleased : ∀ claims, Progress { s with claims := claims } := fun _ => hs.same rfl
      refine (hreleased _).setHandler (.inr (hok.asks (hok.table.same rfl rfl rfl) (fun _ => rfl) rfl
        rfl (fun mxc hrunning hopened => ?_) (by rw [hnil]; trivial)))
      have hidle : ¬(s.handlers id).isIdle mxc = true := by
        intro hidle
        have hnone := (of_decide_eq_true hidle).2.1
        rw [hnone] at hrunning
        cases hrunning
      simp only
      rw [if_neg hidle]
      exact hopened
    · exact hs
  | forgetSeek id mxc =>
    simp only [State.step]
    split
    · exact hs.shares rfl rfl rfl rfl rfl rfl fun _ => rfl
    · exact hs
  | send id =>
    simp only [State.step]
    split
    · exact hs
    · rename_i hqueue
      exact hs.send hqueue
  | handleReply id request reply =>
    simp only [State.step]
    split
    · rename_i hnil hclosed
      split_ifs with hfits
      · exact hs.handleReply (hs.driven hnil hclosed) hnil hfits.2
      · exact hs
    · exact hs
  | run id answer =>
    simp only [State.step]
    split
    · exact hs
    · rename_i hframes
      rcases hs id with hgone | hok
      · exact hs.gone hgone hframes
      · exact hs.advance hok hframes

end Every

/-- After every run, a handler that stands between two steps has one request in flight for
each job that was not cancelled and never two for one, no two entries for one request, and
every entry is still with its line. -/
theorem jobs_wait_once (actions : List Action) (id : Nat)
    (hnil : ((Runs.run State.step .start actions).handlers id).frames = [])
    (hclosed : ((Runs.run State.step .start actions).handlers id).closed = false) :
    let h := (Runs.run State.step .start actions).handlers id
    (∀ mxc, h.downloading mxc = some false → mains mxc h.inFlight = 1) ∧
      (∀ mxc, h.downloading mxc = none → mains mxc h.inFlight = 0) ∧
      (∀ mxc, mains mxc h.inFlight ≤ 1) ∧
      (h.inFlight.map InFlight.request).Nodup ∧
      ∀ entry ∈ h.inFlight, entry.request ∈ h.queue ∨ entry.request ∈ h.sent := by
  have hprogress : Progress (Runs.run State.step .start actions) :=
    Runs.run_invariant Progress (fun _ action hs => Progress.step hs action) actions _
      fun _ => .inr driven_start
  have hok := hprogress.driven hnil hclosed
  refine ⟨fun mxc hrunning => ?_, hok.idle, hok.bound, hok.table.keys, hok.table.line⟩
  rcases hok.job mxc (by rw [hrunning]; rfl) with ⟨hwaits, _⟩ | ⟨frame, hframe, _⟩
  · exact hwaits
  · rw [hnil] at hframe
    cases hframe

/-- The job has asked for the first chunk, and a seek for another one. -/
def exampleSeek : List Action :=
  [.enqueue 0 0 "m" true, .enter 0, .processInbox 0, .run 0 .yes, .run 0 .no, .run 0 .yes,
    .run 0 .yes, .run 0 .yes, .run 0 .yes, .run 0 .yes, .run 0 .no, .run 0 .yes, .send 0,
    .handleReply 0 (.info "m") (.info []), .run 0 (.chunk 0), .send 0, .processSeek 0 "m" 5 false,
    .send 0]

theorem jobs_wait_once_seek :
    ((Runs.run State.step .start exampleSeek).handlers 0).downloading "m" = some false ∧
      mains "m" ((Runs.run State.step .start exampleSeek).handlers 0).inFlight = 1 := by
  have hrunning : ((Runs.run State.step .start exampleSeek).handlers 0).downloading "m" = some false := by
    decide +kernel
  exact ⟨hrunning, (jobs_wait_once exampleSeek 0 (by decide +kernel) (by decide +kernel)).1 "m" hrunning⟩

/-- The first chunk fails, and with it the job. The chunk of the seek is still out, and it is
not counted any more. -/
theorem sent_uncounted :
    let h := (Runs.run State.step .start (exampleSeek ++
      [.handleReply 0 (.chunk "m" 0) .other, .run 0 .yes, .run 0 .yes, .run 0 .yes, .run 0 .yes,
        .run 0 .yes])).handlers 0
    h.frames = [] ∧ h.closed = false ∧ h.inFlight.length ≠ (h.queue ++ h.sent).length := by
  decide +kernel

end DownloadQueue
end WbfMatrixClient
