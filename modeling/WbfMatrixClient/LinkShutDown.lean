import WbfMatrixClient.Link

/-!
# No waiter hangs on a closed link

The invariant ties every entry of the session table to the request that
registered it. Once the link has been shut down, the requests that still own
an entry are those that have not read the closed flag yet, or are about to
remove their entry because they have.
-/

namespace WbfMatrixClient
namespace Link

open SessionRuns Function

/-- Between registering and removing the own entry after an error. -/
def Point.beforeCleanUp : Point → Bool
  | .registered => true
  | .failing _ => true
  | _ => false

def Point.hasReturned : Point → Bool
  | .returned _ => true
  | _ => false

structure Sound (l : State) : Prop where
  wellformed : Wellformed l.world
  slot_lt : ∀ slot r, l.requests slot = some r → slot < l.world.nextSlot
  owner : ∀ key e, l.world.entry key = some e →
    ∃ r, l.requests e.slot = some r ∧ r.key = key ∧ r.generation = e.generation ∧
      r.point.hasReturned = false
  closed : l.shutDown ≠ .idle → l.closed = true
  late : l.shutDown = .done → ∀ key e r, l.world.entry key = some e →
    l.requests e.slot = some r → r.point.beforeCleanUp = true

theorem sound_start (connectionId : UInt64) : Sound (State.start connectionId) := by
  refine ⟨wellformed_start connectionId, ?_, ?_, ?_, ?_⟩
  · intro slot r h
    simp [State.start] at h
  · intro key e h
    simp [State.start, World.start, World.entry, SessionTable.new] at h
  · intro h
    exact absurd rfl h
  · intro h
    simp [State.start] at h

variable {l : State} {slot : Nat}

/-- After the shutting down, a request past its own check owns no entry. -/
theorem Sound.no_entry (h : Sound l) (hdone : l.shutDown = .done) {r : Request}
    (hr : l.requests slot = some r) (hpoint : r.point.beforeCleanUp = false) :
    ∀ key e, l.world.entry key = some e → e.slot ≠ slot := by
  rintro key e he rfl
  have hlate := h.late hdone key e r he hr
  rw [hpoint] at hlate
  simp at hlate

/-- A change of the world that leaves no entry but old ones. -/
theorem Sound.withWorld (h : Sound l) {w : World} (hwell : Wellformed w)
    (hslot : l.world.nextSlot ≤ w.nextSlot)
    (hentry : ∀ key e, w.entry key = some e → ∃ old, l.world.entry key = some old ∧ old.slot =
      e.slot ∧ old.generation = e.generation) : Sound { l with world := w } := by
  refine ⟨hwell, ?_, ?_, h.closed, ?_⟩
  · intro slot r hr
    exact lt_of_lt_of_le (h.slot_lt slot r hr) hslot
  · intro key e he
    obtain ⟨old, hold, hsame, hgeneration⟩ := hentry key e he
    rw [← hsame, ← hgeneration]
    exact h.owner key old hold
  · intro hdone key e r he hr
    obtain ⟨old, hold, hsame, _⟩ := hentry key e he
    rw [← hsame] at hr
    exact h.late hdone key old r hold hr

theorem Sound.setPoint {l : State} (h : Sound l) {slot : Nat} {r : Request} {point : Point}
    (hr : l.requests slot = some r) (hreturned : point.hasReturned = false)
    (hlate : l.shutDown = .done → point.beforeCleanUp = true ∨ ∀ key e, l.world.entry key = some e →
      e.slot ≠ slot) : Sound (l.setPoint slot r point) := by
  have hother : ∀ s, s ≠ slot → (l.setPoint slot r point).requests s = l.requests s :=
    fun s hs => update_of_ne hs _ _
  have hhere : (l.setPoint slot r point).requests slot = some { r with point := point } :=
    update_self _ _ _
  refine ⟨h.wellformed, ?_, ?_, h.closed, ?_⟩
  · intro s r' hr'
    by_cases hs : s = slot
    · rw [hs]
      exact h.slot_lt slot r hr
    · rw [hother s hs] at hr'
      exact h.slot_lt s r' hr'
  · intro key e he
    obtain ⟨r', hr', hkey, hgeneration, hnot⟩ := h.owner key e he
    by_cases hs : e.slot = slot
    · rw [hs, hr] at hr'
      cases hr'
      refine ⟨{ r with point := point }, ?_, hkey, hgeneration, hreturned⟩
      rw [hs]
      exact hhere
    · refine ⟨r', ?_, hkey, hgeneration, hnot⟩
      rw [hother e.slot hs]
      exact hr'
  · intro hdone key e r' he hr'
    by_cases hs : e.slot = slot
    · rw [hs, hhere] at hr'
      cases hr'
      rcases hlate hdone with hbefore | habsent
      · exact hbefore
      · exact absurd hs (habsent key e he)
    · rw [hother e.slot hs] at hr'
      exact h.late hdone key e r' he hr'

/-- A request that has returned owns no entry any more. -/
theorem Sound.no_entry_of_removeOwn (h : Sound l) {r : Request} (hr : l.requests slot = some r)
    (error : Option SdkError) :
    ∀ key e, (l.removeOwn slot r error).world.entry key = some e → e.slot ≠ slot := by
  rintro key e he rfl
  obtain ⟨hold, hnot⟩ := removeIf_entry he
  obtain ⟨r', hr', hkey, hgeneration, _⟩ := h.owner key e hold
  rw [hr] at hr'
  cases hr'
  exact hnot ⟨hkey.symm, hgeneration.symm⟩

theorem Sound.removeOwn {l : State} (h : Sound l) {slot : Nat} {r : Request}
    (hr : l.requests slot = some r) (error : Option SdkError) :
    Sound (l.removeOwn slot r error) := by
  have habsent := h.no_entry_of_removeOwn hr error
  have hother : ∀ s, s ≠ slot → (l.removeOwn slot r error).requests s = l.requests s :=
    fun s hs => update_of_ne hs _ _
  have hentry : ∀ key e, (l.removeOwn slot r error).world.entry key = some e →
      l.world.entry key = some e := fun key e he => (removeIf_entry he).1
  have hslot : (l.removeOwn slot r error).world.nextSlot = l.world.nextSlot := rfl
  refine ⟨h.wellformed.removeIf r.key r.generation, ?_, ?_, h.closed, ?_⟩
  · intro s r' hr'
    rw [hslot]
    by_cases hs : s = slot
    · rw [hs]
      exact h.slot_lt slot r hr
    · rw [hother s hs] at hr'
      exact h.slot_lt s r' hr'
  · intro key e he
    rw [hother e.slot (habsent key e he)]
    exact h.owner key e (hentry key e he)
  · intro hdone key e r' he hr'
    rw [hother e.slot (habsent key e he)] at hr'
    exact h.late hdone key e r' (hentry key e he) hr'

/-- A registration that succeeds: the new entry and the request that owns it
share the first free slot. -/
theorem begin_cases (l : State) (form : Form) (pack : Pack) :
    l.begin form pack = l ∨
      ∃ key, (∃ error, (l.world.register key form.kind).2 = .error error) ∧
          l.begin form pack = { l with world := (l.world.register key form.kind).1 } ∨
        ∃ generation, (l.world.register key form.kind).2 = .ok generation ∧
          l.begin form pack =
            { l with
              world := (l.world.register key form.kind).1
              requests := update l.requests l.world.nextSlot
                (some ⟨form, key, generation, .registered⟩) } := by
  unfold State.begin
  rcases hkey : form.key l.world.table.connectionId pack with error | key
  · exact .inl rfl
  · right
    refine ⟨key, ?_⟩
    dsimp only
    rcases hregister : l.world.register key form.kind with ⟨w, error | generation⟩
    · exact .inl ⟨⟨error, rfl⟩, rfl⟩
    · exact .inr ⟨generation, rfl, rfl⟩

theorem Sound.begin {l : State} (h : Sound l) (form : Form) (pack : Pack) :
    Sound (l.begin form pack) := by
  rcases begin_cases l form pack with heq | ⟨key, ⟨⟨_, herror⟩, heq⟩ | ⟨generation, hok, heq⟩⟩
  · rw [heq]
    exact h
  · rw [heq]
    refine h.withWorld (h.wellformed.register key form.kind) (by simp) ?_
    intro key' e he
    rcases register_cases l.world key form.kind with ⟨_, htable, _⟩ | ⟨_, _, _, hresult⟩
    · unfold World.entry at he
      rw [htable] at he
      exact ⟨e, he, rfl, rfl⟩
    · rw [hresult] at herror
      cases herror
  · rw [heq]
    have hnew := register_slotHasGeneration h.wellformed hok
    have hfresh : ∀ s, s < l.world.nextSlot →
        update l.requests l.world.nextSlot
          (some ⟨form, key, generation, .registered⟩) s = l.requests s :=
      fun s hs => update_of_ne (Nat.ne_of_lt hs) _ _
    refine ⟨h.wellformed.register key form.kind, ?_, ?_, h.closed, ?_⟩
    · intro s r hr
      rw [register_nextSlot]
      by_cases hs : s = l.world.nextSlot
      · rw [hs]
        exact Nat.lt_succ_self _
      · dsimp only at hr
        rw [update_of_ne hs] at hr
        exact Nat.lt_succ_of_lt (h.slot_lt s r hr)
    · intro key' e he
      rcases register_entry he with hold | ⟨hkey, _, rfl⟩
      · dsimp only
        rw [hfresh e.slot (h.wellformed.slot_lt key' e hold)]
        exact h.owner key' e hold
      · refine ⟨⟨form, key, generation, .registered⟩, ?_, hkey.symm, ?_, rfl⟩
        · exact update_self _ _ _
        · exact (hnew.2 key' _ he rfl).symm
    · intro hdone key' e r he hr
      dsimp only at hr
      rcases register_entry he with hold | ⟨_, _, rfl⟩
      · rw [hfresh e.slot (h.wellformed.slot_lt key' e hold)] at hr
        exact h.late hdone key' e r hold hr
      · rw [update_self] at hr
        cases hr
        rfl

theorem Sound.swapClosed {l : State} (h : Sound l) : Sound (l.step .swapClosed) := by
  unfold State.step
  dsimp only
  split_ifs
  · exact h
  · refine ⟨h.wellformed, h.slot_lt, h.owner, fun _ => rfl, ?_⟩
    intro hdone
    simp at hdone

theorem Sound.failAll {l : State} (h : Sound l) (reason : String) :
    Sound (l.step (.failAll reason)) := by
  unfold State.step
  cases hshut : l.shutDown with
  | idle | done => exact h
  | swapped =>
    refine ⟨h.wellformed.failAll reason, h.slot_lt, ?_, ?_, ?_⟩
    · intro key e he
      simp at he
    · intro _
      exact h.closed (by simp [hshut])
    · intro _ key e r he
      simp at he

theorem Sound.step {l : State} (h : Sound l) (action : Action) : Sound (l.step action) := by
  cases action with
  | begin form pack => exact h.begin form pack
  | checkClosed slot =>
    simp only [State.step]
    rcases hr : l.requests slot with _ | r
    · exact h
    · dsimp only
      split_ifs with hpoint
      · unfold State.checkClosed
        split_ifs with hclosed
        · exact h.setPoint hr rfl (fun _ => .inl rfl)
        · refine h.setPoint hr rfl ?_
          intro hdone
          exact absurd (h.closed (by simp [hdone])) hclosed
      · exact h
  | enqueue slot result =>
    simp only [State.step]
    rcases hr : l.requests slot with _ | r
    · exact h
    · dsimp only
      split_ifs with hpoint
      · unfold State.enqueue
        rcases l.enqueueError result with _ | error
        · refine h.setPoint hr rfl ?_
          intro hdone
          exact .inr (h.no_entry hdone hr (by simp [hpoint, Point.beforeCleanUp]))
        · exact h.setPoint hr rfl (fun _ => .inl rfl)
      · exact h
  | cleanUp slot =>
    simp only [State.step]
    rcases hr : l.requests slot with _ | r
    · exact h
    · dsimp only
      cases r.point with
      | failing error => exact h.removeOwn hr (some error)
      | _ => exact h
  | resend slot =>
    simp only [State.step]
    rcases hr : l.requests slot with _ | r
    · exact h
    · dsimp only
      split_ifs
      · exact h.setPoint hr rfl (fun _ => .inl rfl)
      · exact h
  | stopWaiting slot =>
    simp only [State.step]
    rcases hr : l.requests slot with _ | r
    · exact h
    · dsimp only
      split_ifs with hpoint
      · refine h.setPoint hr rfl ?_
        intro hdone
        exact .inr (h.no_entry hdone hr (by simp [hpoint, Point.beforeCleanUp]))
      · exact h
  | leave slot =>
    simp only [State.step]
    rcases hr : l.requests slot with _ | r
    · exact h
    · dsimp only
      split_ifs
      · exact h.removeOwn hr none
      · exact h
  | cancel slot =>
    simp only [State.step]
    rcases hr : l.requests slot with _ | r
    · exact h
    · dsimp only
      split_ifs with hpoint
      · have hworld : Sound { l with world := l.world.step (.dropReceiver slot) } :=
          h.withWorld (h.wellformed.step _) (le_refl _) (fun _ e he => ⟨e, he, rfl, rfl⟩)
        refine hworld.setPoint hr rfl ?_
        intro hdone
        refine .inr (h.no_entry hdone hr ?_)
        rcases hpoint with hpoint | hpoint
        · simp [hpoint, Point.beforeCleanUp]
        · simp [hpoint.1, Point.beforeCleanUp]
      · exact h
  | consume op =>
    have hframe : ∀ op', (l.world.step op').nextSlot = l.world.nextSlot →
        (l.world.step op').table.entries = l.world.table.entries →
        Sound { l with world := l.world.step op' } := by
      intro op' hslot hentries
      refine h.withWorld (h.wellformed.step op') (le_of_eq hslot.symm) ?_
      intro key e he
      unfold World.entry at he
      rw [hentries] at he
      exact ⟨e, he, rfl, rfl⟩
    cases op with
    | take slot => exact hframe (.take slot) rfl rfl
    | takeGap slot => exact hframe (.takeGap slot) rfl rfl
    | takeEndReason slot => exact hframe (.takeEndReason slot) rfl rfl
    | setOrphanSink capacity => exact hframe (.setOrphanSink capacity) rfl rfl
    | _ => exact h
  | dispatch pack =>
    exact h.withWorld (h.wellformed.dispatch pack) (le_refl _)
      (fun key e he => dispatch_entry he)
  | swapClosed => exact h.swapClosed
  | failAll reason => exact h.failAll reason

theorem sound_run (connectionId : UInt64) (actions : List Action) :
    Sound (Runs.run State.step (State.start connectionId) actions) :=
  Runs.run_invariant Sound (fun _ action h => Sound.step h action) actions _
    (sound_start connectionId)

theorem step_done (h : l.shutDown = .done) (action : Action) (hclosed : l.closed = true) :
    (l.step action).shutDown = .done := by
  cases action with
  | begin form pack =>
    rcases begin_cases l form pack with heq | ⟨key, ⟨_, heq⟩ | ⟨_, _, heq⟩⟩ <;>
      simp [State.step, heq, h]
  | checkClosed slot =>
    simp only [State.step]
    rcases l.requests slot with _ | r
    · exact h
    · dsimp only
      split_ifs <;> simp [State.checkClosed, hclosed, State.setPoint, h]
  | enqueue slot result =>
    simp only [State.step]
    rcases l.requests slot with _ | r
    · exact h
    · dsimp only
      split_ifs
      · unfold State.enqueue
        cases l.enqueueError result <;> exact h
      · exact h
  | cleanUp slot =>
    simp only [State.step]
    rcases l.requests slot with _ | r
    · exact h
    · dsimp only
      cases r.point <;> exact h
  | swapClosed => simp [State.step, hclosed, h]
  | failAll reason => simp [State.step, h]
  | consume op => cases op <;> exact h
  | dispatch pack => exact h
  | _ slot =>
    simp only [State.step]
    rcases l.requests slot with _ | r
    · exact h
    · dsimp only
      split_ifs <;> exact h

/-- Shutting down is final. -/
theorem done_run (h : Sound l) (hdone : l.shutDown = .done) (actions : List Action) :
    (Runs.run State.step l actions).shutDown = .done := by
  have hstep : ∀ (s : State) (action : Action),
      (Sound s ∧ s.shutDown = .done) → Sound (s.step action) ∧ (s.step action).shutDown = .done := by
    rintro s action ⟨hs, hsdone⟩
    exact ⟨hs.step action, step_done hsdone action (hs.closed (by simp [hsdone]))⟩
  exact (Runs.run_invariant (fun s => Sound s ∧ s.shutDown = .done) hstep actions l
    ⟨h, hdone⟩).2

theorem senderLive_of_no_entry (h : ∀ key e, l.world.entry key = some e → e.slot ≠ slot) :
    l.senderLive slot = false := by
  unfold State.senderLive
  rw [List.any_eq_false]
  rintro ⟨key, e⟩ hmem
  simpa using h key e (AList.mem_lookup_iff.mpr hmem)

/-- A waiter whose sender is gone has something to receive. -/
theorem poll_of_no_entry (r : Request) (h : ∀ key e, l.world.entry key = some e → e.slot ≠ slot) :
    (l.poll slot r).isSome = true := by
  have hgone := senderLive_of_no_entry h
  have hqueue : ∀ kind, kind ≠ SinkKind.oneshot → r.form.kind = kind →
      (l.poll slot r).isSome = true := by
    intro kind hne hkind
    unfold State.poll
    rw [hkind]
    cases kind with
    | oneshot => exact absurd rfl hne
    | stream | subscription =>
      dsimp only
      cases (l.world.channels slot).queue.head? with
      | some pack => rfl
      | none =>
        rw [hgone]
        cases (l.world.channels slot).endReason <;> rfl
  cases hkind : r.form.kind with
  | oneshot =>
    unfold State.poll
    rw [hkind]
    dsimp only
    cases (l.world.channels slot).results.head? with
    | some result => rfl
    | none => simp [hgone]
  | stream => exact hqueue .stream (by simp) hkind
  | subscription => exact hqueue .subscription (by simp) hkind

theorem entries_eq_nil {w : World} (h : ∀ key, w.entry key = none) :
    w.table.entries.entries = [] := by
  rcases hentries : w.table.entries.entries with _ | ⟨⟨key, e⟩, rest⟩
  · rfl
  · have hmem : (⟨key, e⟩ : Sigma fun _ : SessionKey => Entry) ∈ w.table.entries.entries := by
      rw [hentries]
      simp
    have he : w.entry key = some e := AList.mem_lookup_iff.mpr hmem
    rw [h key] at he
    cases he

/-- Once shutting down has run, in every interleaving: every waiter past its
check has been answered or failed, and a request that is not past it finds the
flag set, returns the error and takes its own entry away. The table holds the
entries of such requests only, so it is empty whenever there is none. -/
theorem shutDown_leaves_no_waiter (connectionId : UInt64) (actions : List Action)
    (hdone : (Runs.run State.step (State.start connectionId) actions).shutDown = .done) :
    let l := Runs.run State.step (State.start connectionId) actions
    (∀ more, (Runs.run State.step l more).shutDown = .done) ∧
    (∀ slot r, l.requests slot = some r → r.point.beforeCleanUp = false →
      (l.poll slot r).isSome = true) ∧
    (∀ slot r, l.requests slot = some r → r.point = .registered →
      (l.step (.checkClosed slot)).requests slot =
        some { r with point := .failing l.closedError }) ∧
    (∀ slot r error, l.requests slot = some r → r.point = .failing error →
      (l.step (.cleanUp slot)).requests slot = some { r with point := .returned (some error) } ∧
      ∀ key e, (l.step (.cleanUp slot)).world.entry key = some e → e.slot ≠ slot) ∧
    (∀ key e, l.world.entry key = some e →
      ∃ r, l.requests e.slot = some r ∧ r.key = key ∧ r.point.beforeCleanUp = true) ∧
    ((∀ slot r, l.requests slot = some r → r.point.beforeCleanUp = false) →
      l.world.table.entries.entries = []) := by
  intro l
  have h : Sound l := sound_run connectionId actions
  have hclosed : l.closed = true := h.closed (by simp [l, hdone])
  have howner : ∀ key e, l.world.entry key = some e →
      ∃ r, l.requests e.slot = some r ∧ r.key = key ∧ r.point.beforeCleanUp = true := by
    intro key e he
    obtain ⟨r, hr, hkey, _, _⟩ := h.owner key e he
    exact ⟨r, hr, hkey, h.late hdone key e r he hr⟩
  refine ⟨done_run h hdone, ?_, ?_, ?_, howner, ?_⟩
  · intro slot r hr hpoint
    exact poll_of_no_entry r (h.no_entry hdone hr hpoint)
  · intro slot r hr hpoint
    simp [State.step, hr, hpoint, State.checkClosed, hclosed, State.setPoint]
  · intro slot r error hr hpoint
    have hstep : l.step (.cleanUp slot) = l.removeOwn slot r (some error) := by
      simp [State.step, hr, hpoint]
    rw [hstep]
    refine ⟨?_, h.no_entry_of_removeOwn hr (some error)⟩
    simp [State.removeOwn, State.setPoint]
  · intro hsettled
    refine entries_eq_nil ?_
    intro key
    rcases he : l.world.entry key with _ | e
    · rfl
    · obtain ⟨r, hr, _, hbefore⟩ := howner key e he
      rw [hsettled e.slot r hr] at hbefore
      simp at hbefore

/-- A waiter from before and a latecomer: the first is failed, and the second
finds the flag set. -/
theorem shutDown_leaves_no_waiter_latecomer :
    let l := Runs.run State.step (State.start 1)
      [.begin .request ⟨.control, control.pong, 0, 0, 5, [], []⟩,
        .checkClosed 0, .enqueue 0 .queued, .swapClosed,
        .failAll "closed by this side",
        .begin .openStream ⟨.event, 1, 0, 9, 6, [], []⟩]
    (l.poll 0 ⟨.request, .reply 0 5, 1, .waiting⟩).isSome = true ∧
      (l.step (.checkClosed 1)).requests 1 =
        some ⟨.openStream, .session 9, 2, .failing l.closedError⟩ := by
  intro l
  have h := shutDown_leaves_no_waiter 1
    [.begin .request ⟨.control, control.pong, 0, 0, 5, [], []⟩,
      .checkClosed 0, .enqueue 0 .queued, .swapClosed,
      .failAll "closed by this side",
      .begin .openStream ⟨.event, 1, 0, 9, 6, [], []⟩] (by decide)
  exact ⟨h.2.1 0 ⟨.request, .reply 0 5, 1, .waiting⟩ (by decide) (by decide),
    h.2.2.1 1 ⟨.openStream, .session 9, 2, .registered⟩ (by decide) (by decide)⟩

/-- The table of a link that is down does not stay empty: a new request
registers before it reads the flag. -/
theorem shutDown_table_refills :
    let l := Runs.run State.step (State.start 1) [.swapClosed, .failAll "closed by this side"]
    let next := l.step (.begin .request ⟨.control, control.pong, 0, 0, 5, [], []⟩)
    l.shutDown = .done ∧ (∀ slot, l.requests slot = none) ∧
      l.world.table.entries.entries = [] ∧ next.world.table.entries.entries ≠ [] := by
  intro l next
  refine ⟨rfl, fun slot => rfl, rfl, ?_⟩
  decide

end Link
end WbfMatrixClient
