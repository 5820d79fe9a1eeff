import WbfMatrixClient.LinkPool

/-!
# What a step leaves of a pool

Who looks at a pool from outside sees which slots have a line, which of them a call is opening a
line in, which are in the map, and which a `close_all` comes to yet. A step stores a line only
where one was being opened, takes no slot out of the map before the next `close_all`, and comes
past a slot only when it has no line and nobody opens one in it.
-/

namespace WbfMatrixClient
namespace LinkPool

open State

namespace State

def HasRole (s : State) (id : Nat) (role : LinkRole) : Prop :=
  ∃ slot, s.slots[id]? = some slot ∧ slot.role = role

/-- The slot has a line. -/
def Holds (s : State) (id : Nat) (role : LinkRole) : Prop :=
  ∃ slot, s.slots[id]? = some slot ∧ slot.role = role ∧ slot.line.isSome = true

/-- The call is opening a line in the slot. -/
def Connects (s : State) (index id : Nat) (role : LinkRole) : Prop :=
  (∃ task, s.tasks[index]? = some task ∧ task.phase = .connecting id) ∧ s.HasRole id role

/-- The call is a `close_all` that comes to the slot yet. -/
def Drains (s : State) (index id : Nat) (role : LinkRole) : Prop :=
  (∃ task, s.tasks[index]? = some task ∧ id ∈ task.phase.drains) ∧ s.HasRole id role

/-- The map leads to slots of the right role, and the slots of the calls are there. -/
structure Wired (s : State) : Prop where
  map : ∀ role id, s.map role = some id → s.HasRole id role
  calls : ∀ (index : Nat) (task : Task), s.tasks[index]? = some task →
    ∀ id ∈ task.phase.slots, ∃ role, s.HasRole id role

end State

/-- The call that stores the line it has opened. -/
def Action.stores : Action → Option Nat
  | .opened index true => some index
  | _ => none

/-- The call that starts to open a line, when there is one. -/
def Action.starts : Action → Option Nat
  | .lockWrite index => some index
  | _ => none

/-- What a step other than `close_all` leaves: `stores` is the call that stores the line it has
opened, and `starts` the one that starts to open a line. -/
structure Frame (stores starts : Option Nat) (s s' : State) : Prop where
  wired : s'.Wired
  role : ∀ id role, s.HasRole id role → s'.HasRole id role
  map : ∀ role id, s.map role = some id → s'.map role = some id
  holds : ∀ id role, s'.Holds id role →
    s.Holds id role ∨ ∃ index, stores = some index ∧ s.Connects index id role
  connects : ∀ index id role, s'.Connects index id role →
    s.Connects index id role ∨ starts = some index
  drains : ∀ index id role, s'.Drains index id role → s.Drains index id role
  passed : ∀ index id role, s.Drains index id role → s'.Drains index id role ∨
    ∀ role', ¬s'.Holds id role' ∧ ∀ index', ¬s'.Connects index' id role'

section Frames

variable {s : State} {stores starts : Option Nat}

theorem Frame.refl (hs : s.Wired) :
    Frame stores starts s s where
  wired := hs
  role _ _ h := h
  map _ _ h := h
  holds _ _ h := .inl h
  connects _ _ _ h := .inl h
  drains _ _ _ h := h
  passed _ _ _ h := .inl h

variable {id : Nat}

theorem hasRole_unique {role role' : LinkRole} (h : s.HasRole id role) (h' : s.HasRole id role') :
    role = role' := by
  obtain ⟨slot, hslot, rfl⟩ := h
  obtain ⟨slot', hslot', rfl⟩ := h'
  rw [hslot] at hslot'
  cases hslot'
  rfl

theorem hasRole_of_holds {role : LinkRole} (h : s.Holds id role) : s.HasRole id role := by
  obtain ⟨slot, hslot, hrole, -⟩ := h
  exact ⟨slot, hslot, hrole⟩

variable {phase : Phase}

theorem drains_slots (h : id ∈ phase.drains) : id ∈ phase.slots := by
  cases phase with
  | draining slots => exact h
  | looked | waiting | opening | missing | connecting | stored | holding | reusing | checking
  | closing | done => cases h

variable {index : Nat}

section

variable (hs : s.Wired)

include hs

/-- A call goes on: it does not start to open a line unless the frame says so, and comes past a
slot only when that has no line and nobody opens one in it. -/
theorem frame_setPhase {task : Task} (htask : s.tasks[index]? = some task)
    (hslots : ∀ id ∈ phase.slots, id ∈ task.phase.slots ∨ ∃ role, s.HasRole id role)
    (hconnecting : ∀ id, phase = .connecting id → starts = some index)
    (hdrains : ∀ id ∈ phase.drains, id ∈ task.phase.drains)
    (hpassed : ∀ id ∈ task.phase.drains, id ∈ phase.drains ∨ phase ≠ .connecting id ∧ ∀ role,
      ¬s.Holds id role ∧ ∀ index', ¬s.Connects index' id role) :
    Frame stores starts s (s.setPhase index phase) := by
  have hfound : ∀ {place : Nat} {later : Task},
      (s.setPhase index phase).tasks[place]? = some later →
        place = index ∧ later.phase = phase ∨ place ≠ index ∧ s.tasks[place]? = some later := by
    intro place later hlater
    obtain ⟨earlier, hearlier, hborn, hphase⟩ := setPhase_get hlater
    by_cases hsame : place = index
    · rw [if_pos hsame] at hphase
      exact .inl ⟨hsame, hphase⟩
    · rw [if_neg hsame] at hphase
      obtain ⟨born, phase'⟩ := earlier
      obtain ⟨born', phase''⟩ := later
      cases hborn
      cases hphase
      exact .inr ⟨hsame, hearlier⟩
  have hconnects : ∀ {place id : Nat} {role : LinkRole},
      (s.setPhase index phase).Connects place id role →
        s.Connects place id role ∨ place = index ∧ phase = .connecting id := by
    rintro place id role ⟨⟨later, hlater, hconn⟩, hrole⟩
    rcases hfound hlater with ⟨rfl, hphase⟩ | ⟨-, hbefore⟩
    · exact .inr ⟨rfl, hphase.symm.trans hconn⟩
    · exact .inl ⟨⟨later, hbefore, hconn⟩, hrole⟩
  refine ⟨⟨hs.map, fun place later hlater id hid => ?_⟩, fun _ _ h => h, fun _ _ h => h,
    fun _ _ h => .inl h, fun place id role h => (hconnects h).imp_right ?_,
    fun place id role h => ?_, fun place id role h => ?_⟩
  · rcases hfound hlater with ⟨-, hphase⟩ | ⟨-, hbefore⟩
    · rw [hphase] at hid
      rcases hslots id hid with hbefore | hrole
      · exact hs.calls index task htask id hbefore
      · exact hrole
    · exact hs.calls place later hbefore id hid
  · rintro ⟨rfl, hphase⟩
    exact hconnecting id hphase
  · obtain ⟨⟨later, hlater, hin⟩, hrole⟩ := h
    rcases hfound hlater with ⟨rfl, hphase⟩ | ⟨-, hbefore⟩
    · rw [hphase] at hin
      exact ⟨⟨task, htask, hdrains id hin⟩, hrole⟩
    · exact ⟨⟨later, hbefore, hin⟩, hrole⟩
  · obtain ⟨⟨earlier, hearlier, hin⟩, hrole⟩ := h
    by_cases hsame : place = index
    · subst hsame
      rw [htask] at hearlier
      cases hearlier
      rcases hpassed id hin with hstill | ⟨hne, hgone⟩
      · refine .inl ⟨⟨{ task with phase := phase }, ?_, hstill⟩, hrole⟩
        simp [setPhase, htask]
      · refine .inr fun role' => ⟨(hgone role').1, fun place' hconn => ?_⟩
        rcases hconnects hconn with hbefore | ⟨-, hphase⟩
        · exact (hgone role').2 place' hbefore
        · exact hne hphase
    · refine .inl ⟨⟨earlier, ?_, hin⟩, hrole⟩
      simp [setPhase, hearlier, Ne.symm hsame]

/-- A call goes on without opening a line or closing one. -/
theorem frame_move {task : Task} (htask : s.tasks[index]? = some task)
    (hslots : ∀ id ∈ phase.slots, id ∈ task.phase.slots) (hwrites : ∀ id, phase ≠ .connecting id)
    (hdrains : task.phase.drains = []) (hnone : phase.drains = []) :
    Frame stores starts s (s.setPhase index phase) := by
  refine frame_setPhase hs htask (fun id hid => .inl (hslots id hid))
    (fun id hconn => (hwrites id hconn).elim) (fun id hid => ?_) fun id hid => ?_
  · rw [hnone] at hid
    cases hid
  · rw [hdrains] at hid
    cases hid

omit hs in
/-- First the slots change, with the calls as they are, and then the rest. -/
theorem Frame.after {s' s'' : State} (h : Frame none none s s') (htasks : s'.tasks = s.tasks)
    (h' : Frame stores starts s' s'') :
    Frame stores starts s s'' where
  wired := h'.wired
  role id role hrole := h'.role id role (h.role id role hrole)
  map role id hmap := h'.map role id (h.map role id hmap)
  holds id role hholds := by
    rcases h'.holds id role hholds with hbefore | ⟨index, hstores, hconn⟩
    · rcases h.holds id role hbefore with hfirst | ⟨index, hnone, -⟩
      · exact .inl hfirst
      · cases hnone
    · rcases h.connects index id role hconn with hfirst | hnone
      · exact .inr ⟨index, hstores, hfirst⟩
      · cases hnone
  connects index id role hconn := by
    rcases h'.connects index id role hconn with hbefore | hstarts
    · rcases h.connects index id role hbefore with hfirst | hnone
      · exact .inl hfirst
      · cases hnone
    · exact .inr hstarts
  drains index id role hdrains := h.drains index id role (h'.drains index id role hdrains)
  passed index id role hdrains := by
    refine h'.passed index id role ⟨?_, h.role id role hdrains.2⟩
    rw [htasks]
    exact hdrains.1

/-- The slots change and the calls do not: a slot keeps its role, and a new one has no line. -/
theorem frame_slots {s' : State} (htasks : s'.tasks = s.tasks)
    (hrole : ∀ id role, s.HasRole id role → s'.HasRole id role)
    (hmap : ∀ role id, s.map role = some id → s'.map role = some id)
    (hwired : ∀ role id, s'.map role = some id → s.map role = some id ∨ s'.HasRole id role)
    (hholds : ∀ id role, s'.Holds id role → s.Holds id role) : Frame none none s s' := by
  have hback : ∀ {id : Nat} {role : LinkRole}, (∃ role', s.HasRole id role') →
      s'.HasRole id role → s.HasRole id role := by
    rintro id role ⟨role', hbefore⟩ hlater
    rw [hasRole_unique hlater (hrole id role' hbefore)]
    exact hbefore
  refine ⟨⟨fun role id h => ?_, fun index task htask id hid => ?_⟩, hrole, hmap,
    fun id role h => .inl (hholds id role h), fun index id role h => .inl ?_,
    fun index id role h => ?_, fun index id role h => .inl ?_⟩
  · rcases hwired role id h with hbefore | hnew
    · exact hrole id role (hs.map role id hbefore)
    · exact hnew
  · rw [htasks] at htask
    obtain ⟨role, h⟩ := hs.calls index task htask id hid
    exact ⟨role, hrole id role h⟩
  · obtain ⟨⟨task, htask, hphase⟩, hlater⟩ := h
    rw [htasks] at htask
    have hin : id ∈ task.phase.slots := by
      rw [hphase]
      exact List.mem_singleton_self id
    exact ⟨⟨task, htask, hphase⟩, hback (hs.calls index task htask id hin) hlater⟩
  · obtain ⟨⟨task, htask, hin⟩, hlater⟩ := h
    rw [htasks] at htask
    exact ⟨⟨task, htask, hin⟩, hback (hs.calls index task htask id (drains_slots hin)) hlater⟩
  · obtain ⟨⟨task, htask, hin⟩, hbefore⟩ := h
    rw [← htasks] at htask
    exact ⟨⟨task, htask, hin⟩, hrole id role hbefore⟩

/-- The slot of a role is in the map, and has no line when it is new. -/
theorem frame_slot (role : LinkRole) :
    Frame none none s (s.slot role).2 ∧ (s.slot role).2.tasks = s.tasks ∧
      (s.slot role).2.HasRole (s.slot role).1 role := by
  unfold slot
  split
  · rename_i id hmap
    exact ⟨.refl hs, rfl, hs.map role id hmap⟩
  · rename_i hmap
    have hnew : (s.slots ++ [⟨role, none⟩])[s.slots.length]? = some (⟨role, none⟩ : Slot) := by simp
    refine ⟨frame_slots hs rfl ?_ (fun other id h => ?_) (fun other id h => ?_) ?_, rfl, _, hnew,
      rfl⟩
    · rintro id other ⟨slot, hslot, hrole⟩
      refine ⟨slot, ?_, hrole⟩
      simp only [List.getElem?_append_left (List.getElem?_eq_some_iff.mp hslot).1]
      exact hslot
    · have hne : other ≠ role := by
        rintro rfl
        rw [hmap] at h
        cases h
      simp only [Function.update_of_ne hne]
      exact h
    · simp only [Function.update_apply] at h
      split_ifs at h with hsame
      · cases h
        exact .inr ⟨_, hnew, hsame.symm⟩
      · exact .inl h
    · rintro id other ⟨slot, hslot, hrole, hline⟩
      simp only [List.getElem?_append] at hslot
      split_ifs at hslot
      · exact ⟨slot, hslot, hrole, hline⟩
      · rw [List.mem_singleton.mp (List.mem_of_getElem? hslot)] at hline
        cases hline

/-- A call starts that neither opens a line yet nor empties the map. -/
theorem frame_spawn (hslots : ∀ id ∈ phase.slots, ∃ role, s.HasRole id role)
    (hwrites : ∀ id, phase ≠ .connecting id) (hnone : phase.drains = []) :
    Frame stores starts s (s.spawn phase) := by
  have hfound : ∀ {index : Nat} {task : Task}, (s.spawn phase).tasks[index]? = some task →
      s.tasks[index]? = some task ∨ task.phase = phase := by
    intro index task h
    simp only [spawn, List.getElem?_append] at h
    split_ifs at h
    · exact .inl h
    · rw [List.mem_singleton.mp (List.mem_of_getElem? h)]
      exact .inr rfl
  refine ⟨⟨hs.map, fun index task htask id hid => ?_⟩, fun _ _ h => h, fun _ _ h => h,
    fun _ _ h => .inl h, fun index id role h => ?_, fun index id role h => ?_,
    fun index id role h => ?_⟩
  · rcases hfound htask with hbefore | rfl
    · exact hs.calls index task hbefore id hid
    · exact hslots id hid
  · obtain ⟨⟨task, htask, hphase⟩, hrole⟩ := h
    rcases hfound htask with hbefore | rfl
    · exact .inl ⟨⟨task, hbefore, hphase⟩, hrole⟩
    · exact (hwrites id hphase).elim
  · obtain ⟨⟨task, htask, hin⟩, hrole⟩ := h
    rcases hfound htask with hbefore | rfl
    · exact ⟨⟨task, hbefore, hin⟩, hrole⟩
    · rw [hnone] at hin
      cases hin
  · obtain ⟨⟨task, htask, hin⟩, hrole⟩ := h
    refine .inl ⟨⟨task, ?_, hin⟩, hrole⟩
    rw [spawn, List.getElem?_append_left (List.getElem?_eq_some_iff.mp htask).1]
    exact htask

theorem frame_setLine (id : Nat) : Frame none none s (s.setLine id none) := by
  refine frame_slots hs rfl ?_ (fun _ _ h => h) (fun _ _ h => .inl h) ?_
  · rintro place role ⟨slot, hslot, hrole⟩
    refine ⟨_, setLine_of_get id none hslot, ?_⟩
    split_ifs <;> exact hrole
  · rintro place role ⟨slot, hslot, hrole, hline⟩
    obtain ⟨earlier, hearlier, hsame, hlater⟩ := setLine_get hslot
    rw [hlater] at hline
    split_ifs at hline
    · cases hline
    · exact ⟨earlier, hearlier, hsame.trans hrole, hline⟩

theorem frame_closeSlot (id : Nat) :
    Frame none none s (s.closeSlot id) ∧ (s.closeSlot id).tasks = s.tasks ∧
      ∀ role, ¬(s.closeSlot id).Holds id role := by
  unfold closeSlot
  split
  · rename_i role line hslot
    have hframe := frame_setLine hs id
    refine ⟨frame_slots hs rfl hframe.role hframe.map (fun _ _ h => .inl h) fun place other h => ?_,
      rfl, ?_⟩
    · exact (hframe.holds place other h).resolve_right fun ⟨_, hnone, _⟩ => by cases hnone
    · rintro other ⟨slot, h, -, hline⟩
      obtain ⟨earlier, -, -, hlater⟩ := setLine_get h
      rw [hlater, if_pos rfl] at hline
      cases hline
  · rename_i hnone
    refine ⟨.refl hs, rfl, ?_⟩
    rintro role ⟨⟨role', line⟩, hslot, -, hline⟩
    cases line with
    | none => cases hline
    | some line => exact hnone role' line hslot

theorem frame_die (id : Nat) : Frame none none s (s.step (.die id)) := by
  refine frame_slots hs rfl ?_ (fun _ _ h => h) (fun _ _ h => .inl h) ?_
  · rintro place role ⟨slot, hslot, hrole⟩
    refine ⟨_, by simp only [step, List.getElem?_modify, hslot]; rfl, ?_⟩
    split_ifs <;> exact hrole
  · rintro place role ⟨slot, hslot, hrole, hline⟩
    simp only [step, List.getElem?_modify, Option.map_eq_map, Option.map_eq_some_iff] at hslot
    obtain ⟨earlier, hearlier, rfl⟩ := hslot
    refine ⟨earlier, hearlier, ?_⟩
    split_ifs at hrole hline
    · exact ⟨hrole, by rwa [Option.isSome_map] at hline⟩
    · exact ⟨hrole, hline⟩

/-- The line that was opened is stored in the slot it was opened for. -/
theorem frame_store {born : Nat} {slot : Slot}
    (htask : s.tasks[index]? = some { born := born, phase := .connecting id })
    (hslot : s.slots[id]? = some slot) (line : Line) :
    Frame (some index) none s
      (((s.setLine id (some line)).emitLink slot.role true).setPhase index (.stored id)) := by
  have hstored : Frame none none s (s.setPhase index (.stored id)) :=
    frame_move hs htask (fun _ h => h) (fun _ h => (by cases h)) rfl rfl
  have hrole : ∀ (place : Nat) (role : LinkRole), s.HasRole place role ↔
      (s.setLine id (some line)).HasRole place role := by
    intro place role
    constructor
    · rintro ⟨other, hother, rfl⟩
      refine ⟨_, setLine_of_get id _ hother, ?_⟩
      split_ifs <;> rfl
    · rintro ⟨other, hother, rfl⟩
      obtain ⟨earlier, hearlier, hsame, -⟩ := setLine_get hother
      exact ⟨earlier, hearlier, hsame⟩
  refine ⟨⟨fun role place h => (hrole place role).mp (hstored.wired.map role place h),
      fun place task h other hother => ?_⟩,
    fun place role h => (hrole place role).mp h, fun _ _ h => h, fun place role h => ?_,
    fun place other role h => hstored.connects place other role ⟨h.1, (hrole other role).mpr h.2⟩,
    fun place other role h => hstored.drains place other role ⟨h.1, (hrole other role).mpr h.2⟩,
    fun place other role h => .inl ?_⟩
  · obtain ⟨role, h⟩ := hstored.wired.calls place task h other hother
    exact ⟨role, (hrole other role).mp h⟩
  · obtain ⟨other, hother, rfl, hline⟩ := h
    obtain ⟨earlier, hearlier, hsame, hlater⟩ := setLine_get hother
    by_cases hplace : place = id
    · subst hplace
      rw [hslot] at hearlier
      cases hearlier
      rw [← hsame]
      exact .inr ⟨index, rfl, ⟨_, htask, rfl⟩, slot, hslot, rfl⟩
    · rw [hlater, if_neg hplace] at hline
      exact .inl ⟨earlier, hearlier, hsame, hline⟩
  · obtain ⟨⟨task, hplace, hin⟩, hbefore⟩ := h
    have hne : index ≠ place := by
      rintro rfl
      rw [htask] at hplace
      cases hplace
      cases hin
    refine ⟨⟨task, ?_, hin⟩, (hrole other role).mp hbefore⟩
    simp [setPhase, emitLink, setLine, hplace, hne]

theorem frame_opened (index : Nat) (ok : Bool) :
    Frame (Action.opened index ok).stores none s (s.step (.opened index ok)) := by
  simp only [step]
  split
  · rename_i born id htask
    split
    · rename_i slot hslot
      exact frame_store hs htask hslot _
    · exact frame_move hs htask (fun _ h => by cases h) (fun _ h => by cases h) rfl rfl
  · exact .refl hs

omit hs in
/-- Nobody opens a line in a slot whose write lock can be had. -/
theorem not_connects_of_canWrite (hfree : s.canWrite id = true) (index : Nat) (role : LinkRole) :
    ¬s.Connects index id role := by
  rintro ⟨⟨task, htask, hphase⟩, -⟩
  have hread := (Bool.and_eq_true_iff.mp hfree).1
  refine of_decide_eq_true (List.all_eq_true.mp hread task (List.mem_of_getElem? htask)) ?_
  rw [hphase]
  rfl

theorem frame_lockWrite (index : Nat) : Frame none (some index) s (s.step (.lockWrite index)) := by
  simp only [step]
  split
  · rename_i born id htask
    split_ifs with hfree halive
    · exact frame_move hs htask (fun _ h => h) (fun _ h => by cases h) rfl rfl
    · obtain ⟨hframe, htasks, -⟩ := frame_closeSlot hs id
      refine hframe.after htasks (frame_setPhase hframe.wired
        (show (s.closeSlot id).tasks[index]? = some ⟨born, .missing id⟩ by rw [htasks, htask])
        (fun _ h => .inl h) (fun _ _ => rfl) (fun _ h => ?_) fun _ h => ?_)
      · cases h
      · cases h
    · exact .refl hs
  · exact .refl hs

theorem frame_closeLine (index : Nat) : Frame none none s (s.step (.closeLine index)) := by
  simp only [step]
  split
  · rename_i born id htask
    split_ifs with hfree
    · obtain ⟨hframe, htasks, -⟩ := frame_closeSlot hs id
      exact hframe.after htasks (frame_move hframe.wired
        (show (s.closeSlot id).tasks[index]? = some ⟨born, .closing id⟩ by rw [htasks, htask])
        (fun _ h => by cases h) (fun _ h => by cases h) rfl rfl)
    · exact .refl hs
  · rename_i born id slots htask
    split_ifs with hfree
    · obtain ⟨hframe, htasks, hnone⟩ := frame_closeSlot hs id
      refine hframe.after htasks (frame_setPhase hframe.wired
        (show (s.closeSlot id).tasks[index]? = some ⟨born, .draining (id :: slots)⟩ by
          rw [htasks, htask])
        (fun _ h => .inl (List.mem_cons_of_mem id h)) (fun _ h => by cases h)
        (fun _ h => List.mem_cons_of_mem id h) fun other hother => ?_)
      rcases List.mem_cons.mp hother with rfl | hrest
      · refine .inr ⟨(fun h => by cases h), fun role => ⟨hnone role, fun place hconn => ?_⟩⟩
        rcases hframe.connects place other role hconn with hbefore | hstarts
        · exact not_connects_of_canWrite hfree place role hbefore
        · cases hstarts
      · exact .inl hrest
    · exact .refl hs
  · rename_i born htask
    exact frame_move hs htask (fun _ h => by cases h) (fun _ h => by cases h) rfl rfl
  · exact .refl hs

theorem frame_check (index : Nat) (busy : Bool) :
    Frame none none s (s.step (.check index busy)) := by
  simp only [step]
  split
  · rename_i born role id htask
    split_ifs
    · exact frame_move hs htask (fun _ h => by cases h) (fun _ h => by cases h) rfl rfl
    · obtain ⟨hframe, htasks, hrole⟩ := frame_slot hs role
      refine hframe.after htasks (frame_setPhase hframe.wired
        (show (s.slot role).2.tasks[index]? = some ⟨born, .checking role id⟩ by rw [htasks, htask])
        (fun other h => ?_) (fun _ h => by cases h) (fun _ h => by cases h) fun _ h => by cases h)
      rw [List.mem_singleton.mp h]
      exact .inr ⟨role, hrole⟩
  · exact .refl hs

end

end Frames

theorem frame_call {s : State} (hs : s.Wired) (role : LinkRole) {phase : Nat → Phase}
    (hslots : ∀ id, ∀ other ∈ (phase id).slots, other = id)
    (hwrites : ∀ id other, phase id ≠ .connecting other) (hnone : ∀ id, (phase id).drains = []) :
    Frame none none s ((s.slot role).2.spawn (phase (s.slot role).1)) := by
  obtain ⟨hframe, htasks, hrole⟩ := frame_slot hs role
  refine hframe.after htasks (frame_spawn hframe.wired (fun id hid => ?_) (hwrites _) (hnone _))
  rw [hslots _ id hid]
  exact ⟨role, hrole⟩

theorem frame_step {s : State} (hs : s.Wired) (action : Action) (hclose : action ≠ .closeAll) :
    Frame action.stores action.starts s (s.step action) := by
  cases action with
  | acquire role | ensureOpen role | reuse role | close role =>
    exact frame_call hs role (fun _ _ h => List.mem_singleton.mp h) nofun fun _ => rfl
  | closeAll => exact (hclose rfl).elim
  | read index =>
    simp only [step]
    split
    · rename_i born id htask
      split_ifs
      · exact frame_move hs htask (fun _ h => h) (fun _ h => by cases h) rfl rfl
      · exact frame_move hs htask (fun _ h => h) (fun _ h => by cases h) rfl rfl
      · exact .refl hs
    · rename_i born id htask
      split_ifs
      · exact frame_move hs htask (fun _ h => h) (fun _ h => by cases h) rfl rfl
      · exact frame_move hs htask (fun _ h => by cases h) (fun _ h => by cases h) rfl rfl
      · exact .refl hs
    · exact .refl hs
  | lockOpening index =>
    simp only [step]
    split
    · rename_i born id htask
      split_ifs
      · exact frame_move hs htask (fun _ h => h) (fun _ h => by cases h) rfl rfl
      · exact .refl hs
    · exact .refl hs
  | readAgain index =>
    simp only [step]
    split
    · rename_i born id htask
      split_ifs
      · exact frame_move hs htask (fun _ h => h) (fun _ h => by cases h) rfl rfl
      · exact frame_move hs htask (fun _ h => h) (fun _ h => by cases h) rfl rfl
      · exact .refl hs
    · exact .refl hs
  | lockWrite index => exact frame_lockWrite hs index
  | opened index ok => exact frame_opened hs index ok
  | downgrade index =>
    simp only [step]
    split
    · rename_i born id htask
      split_ifs
      · exact frame_move hs htask (fun _ h => h) (fun _ h => by cases h) rfl rfl
      · exact frame_move hs htask (fun _ h => by cases h) (fun _ h => by cases h) rfl rfl
    · exact .refl hs
  | check index busy => exact frame_check hs index busy
  | closeLine index => exact frame_closeLine hs index
  | release index =>
    simp only [step]
    split
    · rename_i born id htask
      exact frame_move hs htask (fun _ h => by cases h) (fun _ h => by cases h) rfl rfl
    · exact .refl hs
  | cancel index =>
    simp only [step]
    split
    · exact .refl hs
    · exact .refl hs
    · rename_i hdraining hstored
      cases htask : s.tasks[index]? with
      | none =>
        have hsame : s.setPhase index .done = s := by
          rw [setPhase, List.modify_eq_self (List.getElem?_eq_none_iff.mp htask)]
        rw [hsame]
        exact .refl hs
      | some task =>
        obtain ⟨born, phase⟩ := task
        refine frame_move hs htask (fun _ h => by cases h) (fun _ h => by cases h) ?_ rfl
        cases phase with
        | draining slots => exact (hdraining born slots htask).elim
        | looked | waiting | opening | missing | connecting | stored | holding | reusing
        | checking | closing | done => rfl
  | die id => exact frame_die hs id
  | dropSlot id =>
    simp only [step]
    split_ifs
    · exact frame_setLine hs id
    · exact .refl hs

section CloseAll

variable {s : State}

variable {index : Nat}

theorem closeAll_get {task : Task} :
    (s.step .closeAll).tasks[index]? = some task ↔ s.tasks[index]? = some task ∨
      index = s.tasks.length ∧
        task = { born := s.drained + 1, phase := .draining (LinkRole.ALL.filterMap s.map) } := by
  simp only [step, List.getElem?_append]
  split_ifs with hlt
  · exact ⟨.inl, fun h => h.resolve_right fun hnew => absurd hnew.1 (Nat.ne_of_lt hlt)⟩
  · have hle := Nat.le_of_not_lt hlt
    rw [List.getElem?_eq_none_iff.mpr hle]
    constructor
    · intro h
      obtain ⟨hlt', hget⟩ := List.getElem?_eq_some_iff.mp h
      have hindex : index = s.tasks.length := by
        simp only [List.length_singleton] at hlt'
        omega
      refine .inr ⟨hindex, ?_⟩
      rw [List.mem_singleton.mp (List.mem_of_getElem? h)]
    · rintro (h | ⟨rfl, rfl⟩)
      · cases h
      · simp

theorem closeAll_connects {id : Nat} {role : LinkRole} :
    (s.step .closeAll).Connects index id role ↔ s.Connects index id role := by
  constructor
  · rintro ⟨⟨task, htask, hphase⟩, hrole⟩
    rcases closeAll_get.mp htask with hbefore | ⟨-, rfl⟩
    · exact ⟨⟨task, hbefore, hphase⟩, hrole⟩
    · cases hphase
  · rintro ⟨⟨task, htask, hphase⟩, hrole⟩
    exact ⟨⟨task, closeAll_get.mpr (.inl htask), hphase⟩, hrole⟩

/-- What was in the map is to be closed by the new call. -/
theorem closeAll_drains (hs : s.Wired) {id : Nat} {role : LinkRole} :
    (s.step .closeAll).Drains index id role ↔
      s.Drains index id role ∨ index = s.tasks.length ∧ s.map role = some id := by
  have hmem : id ∈ LinkRole.ALL.filterMap s.map ↔ ∃ other, s.map other = some id := by
    rw [List.mem_filterMap]
    refine ⟨fun ⟨other, _, h⟩ => ⟨other, h⟩, fun ⟨other, h⟩ => ⟨other, ?_, h⟩⟩
    cases other <;> simp [LinkRole.ALL]
  constructor
  · rintro ⟨⟨task, htask, hin⟩, hrole⟩
    rcases closeAll_get.mp htask with hbefore | ⟨rfl, rfl⟩
    · exact .inl ⟨⟨task, hbefore, hin⟩, hrole⟩
    · obtain ⟨other, hother⟩ := hmem.mp hin
      rw [hasRole_unique hrole (hs.map other id hother)]
      exact .inr ⟨rfl, hother⟩
  · rintro (⟨⟨task, htask, hin⟩, hrole⟩ | ⟨rfl, hmap⟩)
    · exact ⟨⟨task, closeAll_get.mpr (.inl htask), hin⟩, hrole⟩
    · exact ⟨⟨_, closeAll_get.mpr (.inr ⟨rfl, rfl⟩), hmem.mpr ⟨role, hmap⟩⟩, hs.map role id hmap⟩

theorem closeAll_wired (hs : s.Wired) : (s.step .closeAll).Wired := by
  refine ⟨fun role id h => (by cases h), fun index task htask id hid => ?_⟩
  rcases closeAll_get.mp htask with hbefore | ⟨-, rfl⟩
  · exact hs.calls index task hbefore id hid
  · obtain ⟨role, -, hmap⟩ := List.mem_filterMap.mp hid
    exact ⟨role, hs.map role id hmap⟩

end CloseAll

theorem wired_start : start.Wired where
  map role id h := by cases h
  calls index task h := by simp [start] at h

theorem not_hasRole_start (id : Nat) (role : LinkRole) : ¬start.HasRole id role := by
  rintro ⟨slot, hslot, -⟩
  simp [start] at hslot

end LinkPool
end WbfMatrixClient
