import WbfMatrixClient.Lib.Runs

/-!
# The pool of links

An account has one line for each role. The pool keeps a slot for each role that was asked for:
who finds one in the map locks it, to use the line in it or to open one, and `close_all` takes
the slots out of the map and closes their lines one after the other. A slot lives as long as
somebody has it, in the map or not.
-/

namespace WbfMatrixClient
namespace LinkPool

open Function

inductive LinkRole where
  | misc
  | upload
  | download
  | rooms
  | keys
deriving DecidableEq

def LinkRole.ALL : List LinkRole :=
  [.misc, .upload, .download, .rooms, .keys]

structure Line where
  /-- Not closed from outside. -/
  alive : Bool
  /-- How often the map had been emptied when the call started that opened the line. -/
  era : Nat
deriving DecidableEq

structure Slot where
  role : LinkRole
  line : Option Line
deriving DecidableEq

/-- Where a call stands with the slot it found. -/
inductive Phase where
  | looked (slot : Nat)
  | waiting (slot : Nat)
  | opening (slot : Nat)
  | missing (slot : Nat)
  | connecting (slot : Nat)
  | stored (slot : Nat)
  | holding (slot : Nat)
  | reusing (slot : Nat)
  | checking (role : LinkRole) (slot : Nat)
  | closing (slot : Nat)
  | draining (slots : List Nat)
  | done
deriving DecidableEq

/-- The slot that a call opens a line in, when it has none. -/
def Phase.target : Phase → Option Nat
  | .looked slot | .waiting slot | .opening slot | .missing slot | .connecting slot => some slot
  | _ => none

def Phase.reads : Phase → Option Nat
  | .holding slot => some slot
  | _ => none

def Phase.writes : Phase → Option Nat
  | .connecting slot | .stored slot => some slot
  | _ => none

/-- The slot whose opening lock a call has. -/
def Phase.opens : Phase → Option Nat
  | .opening slot | .missing slot | .connecting slot | .stored slot => some slot
  | _ => none

/-- The slots that are closed yet. -/
def Phase.drains : Phase → List Nat
  | .draining slots => slots
  | _ => []

def Phase.slots : Phase → List Nat
  | .looked slot | .waiting slot | .opening slot | .missing slot | .connecting slot | .stored slot
  | .holding slot | .reusing slot | .checking _ slot | .closing slot => [slot]
  | .draining slots => slots
  | .done => []

structure Task where
  born : Nat
  phase : Phase

/-- An event of a line: whether it was opened or closed. -/
structure LinkEvent where
  role : LinkRole
  opened : Bool

structure State where
  slots : List Slot
  map : LinkRole → Option Nat
  tasks : List Task
  /-- How often the map was emptied. -/
  drained : Nat
  events : List LinkEvent
  /-- For each line that the pool closed, whether somebody used it. -/
  drops : List Bool

def State.start : State where
  slots := []
  map := fun _ => none
  tasks := []
  drained := 0
  events := []
  drops := []

inductive Action where
  | acquire (role : LinkRole)
  | ensureOpen (role : LinkRole)
  | reuse (role : LinkRole)
  | close (role : LinkRole)
  | closeAll
  | read (task : Nat)
  | lockOpening (task : Nat)
  | readAgain (task : Nat)
  | lockWrite (task : Nat)
  | opened (task : Nat) (ok : Bool)
  | downgrade (task : Nat)
  | check (task : Nat) (busy : Bool)
  | closeLine (task : Nat)
  | release (task : Nat)
  | cancel (task : Nat)
  | die (slot : Nat)
  | dropSlot (slot : Nat)

namespace State

/-- The slot of a role, found in the map or put there. -/
def slot (s : State) (role : LinkRole) : Nat × State :=
  match s.map role with
  | some id => (id, s)
  | none =>
      (s.slots.length,
        { s with
          slots := s.slots ++ [{ role := role, line := none }]
          map := update s.map role (some s.slots.length) })

def spawn (s : State) (phase : Phase) : State :=
  { s with tasks := s.tasks ++ [{ born := s.drained, phase := phase }] }

def setPhase (s : State) (index : Nat) (phase : Phase) : State :=
  { s with tasks := s.tasks.modify index fun task => { task with phase := phase } }

def setLine (s : State) (id : Nat) (line : Option Line) : State :=
  { s with slots := s.slots.modify id fun slot => { slot with line := line } }

def emitLink (s : State) (role : LinkRole) (opened : Bool) : State :=
  { s with events := s.events ++ [{ role := role, opened := opened }] }

def isAlive (s : State) (id : Nat) : Bool :=
  (s.slots[id]?).any fun slot => slot.line.any Line.alive

def canRead (s : State) (id : Nat) : Bool :=
  s.tasks.all fun task => task.phase.writes ≠ some id

def inUse (s : State) (id : Nat) : Bool :=
  s.tasks.any fun task => task.phase.reads = some id

def canWrite (s : State) (id : Nat) : Bool :=
  s.canRead id && !s.inUse id

def canOpen (s : State) (id : Nat) : Bool :=
  s.tasks.all fun task => task.phase.opens ≠ some id

/-- The line of a slot is dropped, which closes it. -/
def closeSlot (s : State) (id : Nat) : State :=
  match s.slots[id]? with
  | some { role, line := some _ } =>
      let s : State := { s with drops := s.drops ++ [s.inUse id] }
      (s.setLine id none).emitLink role false
  | _ => s

/-- A slot that nobody has any more goes, with its line. -/
def isGone (s : State) (id : Nat) : Bool :=
  LinkRole.ALL.all (fun role => s.map role ≠ some id) &&
    s.tasks.all fun task => id ∉ task.phase.slots

def step (s : State) : Action → State
  | .acquire role => (s.slot role).2.spawn (.looked (s.slot role).1)
  | .ensureOpen role => (s.slot role).2.spawn (.checking role (s.slot role).1)
  | .reuse role => (s.slot role).2.spawn (.reusing (s.slot role).1)
  | .close role => (s.slot role).2.spawn (.closing (s.slot role).1)
  | .closeAll =>
      { s with
        map := fun _ => none
        drained := s.drained + 1
        tasks := s.tasks ++
          [{ born := s.drained + 1, phase := .draining (LinkRole.ALL.filterMap s.map) }] }
  | .read index =>
      match s.tasks[index]? with
      | some { phase := .looked id, .. } =>
          if s.canRead id then
            s.setPhase index (if s.isAlive id then .holding id else .waiting id)
          else
            s
      | some { phase := .reusing id, .. } =>
          if s.canRead id then s.setPhase index (if s.isAlive id then .holding id else .done) else s
      | _ => s
  | .lockOpening index =>
      match s.tasks[index]? with
      | some { phase := .waiting id, .. } =>
          if s.canOpen id then s.setPhase index (.opening id) else s
      | _ => s
  | .readAgain index =>
      match s.tasks[index]? with
      | some { phase := .opening id, .. } =>
          if s.canRead id then
            s.setPhase index (if s.isAlive id then .holding id else .missing id)
          else
            s
      | _ => s
  | .lockWrite index =>
      match s.tasks[index]? with
      | some { phase := .missing id, .. } =>
          if s.canWrite id then
            if s.isAlive id then s.setPhase index (.stored id)
            else (s.closeSlot id).setPhase index (.connecting id)
          else
            s
      | _ => s
  | .opened index ok =>
      match s.tasks[index]? with
      | some { born, phase := .connecting id } =>
          match s.slots[id]?, ok with
          | some slot, true =>
              let s := (s.setLine id (some { alive := true, era := born })).emitLink slot.role true
              s.setPhase index (.stored id)
          | _, _ => s.setPhase index .done
      | _ => s
  | .downgrade index =>
      match s.tasks[index]? with
      | some { phase := .stored id, .. } =>
          s.setPhase index (if s.isAlive id then .holding id else .done)
      | _ => s
  | .check index busy =>
      match s.tasks[index]? with
      | some { phase := .checking role id, .. } =>
          if busy ∨ !s.canRead id ∨ s.isAlive id then s.setPhase index .done
          else (s.slot role).2.setPhase index (.looked (s.slot role).1)
      | _ => s
  | .closeLine index =>
      match s.tasks[index]? with
      | some { phase := .closing id, .. } =>
          if s.canWrite id then (s.closeSlot id).setPhase index .done else s
      | some { phase := .draining (id :: slots), .. } =>
          if s.canWrite id then (s.closeSlot id).setPhase index (.draining slots) else s
      | some { phase := .draining [], .. } => s.setPhase index .done
      | _ => s
  | .release index =>
      match s.tasks[index]? with
      | some { phase := .holding _, .. } => s.setPhase index .done
      | _ => s
  | .cancel index =>
      match s.tasks[index]? with
      | some { phase := .draining _, .. } | some { phase := .stored _, .. } => s
      | _ => s.setPhase index .done
  | .die id =>
      { s with
        slots := s.slots.modify id fun slot =>
          { slot with line := slot.line.map fun line => { line with alive := false } } }
  | .dropSlot id => if s.isGone id then s.setLine id none else s

/-- A `close_all` under way comes to the slot yet. -/
def isDrained (s : State) (id : Nat) : Bool :=
  s.tasks.any fun task => id ∈ task.phase.drains

/-- No other slot of the role has a line. -/
def othersEmpty (s : State) (id : Nat) (role : LinkRole) : Bool :=
  (List.range s.slots.length).all fun other =>
    other = id ∨ (s.slots[other]?).all fun slot => slot.role ≠ role ∨ slot.line = none

end State

/-- A line is opened while no other slot of its role has one, by a call that no emptying of the
map has overtaken, or in a slot to which the `close_all` comes yet. -/
def Clear (s : State) : Action → Bool
  | .opened index true =>
      match s.tasks[index]? with
      | some { born, phase := .connecting id } =>
          (s.slots[id]?).all fun slot =>
            s.othersEmpty id slot.role && (born = s.drained || s.isDrained id)
      | _ => true
  | _ => true

/-- Opened and Closed take turns. -/
def Alternate : Bool → List LinkEvent → Prop
  | _, [] => True
  | expected, event :: events => event.opened = expected ∧ Alternate (!expected) events

/-- What the next event has to be. -/
def next (expected : Bool) (events : List LinkEvent) : Bool :=
  events.foldl (fun expected _ => !expected) expected

def State.eventsOf (s : State) (role : LinkRole) : List LinkEvent :=
  s.events.filter fun event => event.role = role

/-- A slot of the role has a line. -/
def Lit (slots : List Slot) (role : LinkRole) : Prop :=
  ∃ (id : Nat) (slot : Slot), slots[id]? = some slot ∧ slot.role = role ∧ slot.line.isSome = true

structure Kept (s : State) : Prop where
  mapped : ∀ role id, s.map role = some id → ∃ slot, s.slots[id]? = some slot ∧ slot.role = role
  held : ∀ (id : Nat) (slot : Slot) (line : Line), s.slots[id]? = some slot →
    slot.line = some line →
      s.map slot.role = some id ∧ line.era = s.drained ∨ s.isDrained id = true
  single : ∀ (id id' : Nat) (slot slot' : Slot), s.slots[id]? = some slot →
    s.slots[id']? = some slot' → slot.role = slot'.role → slot.line.isSome = true →
      slot'.line.isSome = true → id = id'
  log : ∀ role, Alternate true (s.eventsOf role) ∧
    (next true (s.eventsOf role) = false ↔ Lit s.slots role)
  born : ∀ task ∈ s.tasks, task.born ≤ s.drained
  target : ∀ (index : Nat) (task : Task) (id : Nat), s.tasks[index]? = some task →
    task.phase.target = some id → ∃ slot, s.slots[id]? = some slot ∧
      (task.born = s.drained → s.map slot.role = some id)
  connecting : ∀ (index : Nat) (task : Task) (id : Nat), s.tasks[index]? = some task →
    task.phase = .connecting id → ∀ slot, s.slots[id]? = some slot → slot.line = none
  alone : ∀ (index index' : Nat) (task task' : Task) (id : Nat), s.tasks[index]? = some task →
    s.tasks[index']? = some task' → task.phase.writes = some id →
      task'.phase.writes = some id → index = index'
  drops : ∀ used ∈ s.drops, used = false

theorem kept_start : Kept .start := by
  have hslots : ∀ (id : Nat) (slot : Slot), State.start.slots[id]? ≠ some slot := by
    intro id slot h
    simp [State.start] at h
  have htasks : ∀ (index : Nat) (task : Task), State.start.tasks[index]? ≠ some task := by
    intro index task h
    simp [State.start] at h
  constructor
  case mapped =>
    intro role id h
    cases h
  case held => exact fun id slot _ h => (hslots id slot h).elim
  case single => exact fun id _ slot _ h => (hslots id slot h).elim
  case log =>
    refine fun role => ⟨trivial, ⟨fun h => (by cases h), ?_⟩⟩
    rintro ⟨id, slot, h, -⟩
    exact (hslots id slot h).elim
  case born => exact fun _ h => (List.not_mem_nil h).elim
  case target => exact fun index task _ h => (htasks index task h).elim
  case connecting => exact fun index task _ h => (htasks index task h).elim
  case alone => exact fun index _ task _ _ h => (htasks index task h).elim
  case drops => exact fun _ h => (List.not_mem_nil h).elim

section Steps

variable {s : State}

theorem alternate_append {expected : Bool} {events : List LinkEvent} {event : LinkEvent}
    (h : Alternate expected events) (hnext : event.opened = next expected events) :
    Alternate expected (events ++ [event]) := by
  induction events generalizing expected with
  | nil => exact ⟨hnext, trivial⟩
  | cons first rest ih => exact ⟨h.1, ih h.2 hnext⟩

theorem next_append (expected : Bool) (events : List LinkEvent) (event : LinkEvent) :
    next expected (events ++ [event]) = !next expected events := by simp [next]

theorem eventsOf_emitLink (role other : LinkRole) (opened : Bool) :
    (s.emitLink role opened).eventsOf other =
      if role = other then s.eventsOf other ++ [{ role := role, opened := opened }]
      else s.eventsOf other := by
  simp only [State.emitLink, State.eventsOf, List.filter_append]
  split_ifs with hsame <;> simp [hsame]

/-- The log goes on with an event that the lines bear out. -/
theorem log_emitLink (hlog : ∀ role, Alternate true (s.eventsOf role)) {role : LinkRole}
    {opened : Bool} {slots : List Slot} (hnext : opened = next true (s.eventsOf role))
    (hlit : Lit slots role ↔ opened = true)
    (hothers : ∀ other, role ≠ other → (next true (s.eventsOf other) = false ↔ Lit slots other)) :
    ∀ other, Alternate true ((s.emitLink role opened).eventsOf other) ∧
      (next true ((s.emitLink role opened).eventsOf other) = false ↔ Lit slots other) := by
  intro other
  rw [eventsOf_emitLink]
  split_ifs with hsame
  · subst hsame
    refine ⟨alternate_append (hlog role) hnext, ?_⟩
    rw [next_append, hlit, ← hnext]
    simp
  · exact ⟨hlog other, hothers other hsame⟩

variable {place : Nat}

theorem setPhase_get {index : Nat} {phase : Phase} {task : Task}
    (h : (s.setPhase index phase).tasks[place]? = some task) :
    ∃ earlier, s.tasks[place]? = some earlier ∧ earlier.born = task.born ∧
      task.phase = if place = index then phase else earlier.phase := by
  simp only [State.setPhase, List.getElem?_modify, Option.map_eq_map, Option.map_eq_some_iff] at h
  obtain ⟨earlier, hearlier, rfl⟩ := h
  refine ⟨earlier, hearlier, ?_⟩
  by_cases hsame : index = place
  · simp [hsame]
  · simp [hsame, Ne.symm hsame]

variable {id : Nat}

theorem setLine_get {line : Option Line} {slot : Slot}
    (h : (s.setLine id line).slots[place]? = some slot) :
    ∃ earlier, s.slots[place]? = some earlier ∧ earlier.role = slot.role ∧
      slot.line = if place = id then line else earlier.line := by
  simp only [State.setLine, List.getElem?_modify, Option.map_eq_map, Option.map_eq_some_iff] at h
  obtain ⟨earlier, hearlier, rfl⟩ := h
  refine ⟨earlier, hearlier, ?_⟩
  by_cases hsame : id = place
  · simp [hsame]
  · simp [hsame, Ne.symm hsame]

theorem setLine_of_get {slot : Slot} (id : Nat) (line : Option Line)
    (h : s.slots[place]? = some slot) :
    (s.setLine id line).slots[place]? =
      some (if place = id then { slot with line := line } else slot) := by
  simp only [State.setLine, List.getElem?_modify, h, Option.map_eq_map, Option.map_some]
  by_cases hsame : id = place
  · simp [hsame]
  · simp [hsame, Ne.symm hsame]

theorem isDrained_iff :
    s.isDrained id = true ↔
      ∃ (index : Nat) (task : Task), s.tasks[index]? = some task ∧ id ∈ task.phase.drains := by
  rw [State.isDrained, List.any_eq_true]
  constructor
  · rintro ⟨task, htask, h⟩
    obtain ⟨index, hindex⟩ := List.mem_iff_getElem?.mp htask
    exact ⟨index, task, hindex, of_decide_eq_true h⟩
  · rintro ⟨index, task, hindex, h⟩
    exact ⟨task, List.mem_of_getElem? hindex, decide_eq_true h⟩

section

variable (hs : Kept s)

include hs

/-- A call goes on: it opens a line where it did before, or as the only one, and leaves no line
behind that it has to close. -/
theorem Kept.setPhase {index : Nat} {task : Task} {phase : Phase}
    (htask : s.tasks[index]? = some task)
    (htarget : ∀ id, phase.target = some id → task.phase.target = some id ∨ ∃ slot, s.slots[id]? =
      some slot ∧ s.map slot.role = some id)
    (hwrites : ∀ id, phase.writes = some id → task.phase.writes = some id ∨ s.canRead id = true)
    (hconnecting : ∀ id, phase = .connecting id → ∀ slot, s.slots[id]? = some slot → slot.line =
      none)
    (hdrains : ∀ id ∈ task.phase.drains, id ∈ phase.drains ∨ ∀ slot, s.slots[id]? = some slot →
      slot.line = none) : Kept (s.setPhase index phase) := by
  have hfound : ∀ {earlier : Task} {place : Nat}, s.tasks[place]? = some earlier → place = index →
      earlier = task := by
    rintro earlier place hearlier rfl
    exact Option.some.inj (hearlier.symm.trans htask)
  have hdone : ∀ id, s.isDrained id = true → (s.setPhase index phase).isDrained id = true ∨
      ∀ slot, s.slots[id]? = some slot → slot.line = none := by
    intro id hdrained
    obtain ⟨place, earlier, hearlier, hin⟩ := isDrained_iff.mp hdrained
    by_cases hsame : place = index
    · rw [hfound hearlier hsame] at hin
      refine (hdrains id hin).imp_left fun hin => isDrained_iff.mpr ?_
      refine ⟨index, { task with phase := phase }, ?_, hin⟩
      simp [State.setPhase, htask]
    · left
      refine isDrained_iff.mpr ⟨place, earlier, ?_, hin⟩
      simp [State.setPhase, hearlier, Ne.symm hsame]
  refine ⟨hs.mapped, fun id slot line hslot hline => ?_, hs.single, hs.log, fun other hmem => ?_,
    fun place other id hother hid => ?_, fun place other id hother hphase => ?_,
    fun place place' other other' id hother hother' hid hid' => ?_, hs.drops⟩
  · rcases hs.held id slot line hslot hline with hmapped | hdrained
    · exact .inl hmapped
    · refine .inr ((hdone id hdrained).resolve_right fun hnone => ?_)
      rw [hnone slot hslot] at hline
      cases hline
  · obtain ⟨place, hplace⟩ := List.mem_iff_getElem?.mp hmem
    obtain ⟨earlier, hearlier, hborn, -⟩ := setPhase_get hplace
    rw [← hborn]
    exact hs.born earlier (List.mem_of_getElem? hearlier)
  · obtain ⟨earlier, hearlier, hborn, hlater⟩ := setPhase_get hother
    rw [hlater] at hid
    rw [← hborn]
    split_ifs at hid with hsame
    · rcases htarget id hid with hbefore | ⟨slot, hslot, hmap⟩
      · rw [hfound hearlier hsame]
        exact hs.target index task id htask hbefore
      · exact ⟨slot, hslot, fun _ => hmap⟩
    · exact hs.target place earlier id hearlier hid
  · obtain ⟨earlier, hearlier, -, hlater⟩ := setPhase_get hother
    rw [hlater] at hphase
    split_ifs at hphase with hsame
    · exact hconnecting id hphase
    · exact hs.connecting place earlier id hearlier hphase
  · obtain ⟨earlier, hearlier, -, hlater⟩ := setPhase_get hother
    obtain ⟨earlier', hearlier', -, hlater'⟩ := setPhase_get hother'
    rw [hlater] at hid
    rw [hlater'] at hid'
    have hfree : ∀ {place : Nat} {other : Task}, s.tasks[place]? = some other →
        other.phase.writes = some id → s.canRead id = true → False := by
      intro place other hother hwrites hread
      exact of_decide_eq_true (List.all_eq_true.mp hread other (List.mem_of_getElem? hother)) hwrites
    split_ifs at hid hid' with hplace hplace' hplace'
    · rw [hplace, hplace']
    · rcases hwrites id hid with hbefore | hread
      · rw [hplace]
        exact hs.alone index place' task earlier' id htask hearlier' hbefore hid'
      · exact (hfree hearlier' hid' hread).elim
    · rcases hwrites id hid' with hbefore | hread
      · rw [hplace']
        exact hs.alone place index earlier task id hearlier htask hid hbefore
      · exact (hfree hearlier hid hread).elim
    · exact hs.alone place place' earlier earlier' id hearlier hearlier' hid hid'

/-- The slot of a role is in the map, and is new when it was not. -/
theorem Kept.slot (role : LinkRole) :
    Kept (s.slot role).2 ∧ (s.slot role).2.tasks = s.tasks ∧
      ∃ slot, (s.slot role).2.slots[(s.slot role).1]? = some slot ∧
        (s.slot role).2.map slot.role = some (s.slot role).1 := by
  unfold State.slot
  split
  · rename_i id hmap
    obtain ⟨slot, hslot, hrole⟩ := hs.mapped role id hmap
    exact ⟨hs, rfl, slot, hslot, by rw [hrole, hmap]⟩
  · rename_i hmap
    have hold : ∀ (id : Nat) (slot : Slot), s.slots[id]? = some slot →
        (s.slots ++ [⟨role, none⟩])[id]? = some slot := by
      intro id slot h
      rw [List.getElem?_append_left (List.getElem?_eq_some_iff.mp h).1]
      exact h
    have hcases : ∀ (id : Nat) (slot : Slot), (s.slots ++ [⟨role, none⟩])[id]? = some slot →
        s.slots[id]? = some slot ∨ slot = ⟨role, none⟩ := by
      intro id slot h
      rw [List.getElem?_append] at h
      split_ifs at h
      · exact .inl h
      · exact .inr (List.mem_singleton.mp (List.mem_of_getElem? h))
    have hlit : ∀ (id : Nat) (slot : Slot), (s.slots ++ [⟨role, none⟩])[id]? = some slot →
        slot.line.isSome = true → s.slots[id]? = some slot := by
      intro id slot h hline
      refine (hcases id slot h).resolve_right ?_
      rintro rfl
      cases hline
    have hmaps : ∀ other id, s.map other = some id →
        update s.map role (some s.slots.length) other = some id := by
      intro other id h
      rw [update_of_ne]
      · exact h
      · rintro rfl
        rw [hmap] at h
        cases h
    refine ⟨⟨fun other id h => ?_, fun id slot line hslot hline => ?_,
      fun id id' slot slot' hslot hslot' hrole hline hline' => ?_, fun other => ?_, hs.born,
      fun index task id htask htarget => ?_, fun index task id htask hphase slot hslot => ?_, hs.alone,
      hs.drops⟩, rfl, ⟨role, none⟩, by simp, update_self ..⟩
    · simp only [update_apply] at h
      split_ifs at h with hsame
      · cases h
        exact ⟨⟨role, none⟩, by simp, hsame.symm⟩
      · obtain ⟨slot, hslot, hrole⟩ := hs.mapped other id h
        exact ⟨slot, hold id slot hslot, hrole⟩
    · have hbefore := hlit id slot hslot (by rw [hline]; rfl)
      exact (hs.held id slot line hbefore hline).imp_left (And.imp_left (hmaps _ id))
    · exact hs.single id id' slot slot' (hlit id slot hslot hline) (hlit id' slot' hslot' hline') hrole
        hline hline'
    · obtain ⟨halternate, hnext⟩ := hs.log other
      refine ⟨halternate, hnext.trans ⟨?_, ?_⟩⟩
      · rintro ⟨id, slot, hslot, h⟩
        exact ⟨id, slot, hold id slot hslot, h⟩
      · rintro ⟨id, slot, hslot, hrole, hline⟩
        exact ⟨id, slot, hlit id slot hslot hline, hrole, hline⟩
    · obtain ⟨slot, hslot, hmap'⟩ := hs.target index task id htask htarget
      exact ⟨slot, hold id slot hslot, fun hborn => hmaps _ id (hmap' hborn)⟩
    · rcases hcases id slot hslot with hbefore | rfl
      · exact hs.connecting index task id htask hphase slot hbefore
      · rfl

/-- A call starts with a slot that is in the map, if it opens a line. -/
theorem Kept.spawn {phase : Phase}
    (htarget : ∀ id, phase.target = some id → ∃ slot, s.slots[id]? = some slot ∧ s.map slot.role =
      some id) (hwrites : phase.writes = none) : Kept (s.spawn phase) := by
  have hcases : ∀ (index : Nat) (task : Task), (s.spawn phase).tasks[index]? = some task →
      s.tasks[index]? = some task ∨ task = ⟨s.drained, phase⟩ := by
    intro index task h
    simp only [State.spawn, List.getElem?_append] at h
    split_ifs at h
    · exact .inl h
    · exact .inr (List.mem_singleton.mp (List.mem_of_getElem? h))
  have hbefore : ∀ (index : Nat) (task : Task) (id : Nat),
      (s.spawn phase).tasks[index]? = some task → task.phase.writes = some id →
        s.tasks[index]? = some task := by
    intro index task id h hid
    refine (hcases index task h).resolve_right ?_
    rintro rfl
    rw [hwrites] at hid
    cases hid
  refine ⟨hs.mapped, fun id slot line hslot hline => ?_, hs.single, hs.log, fun task hmem => ?_,
    fun index task id htask hid => ?_, fun index task id htask hphase => ?_,
    fun index index' task task' id htask htask' hid hid' => ?_, hs.drops⟩
  · refine (hs.held id slot line hslot hline).imp_right fun hdrained => ?_
    obtain ⟨index, task, htask, hin⟩ := isDrained_iff.mp hdrained
    refine isDrained_iff.mpr ⟨index, task, ?_, hin⟩
    rw [State.spawn, List.getElem?_append_left (List.getElem?_eq_some_iff.mp htask).1]
    exact htask
  · rcases List.mem_append.mp hmem with hold | hnew
    · exact hs.born task hold
    · rw [List.mem_singleton.mp hnew]
      exact Nat.le_refl _
  · rcases hcases index task htask with hold | rfl
    · exact hs.target index task id hold hid
    · obtain ⟨slot, hslot, hmap⟩ := htarget id hid
      exact ⟨slot, hslot, fun _ => hmap⟩
  · exact hs.connecting index task id
      (hbefore index task id htask (by rw [hphase]; rfl)) hphase
  · exact hs.alone index index' task task' id (hbefore index task id htask hid)
      (hbefore index' task' id htask' hid') hid hid'

/-- The map is emptied, and a call closes what was in it. -/
theorem Kept.closeAll : Kept (s.step .closeAll) := by
  have hcases : ∀ (index : Nat) (task : Task), (s.step .closeAll).tasks[index]? = some task →
      s.tasks[index]? = some task ∨
        task = ⟨s.drained + 1, .draining (LinkRole.ALL.filterMap s.map)⟩ := by
    intro index task h
    simp only [State.step, List.getElem?_append] at h
    split_ifs at h
    · exact .inl h
    · exact .inr (List.mem_singleton.mp (List.mem_of_getElem? h))
  have hold : ∀ (index : Nat) (task : Task), s.tasks[index]? = some task →
      (s.step .closeAll).tasks[index]? = some task := by
    intro index task h
    simp only [State.step, List.getElem?_append_left (List.getElem?_eq_some_iff.mp h).1]
    exact h
  refine ⟨fun role id h => (by cases h), fun id slot line hslot hline => ?_, hs.single, hs.log,
    fun task hmem => ?_, fun index task id htask hid => ?_, fun index task id htask hphase => ?_,
    fun index index' task task' id htask htask' hid hid' => ?_, hs.drops⟩
  · right
    rcases hs.held id slot line hslot hline with ⟨hmap, -⟩ | hdrained
    · refine isDrained_iff.mpr ⟨s.tasks.length,
        ⟨s.drained + 1, .draining (LinkRole.ALL.filterMap s.map)⟩, by simp [State.step], ?_⟩
      refine List.mem_filterMap.mpr ⟨slot.role, ?_, hmap⟩
      cases slot.role <;> simp [LinkRole.ALL]
    · obtain ⟨index, task, htask, hin⟩ := isDrained_iff.mp hdrained
      exact isDrained_iff.mpr ⟨index, task, hold index task htask, hin⟩
  · rcases List.mem_append.mp hmem with hmem | hnew
    · exact Nat.le_succ_of_le (hs.born task hmem)
    · rw [List.mem_singleton.mp hnew]
      exact Nat.le_refl _
  · rcases hcases index task htask with hbefore | rfl
    · obtain ⟨slot, hslot, -⟩ := hs.target index task id hbefore hid
      refine ⟨slot, hslot, fun hborn => ?_⟩
      have hle := hs.born task (List.mem_of_getElem? hbefore)
      have hborn : task.born = s.drained + 1 := hborn
      omega
    · cases hid
  · rcases hcases index task htask with hbefore | rfl
    · exact hs.connecting index task id hbefore hphase
    · cases hphase
  · rcases hcases index task htask with hbefore | rfl
    · rcases hcases index' task' htask' with hbefore' | rfl
      · exact hs.alone index index' task task' id hbefore hbefore' hid hid'
      · cases hid'
    · cases hid

/-- What the calls still have to do is about other slots, or there is no line left in this one. -/
theorem Kept.closeSlot {id : Nat} (hfree : s.canWrite id = true) :
    Kept (s.closeSlot id) ∧ (s.closeSlot id).tasks = s.tasks ∧
      ∀ slot, (s.closeSlot id).slots[id]? = some slot → slot.line = none := by
  unfold State.closeSlot
  split
  · rename_i role line hslot
    have hunused : s.inUse id = false := by
      have hboth := Bool.and_eq_true_iff.mp hfree
      simpa using hboth.2
    have hget : ∀ (place : Nat) (slot : Slot), (s.setLine id none).slots[place]? = some slot →
        slot.line.isSome = true → s.slots[place]? = some slot ∧ place ≠ id := by
      intro place slot h hline
      obtain ⟨earlier, hearlier, hrole, hlater⟩ := setLine_get h
      rw [hlater] at hline
      split_ifs at hline with hsame
      · cases hline
      · rw [if_neg hsame] at hlater
        obtain ⟨role', line'⟩ := earlier
        obtain ⟨role'', line''⟩ := slot
        cases hrole
        cases hlater
        exact ⟨hearlier, hsame⟩
    have hkeep : ∀ (place : Nat) (slot : Slot), s.slots[place]? = some slot → place ≠ id →
        (s.setLine id none).slots[place]? = some slot := by
      intro place slot h hne
      rw [setLine_of_get id none h, if_neg hne]
    have hdark : ¬Lit (s.setLine id none).slots role := by
      rintro ⟨place, slot, h, hrole, hline⟩
      obtain ⟨hbefore, hne⟩ := hget place slot h hline
      exact hne (hs.single place id slot _ hbefore hslot hrole hline rfl)
    have hnone : ∀ slot, (s.setLine id none).slots[id]? = some slot → slot.line = none := by
      intro slot h
      obtain ⟨earlier, -, -, hlater⟩ := setLine_get h
      rw [hlater, if_pos rfl]
    refine ⟨⟨fun other place hmap => ?_, fun place slot line' h hline => ?_,
      fun place place' slot slot' h h' hrole hline hline' => ?_, ?_, hs.born,
      fun index task place htask hplace => ?_, fun index task place htask hphase slot h => ?_, hs.alone,
      fun used hused => ?_⟩, rfl, hnone⟩
    · obtain ⟨slot, h, hrole⟩ := hs.mapped other place hmap
      refine ⟨_, setLine_of_get id none h, ?_⟩
      split_ifs <;> exact hrole
    · exact hs.held place slot line' (hget place slot h (by rw [hline]; rfl)).1 hline
    · exact hs.single place place' slot slot' (hget place slot h hline).1
        (hget place' slot' h' hline').1 hrole hline hline'
    · refine log_emitLink (fun other => (hs.log other).1) ?_ ?_ fun other hne => ?_
      · exact ((hs.log role).2.mpr ⟨id, _, hslot, rfl, rfl⟩).symm
      · exact ⟨fun h => (hdark h).elim, fun h => by cases h⟩
      · refine (hs.log other).2.trans ⟨?_, ?_⟩
        · rintro ⟨place, slot, h, hrole, hline⟩
          refine ⟨place, slot, hkeep place slot h ?_, hrole, hline⟩
          rintro rfl
          rw [hslot] at h
          cases h
          exact hne hrole
        · rintro ⟨place, slot, h, hrole, hline⟩
          exact ⟨place, slot, (hget place slot h hline).1, hrole, hline⟩
    · obtain ⟨slot, h, hmap⟩ := hs.target index task place htask hplace
      refine ⟨_, setLine_of_get id none h, fun hborn => ?_⟩
      split_ifs <;> exact hmap hborn
    · obtain ⟨earlier, hearlier, -, hlater⟩ := setLine_get h
      rw [hlater]
      split_ifs
      · rfl
      · exact hs.connecting index task place htask hphase earlier hearlier
    · rcases List.mem_append.mp hused with hold | hnew
      · exact hs.drops used hold
      · rw [List.mem_singleton.mp hnew]
        exact hunused
  · rename_i hnone
    refine ⟨hs, rfl, fun slot hslot => ?_⟩
    cases hline : slot.line with
    | none => rfl
    | some line =>
      obtain ⟨role, _⟩ := slot
      cases hline
      exact (hnone role line hslot).elim

theorem Kept.openLine {born : Nat} {slot : Slot} (hslot : s.slots[id]? = some slot)
    (hempty : ∀ (place : Nat) (other : Slot), s.slots[place]? = some other → other.role = slot.role
      → other.line = none)
    (hheld : s.map slot.role = some id ∧ born = s.drained ∨ s.isDrained id = true)
    (hidle : ∀ (index : Nat) (task : Task), s.tasks[index]? = some task → task.phase ≠ .connecting
      id) :
    Kept ((s.setLine id (some { alive := true, era := born })).emitLink slot.role true) := by
  have hget : ∀ (place : Nat) (other : Slot),
      (s.setLine id (some { alive := true, era := born })).slots[place]? = some other →
        place = id ∧ other.role = slot.role ∧ other.line = some { alive := true, era := born } ∨
          place ≠ id ∧ s.slots[place]? = some other := by
    intro place other h
    obtain ⟨earlier, hearlier, hrole, hlater⟩ := setLine_get h
    split_ifs at hlater with hsame
    · subst hsame
      rw [hslot] at hearlier
      cases hearlier
      exact .inl ⟨rfl, hrole.symm, hlater⟩
    · right
      obtain ⟨role', line'⟩ := earlier
      obtain ⟨role'', line''⟩ := other
      cases hrole
      cases hlater
      exact ⟨hsame, hearlier⟩
  have hempty' : ∀ (place : Nat) (other : Slot), s.slots[place]? = some other →
      other.line.isSome = true → other.role ≠ slot.role := by
    intro place other h hline hrole
    rw [hempty place other h hrole] at hline
    cases hline
  have hdark : ¬Lit s.slots slot.role := by
    rintro ⟨place, other, h, hrole, hline⟩
    exact hempty' place other h hline hrole
  refine ⟨fun role place hmap => ?_, fun place other line h hline => ?_,
    fun place place' other other' h h' hrole hline hline' => ?_, ?_, hs.born,
    fun index task place htask hplace => ?_, fun index task place htask hphase other h => ?_, hs.alone,
    hs.drops⟩
  · obtain ⟨other, h, hrole⟩ := hs.mapped role place hmap
    refine ⟨_, setLine_of_get id _ h, ?_⟩
    split_ifs <;> exact hrole
  · rcases hget place other h with ⟨rfl, hrole, hnew⟩ | ⟨-, hbefore⟩
    · rw [hline] at hnew
      cases hnew
      rw [hrole]
      exact hheld
    · exact hs.held place other line hbefore hline
  · rcases hget place other h with ⟨rfl, hrole₁, -⟩ | ⟨-, hbefore⟩
    · rcases hget place' other' h' with ⟨rfl, -, -⟩ | ⟨-, hbefore'⟩
      · rfl
      · exact (hempty' place' other' hbefore' hline' (hrole.symm.trans hrole₁)).elim
    · rcases hget place' other' h' with ⟨rfl, hrole₂, -⟩ | ⟨-, hbefore'⟩
      · exact (hempty' place other hbefore hline (hrole.trans hrole₂)).elim
      · exact hs.single place place' other other' hbefore hbefore' hrole hline hline'
  · refine log_emitLink (fun other => (hs.log other).1) ?_ ?_ fun other hne => ?_
    · cases hnext : next true (s.eventsOf slot.role) with
      | true => rfl
      | false => exact (hdark ((hs.log slot.role).2.mp hnext)).elim
    · refine ⟨fun _ => rfl, fun _ => ⟨id, _, setLine_of_get id _ hslot, ?_⟩⟩
      rw [if_pos rfl]
      exact ⟨rfl, rfl⟩
    · refine (hs.log other).2.trans ⟨?_, ?_⟩
      · rintro ⟨place, other', h, hrole, hline⟩
        have hkeep := setLine_of_get id (some { alive := true, era := born }) h
        rw [if_neg] at hkeep
        · exact ⟨place, other', hkeep, hrole, hline⟩
        · rintro rfl
          rw [hslot] at h
          cases h
          exact hne hrole
      · rintro ⟨place, other', h, hrole, hline⟩
        rcases hget place other' h with ⟨rfl, hrole', -⟩ | ⟨-, hbefore⟩
        · exact (hne (hrole'.symm.trans hrole)).elim
        · exact ⟨place, other', hbefore, hrole, hline⟩
  · obtain ⟨other, h, hmap⟩ := hs.target index task place htask hplace
    refine ⟨_, setLine_of_get id _ h, fun hborn => ?_⟩
    split_ifs <;> exact hmap hborn
  · rcases hget place other h with ⟨rfl, -, -⟩ | ⟨-, hbefore⟩
    · exact (hidle index task htask hphase).elim
    · exact hs.connecting index task place htask hphase other hbefore

omit hs in
theorem othersEmpty_get {role : LinkRole} (h : s.othersEmpty id role = true) :
    ∀ (place : Nat) (other : Slot), s.slots[place]? = some other → place ≠ id →
      other.role = role → other.line = none := by
  intro place other hother hne hrole
  have hlt := (List.getElem?_eq_some_iff.mp hother).1
  have hall := of_decide_eq_true (List.all_eq_true.mp h place (List.mem_range.mpr hlt))
  have hslot := hall.resolve_left hne
  rw [hother, Option.all_some] at hslot
  exact (of_decide_eq_true hslot).resolve_left fun hne => hne hrole

theorem Kept.opened {index : Nat} {ok : Bool} (hclear : Clear s (.opened index ok) = true) :
    Kept (s.step (.opened index ok)) := by
  simp only [State.step]
  split
  · rename_i born id htask
    split
    · rename_i slot hslot
      rw [Clear, htask] at hclear
      simp only [hslot, Option.all_some, Bool.and_eq_true, Bool.or_eq_true] at hclear
      obtain ⟨hothers, hera⟩ := hclear
      have hnone := hs.connecting index _ id htask rfl slot hslot
      obtain ⟨slot', hslot', hmap⟩ := hs.target index _ id htask rfl
      rw [hslot] at hslot'
      cases hslot'
      have hstored : Kept (s.setPhase index (.stored id)) :=
        hs.setPhase htask (fun _ h => by cases h) (fun _ h => .inl h) (fun _ h => by cases h)
          fun _ h => (List.not_mem_nil h).elim
      refine hstored.openLine hslot (fun place other hother hrole => ?_) ?_ fun place task h hconn => ?_
      · by_cases hsame : place = id
        · subst hsame
          have hother : s.slots[place]? = some other := hother
          rw [hslot] at hother
          cases hother
          exact hnone
        · exact othersEmpty_get hothers place other hother hsame hrole
      · rcases hera with hborn | hdrained
        · have hborn : born = s.drained := by simpa using hborn
          exact .inl ⟨hmap hborn, hborn⟩
        · obtain ⟨place, task, hplace, hin⟩ := isDrained_iff.mp hdrained
          refine .inr (isDrained_iff.mpr ⟨place, task, ?_, hin⟩)
          have hne : index ≠ place := by
            rintro rfl
            rw [htask] at hplace
            cases hplace
            cases hin
          simp [State.setPhase, hplace, hne]
      · obtain ⟨earlier, hearlier, -, hlater⟩ := setPhase_get h
        rw [hconn] at hlater
        split_ifs at hlater with hsame
        exact hsame (hs.alone place index earlier _ id hearlier htask (by rw [← hlater]; rfl) rfl)
    · exact hs.setPhase htask (fun _ h => by cases h) (fun _ h => by cases h) (fun _ h => by cases h)
        fun _ h => (List.not_mem_nil h).elim
  · exact hs

/-- A line that closes from outside is still in its slot. -/
theorem Kept.die (id : Nat) : Kept (s.step (.die id)) := by
  have hget : ∀ (place : Nat) (slot : Slot), (s.step (.die id)).slots[place]? = some slot →
      ∃ earlier, s.slots[place]? = some earlier ∧ earlier.role = slot.role ∧
        earlier.line.isSome = slot.line.isSome ∧
          (∀ line, slot.line = some line → ∃ line', earlier.line = some line' ∧
            line'.era = line.era) ∧ (earlier.line = none → slot.line = none) := by
    intro place slot h
    simp only [State.step, List.getElem?_modify, Option.map_eq_map, Option.map_eq_some_iff] at h
    obtain ⟨⟨role, line⟩, hearlier, rfl⟩ := h
    refine ⟨_, hearlier, ?_⟩
    split_ifs
    · cases line with
      | none => exact ⟨rfl, rfl, fun _ h => (by cases h), fun _ => rfl⟩
      | some line =>
        exact ⟨rfl, rfl, fun line' h => ⟨line, rfl, by cases h; rfl⟩, fun h => (by cases h)⟩
    · exact ⟨rfl, rfl, fun line' h => ⟨line', h, rfl⟩, fun h => h⟩
  have hkeep : ∀ (place : Nat) (slot : Slot), s.slots[place]? = some slot →
      ∃ later, (s.step (.die id)).slots[place]? = some later ∧ later.role = slot.role ∧
        later.line.isSome = slot.line.isSome := by
    intro place slot h
    refine ⟨_, by simp only [State.step, List.getElem?_modify, h]; rfl, ?_⟩
    split_ifs
    · exact ⟨rfl, Option.isSome_map ..⟩
    · exact ⟨rfl, rfl⟩
  refine ⟨fun role place hmap => ?_, fun place slot line h hline => ?_,
    fun place place' slot slot' h h' hrole hline hline' => ?_, fun role => ?_, hs.born,
    fun index task place htask hplace => ?_, fun index task place htask hphase slot h => ?_, hs.alone,
    hs.drops⟩
  · obtain ⟨slot, h, hrole⟩ := hs.mapped role place hmap
    obtain ⟨later, hlater, hrole', -⟩ := hkeep place slot h
    exact ⟨later, hlater, hrole'.trans hrole⟩
  · obtain ⟨earlier, hearlier, hrole, -, hera, -⟩ := hget place slot h
    obtain ⟨line', hline', hsame⟩ := hera line hline
    rw [← hrole, ← hsame]
    exact hs.held place earlier line' hearlier hline'
  · obtain ⟨earlier, hearlier, hrole₁, hline₁, -⟩ := hget place slot h
    obtain ⟨earlier', hearlier', hrole₂, hline₂, -⟩ := hget place' slot' h'
    exact hs.single place place' earlier earlier' hearlier hearlier'
      (by rw [hrole₁, hrole₂, hrole]) (by rw [hline₁, hline]) (by rw [hline₂, hline'])
  · obtain ⟨halternate, hnext⟩ := hs.log role
    refine ⟨halternate, hnext.trans ⟨?_, ?_⟩⟩
    · rintro ⟨place, slot, h, hrole, hline⟩
      obtain ⟨later, hlater, hrole', hline'⟩ := hkeep place slot h
      exact ⟨place, later, hlater, hrole'.trans hrole, hline'.trans hline⟩
    · rintro ⟨place, slot, h, hrole, hline⟩
      obtain ⟨earlier, hearlier, hrole', hline', -⟩ := hget place slot h
      exact ⟨place, earlier, hearlier, hrole'.trans hrole, hline'.trans hline⟩
  · obtain ⟨slot, h, hmap⟩ := hs.target index task place htask hplace
    obtain ⟨later, hlater, hrole, -⟩ := hkeep place slot h
    exact ⟨later, hlater, fun hborn => by rw [hrole]; exact hmap hborn⟩
  · obtain ⟨earlier, hearlier, -, -, -, hnone⟩ := hget place slot h
    exact hnone (hs.connecting index task place htask hphase earlier hearlier)

theorem Kept.dropSlot (id : Nat) : Kept (s.step (.dropSlot id)) := by
  simp only [State.step]
  split_ifs with hgone
  · obtain ⟨hmap, htasks⟩ := Bool.and_eq_true_iff.mp hgone
    have hdark : ∀ slot, s.slots[id]? = some slot → slot.line = none := by
      intro slot hslot
      cases hline : slot.line with
      | none => rfl
      | some line =>
        rcases hs.held id slot line hslot hline with ⟨hin, -⟩ | hdrained
        · have hrole : slot.role ∈ LinkRole.ALL := by
            cases slot.role <;> simp [LinkRole.ALL]
          exact (of_decide_eq_true (List.all_eq_true.mp hmap slot.role hrole) hin).elim
        · obtain ⟨index, task, htask, hin⟩ := isDrained_iff.mp hdrained
          have hnot := of_decide_eq_true
            (List.all_eq_true.mp htasks task (List.mem_of_getElem? htask))
          refine (hnot ?_).elim
          cases hphase : task.phase <;> simp_all [Phase.drains, Phase.slots]
    have hsame : s.setLine id none = s := by
      have hslots : s.slots.modify id (fun slot => { slot with line := none }) = s.slots := by
        apply List.ext_getElem?
        intro place
        rw [List.getElem?_modify]
        cases hplace : s.slots[place]? with
        | none => rfl
        | some slot =>
          split_ifs with hsame
          · subst hsame
            obtain ⟨role, line⟩ := slot
            have hnone := hdark _ hplace
            cases hnone
            rfl
          · rfl
      rw [State.setLine, hslots]
    rw [hsame]
    exact hs
  · exact hs

/-- A call goes on without opening a line or closing one. -/
theorem Kept.move {index : Nat} {task : Task} {phase : Phase} (htask : s.tasks[index]? = some task)
    (htarget : phase.target = none ∨ phase.target = task.phase.target)
    (hwrites : phase.writes = none) (hdrains : task.phase.drains = []) :
    Kept (s.setPhase index phase) := by
  refine hs.setPhase htask (fun id hid => ?_) (fun id hid => ?_) (fun id hconn => ?_)
    fun id hid => ?_
  · rcases htarget with hnone | hsame
    · rw [hnone] at hid
      cases hid
    · exact .inl (hsame ▸ hid)
  · rw [hwrites] at hid
    cases hid
  · rw [hconn] at hwrites
    cases hwrites
  · rw [hdrains] at hid
    cases hid

theorem Kept.lockWrite (index : Nat) : Kept (s.step (.lockWrite index)) := by
  simp only [State.step]
  split
  · rename_i born id htask
    split_ifs with hfree halive
    · exact hs.setPhase htask (fun _ h => by cases h)
        (fun _ h => by cases h; exact .inr (Bool.and_eq_true_iff.mp hfree).1) (fun _ h => by cases h)
        fun _ h => (List.not_mem_nil h).elim
    · obtain ⟨hkept, htasks, hnone⟩ := hs.closeSlot hfree
      refine hkept.setPhase
        (show (s.closeSlot id).tasks[index]? = some ⟨born, .missing id⟩ by rw [htasks, htask])
        (fun _ h => .inl h) (fun _ h => ?_) (fun _ h slot hslot => ?_)
        fun _ h => (List.not_mem_nil h).elim
      · cases h
        right
        rw [State.canRead, htasks]
        exact (Bool.and_eq_true_iff.mp hfree).1
      · cases h
        exact hnone slot hslot
    · exact hs
  · exact hs

theorem Kept.closeLine (index : Nat) : Kept (s.step (.closeLine index)) := by
  simp only [State.step]
  split
  · rename_i born id htask
    split_ifs with hfree
    · obtain ⟨hkept, htasks, -⟩ := hs.closeSlot hfree
      exact hkept.move
        (show (s.closeSlot id).tasks[index]? = some ⟨born, .closing id⟩ by rw [htasks, htask])
        (.inl rfl) rfl rfl
    · exact hs
  · rename_i born id slots htask
    split_ifs with hfree
    · obtain ⟨hkept, htasks, hnone⟩ := hs.closeSlot hfree
      refine hkept.setPhase
        (show (s.closeSlot id).tasks[index]? = some ⟨born, .draining (id :: slots)⟩ by
          rw [htasks, htask])
        (fun _ h => by cases h) (fun _ h => by cases h) (fun _ h => by cases h) fun other hother => ?_
      rcases List.mem_cons.mp hother with rfl | hrest
      · exact .inr hnone
      · exact .inl hrest
    · exact hs
  · rename_i born htask
    exact hs.move htask (.inl rfl) rfl rfl
  · exact hs

theorem Kept.check (index : Nat) (busy : Bool) : Kept (s.step (.check index busy)) := by
  simp only [State.step]
  split
  · rename_i born role id htask
    split_ifs
    · exact hs.move htask (.inl rfl) rfl rfl
    · obtain ⟨hkept, htasks, hslot⟩ := hs.slot role
      refine hkept.setPhase
        (show (s.slot role).2.tasks[index]? = some ⟨born, .checking role id⟩ by rw [htasks, htask])
        (fun _ h => ?_)
        (fun _ h => by cases h) (fun _ h => by cases h) fun _ h => (List.not_mem_nil h).elim
      cases h
      exact .inr hslot
  · exact hs

theorem Kept.step {action : Action} (hclear : Clear s action = true) : Kept (s.step action) := by
  cases action with
  | acquire role =>
    obtain ⟨hkept, -, hslot⟩ := hs.slot role
    exact hkept.spawn (fun _ h => by cases h; exact hslot) rfl
  | ensureOpen role => exact (hs.slot role).1.spawn (fun _ h => by cases h) rfl
  | reuse role => exact (hs.slot role).1.spawn (fun _ h => by cases h) rfl
  | close role => exact (hs.slot role).1.spawn (fun _ h => by cases h) rfl
  | closeAll => exact hs.closeAll
  | read index =>
    simp only [State.step]
    split
    · rename_i born id htask
      split_ifs
      · exact hs.move htask (.inl rfl) rfl rfl
      · exact hs.move htask (.inr rfl) rfl rfl
      · exact hs
    · rename_i born id htask
      split_ifs
      · exact hs.move htask (.inl rfl) rfl rfl
      · exact hs.move htask (.inl rfl) rfl rfl
      · exact hs
    · exact hs
  | lockOpening index =>
    simp only [State.step]
    split
    · rename_i born id htask
      split_ifs
      · exact hs.move htask (.inr rfl) rfl rfl
      · exact hs
    · exact hs
  | readAgain index =>
    simp only [State.step]
    split
    · rename_i born id htask
      split_ifs
      · exact hs.move htask (.inl rfl) rfl rfl
      · exact hs.move htask (.inr rfl) rfl rfl
      · exact hs
    · exact hs
  | lockWrite index => exact hs.lockWrite index
  | opened index ok => exact hs.opened hclear
  | downgrade index =>
    simp only [State.step]
    split
    · rename_i born id htask
      split_ifs <;> exact hs.move htask (.inl rfl) rfl rfl
    · exact hs
  | check index busy => exact hs.check index busy
  | closeLine index => exact hs.closeLine index
  | release index =>
    simp only [State.step]
    split
    · rename_i born id htask
      exact hs.move htask (.inl rfl) rfl rfl
    · exact hs
  | cancel index =>
    simp only [State.step]
    split
    · exact hs
    · exact hs
    · rename_i hdraining hstored
      cases htask : s.tasks[index]? with
      | none =>
        have hsame : s.setPhase index .done = s := by
          rw [State.setPhase, List.modify_eq_self (List.getElem?_eq_none_iff.mp htask)]
        rw [hsame]
        exact hs
      | some task =>
        obtain ⟨born, phase⟩ := task
        refine hs.move htask (.inl rfl) rfl ?_
        cases phase with
        | draining slots => exact (hdraining born slots htask).elim
        | looked id | waiting id | opening id | missing id | connecting id | stored id => rfl
        | holding id | reusing id | checking role id | closing id | done => rfl
  | die id => exact hs.die id
  | dropSlot id => exact hs.dropSlot id

end

end Steps

/-- The lines of a role that are open. -/
def State.openLines (s : State) (role : LinkRole) : List Slot :=
  s.slots.filter fun slot => slot.role = role ∧ slot.line.any Line.alive

theorem length_filter_le_one {slots : List Slot} {p : Slot → Bool}
    (h : ∀ (id id' : Nat) (slot slot' : Slot), slots[id]? = some slot → slots[id']? = some slot' → p
      slot = true → p slot' = true → id = id') : (slots.filter p).length ≤ 1 := by
  induction slots with
  | nil => exact Nat.zero_le _
  | cons first rest ih =>
    have hrest : (rest.filter p).length ≤ 1 :=
      ih fun id id' slot slot' hslot hslot' hp hp' =>
        Nat.succ.inj (h (id + 1) (id' + 1) slot slot' hslot hslot' hp hp')
    by_cases hfirst : p first = true
    · have hnone : rest.filter p = [] := by
        rw [List.filter_eq_nil_iff]
        intro slot hslot hp
        obtain ⟨id, hid⟩ := List.mem_iff_getElem?.mp hslot
        cases h 0 (id + 1) first slot rfl hid hfirst hp
      rw [List.filter_cons_of_pos hfirst, hnone]
      exact Nat.le_refl _
    · rw [List.filter_cons_of_neg hfirst]
      exact hrest

/-- For every role at most one line is open and its events take turns, beginning with Opened; the
pool closes no line that is in use; and when no `close_all` is under way, every line that is left
was opened by a call that started after the last one. -/
def Orderly (s : State) : Prop :=
  (∀ role, (s.openLines role).length ≤ 1) ∧ (∀ role, Alternate true (s.eventsOf role)) ∧
    (∀ used ∈ s.drops, used = false) ∧
    ((∀ task ∈ s.tasks, task.phase.drains = []) →
      ∀ slot ∈ s.slots, ∀ line, slot.line = some line → line.era = s.drained)

/-- In every run in which a line is opened only while no other slot of its role has one, and not
by a call that an emptying of the map has overtaken, the pool is orderly. -/
theorem link_pool_orderly (actions : List Action)
    (hclear : Runs.Along State.step (fun s action => Clear s action = true) .start actions) :
    Orderly (Runs.run State.step .start actions) := by
  have hkept := Runs.run_invariant_along Kept (fun _ _ hclear hs => Kept.step hs hclear) actions
    _ hclear kept_start
  refine ⟨fun role => length_filter_le_one fun id id' slot slot' hslot hslot' hopen hopen' => ?_,
    fun role => (hkept.log role).1, hkept.drops, fun hdone slot hmem line hline => ?_⟩
  · obtain ⟨hrole, halive⟩ := of_decide_eq_true hopen
    obtain ⟨hrole', halive'⟩ := of_decide_eq_true hopen'
    refine hkept.single id id' slot slot' hslot hslot' (hrole.trans hrole'.symm) ?_ ?_
    · cases hline : slot.line with
      | none =>
          rw [hline] at halive
          cases halive
      | some line => rfl
    · cases hline : slot'.line with
      | none =>
          rw [hline] at halive'
          cases halive'
      | some line => rfl
  · obtain ⟨id, hid⟩ := List.mem_iff_getElem?.mp hmem
    rcases hkept.held id slot line hid hline with ⟨-, hera⟩ | hdrained
    · exact hera
    · obtain ⟨index, task, htask, hin⟩ := isDrained_iff.mp hdrained
      rw [hdone task (List.mem_of_getElem? htask)] at hin
      cases hin

/-- A line is opened while the map is emptied, closed when its user is done, and opened again by a
later call; one that closes from outside is found closed. -/
def exampleLines : List Action :=
  [.acquire .misc, .read 0, .lockOpening 0, .readAgain 0, .lockWrite 0, .closeAll, .opened 0 true,
    .downgrade 0, .closeLine 1, .release 0, .closeLine 1, .closeLine 1, .ensureOpen .misc,
    .check 2 false, .read 2, .lockOpening 2, .readAgain 2, .lockWrite 2, .opened 2 true, .downgrade 2,
    .release 2, .die 1, .acquire .misc, .read 3, .lockOpening 3, .readAgain 3, .lockWrite 3,
    .opened 3 true, .downgrade 3]

theorem link_pool_orderly_lines :
    (Runs.run State.step .start exampleLines).events.map LinkEvent.opened =
        [true, false, true, false, true] ∧
      Orderly (Runs.run State.step .start exampleLines) := by
  refine ⟨by decide +kernel, link_pool_orderly exampleLines ?_⟩
  exact ⟨rfl, rfl, rfl, rfl, rfl, rfl, rfl, rfl, rfl, rfl, rfl, rfl, rfl, rfl, rfl, rfl, rfl, rfl, rfl,
    rfl, rfl, rfl, rfl, rfl, rfl, rfl, rfl, rfl, rfl, trivial⟩

/-- A call found its slot before the map was emptied and opens a line in it, and the next call
opens another in a new slot. -/
theorem opens_drained_slot :
    ¬Orderly (Runs.run State.step .start
      [.acquire .misc, .closeAll, .closeLine 1, .closeLine 1, .read 0, .lockOpening 0, .readAgain 0,
        .lockWrite 0, .opened 0 true, .downgrade 0, .acquire .misc, .read 2, .lockOpening 2,
        .readAgain 2, .lockWrite 2, .opened 2 true, .downgrade 2]) :=
  fun h => absurd (h.1 .misc) (by decide +kernel)

end LinkPool
end WbfMatrixClient
