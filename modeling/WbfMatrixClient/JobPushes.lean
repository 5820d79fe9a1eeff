import WbfMatrixClient.Lib.Runs

/-!
# The pushes of a job

Every connection of the daemon has a task that reads the events of the core, in one broadcast
for all, and forwards those the connection has subscribed to. The progress of a job is
forwarded without that to the connection whose request it is: the job has the number that the
client gave to the request, and the connection has the set of the numbers that are in flight.
-/

namespace WbfMatrixClient
namespace JobPushes

/-- What a connection has subscribed to. -/
structure Subscriptions where
  events : List String
  user : Option String

def Subscriptions.subscribe (s : Subscriptions) (names : List String) (user : Option String) :
    Subscriptions where
  events := s.events ++ names
  user := if user.isSome then user else s.user

def Subscriptions.unsubscribe (s : Subscriptions) (names : List String) : Subscriptions :=
  { s with events := s.events.filter fun name => name ∉ names }

def Subscriptions.wants (s : Subscriptions) (method : String) (user : Option String) : Bool :=
  let named := s.events.contains "*" || s.events.contains method
  let userMatches :=
    match s.user, user with
    | some wanted, some actual => wanted == actual
    | _, _ => true
  named && userMatches

/-- The request whose job an event is of, and its connection. -/
structure Owner where
  request : Nat
  conn : Nat

structure Event where
  number : Nat
  method : String
  user : Option String
  job : Option Nat
  owner : Option Owner

/-- An event that was forwarded, and whether the connection asked for it: it has subscribed to
it, or the request was its own and not answered yet. -/
structure Forward where
  event : Event
  asked : Bool

structure Conn where
  /-- The task of the pushes reads the broadcast. -/
  listens : Bool
  closed : Bool
  subscriptions : Subscriptions
  inFlight : List Nat
  /-- What was broadcast and not read. -/
  queue : List Event
  missed : Nat
  overrun : List Event
  /-- What goes to the client next, and whether it was subscribed to. -/
  hand : Option (Event × Bool)
  sent : List Forward

inductive Phase where
  | received
  | running
  | finished
  | answered
deriving DecidableEq

structure Req where
  conn : Nat
  id : Option Nat
  phase : Phase

structure State where
  capacity : Nat
  conns : List Conn
  requests : List Req
  emitted : List Event

def State.start (capacity : Nat) : State where
  capacity := capacity
  conns := []
  requests := []
  emitted := []

inductive Action where
  | connect
  | listen (conn : Nat)
  | close (conn : Nat)
  | subscribe (conn : Nat) (names : List String) (user : Option String)
  | unsubscribe (conn : Nat) (names : List String)
  | receive (conn : Nat) (id : Option Nat)
  | start (request : Nat)
  | progress (request : Nat)
  | notify (method : String) (user : Option String)
  | finish (request : Nat)
  | answer (request : Nat)
  | take (conn : Nat)
  | send (conn : Nat)

/-- An event is broadcast: a receiver that is full loses the oldest one. -/
def Conn.broadcast (conn : Conn) (capacity : Nat) (event : Event) : Conn :=
  if conn.listens ∧ !conn.closed then
    let queue := conn.queue ++ [event]
    if capacity < queue.length then
      { conn with
        queue := queue.tail
        missed := conn.missed + 1
        overrun := conn.overrun ++ queue.head?.toList }
    else
      { conn with queue := queue }
  else
    conn

namespace State

def modifyConn (s : State) (index : Nat) (f : Conn → Conn) : State :=
  { s with conns := s.conns.modify index f }

def setPhase (s : State) (index : Nat) (phase : Phase) : State :=
  { s with requests := s.requests.modify index fun request => { request with phase := phase } }

def emit (s : State) (event : Event) : State :=
  { s with
    conns := s.conns.map fun conn => conn.broadcast s.capacity event
    emitted := s.emitted ++ [event] }

/-- The request of the event has not been answered. -/
def isOpen (s : State) (owner : Owner) : Bool :=
  (s.requests[owner.request]?).any fun request => request.phase ≠ .answered

def step (s : State) : Action → State
  | .connect =>
      { s with
        conns := s.conns ++
          [{ listens := false, closed := false, subscriptions := ⟨[], none⟩, inFlight := [],
             queue := [], missed := 0, overrun := [], hand := none, sent := [] }] }
  | .listen index => s.modifyConn index fun conn => { conn with listens := true }
  | .close index =>
      s.modifyConn index fun conn => { conn with closed := true, queue := [], hand := none }
  | .subscribe index names user =>
      s.modifyConn index fun conn =>
        { conn with subscriptions := conn.subscriptions.subscribe names user }
  | .unsubscribe index names =>
      s.modifyConn index fun conn =>
        { conn with subscriptions := conn.subscriptions.unsubscribe names }
  | .receive index id =>
      if index < s.conns.length then
        { s with requests := s.requests ++ [{ conn := index, id := id, phase := .received }] }
      else
        s
  | .start index =>
      match s.requests[index]? with
      | some { conn, id, phase := .received } =>
          let s := s.modifyConn conn fun conn =>
            { conn with inFlight := id.toList ++ conn.inFlight }
          s.setPhase index .running
      | _ => s
  | .progress index =>
      match s.requests[index]? with
      | some { conn, id, phase := .running } =>
          s.emit
            { number := s.emitted.length, method := "progress", user := none, job := id
              owner := id.map fun _ => { request := index, conn := conn } }
      | _ => s
  | .notify method user =>
      s.emit
        { number := s.emitted.length, method := method, user := user, job := none, owner := none }
  | .finish index =>
      match s.requests[index]? with
      | some { conn, id, phase := .running } =>
          let s := s.modifyConn conn fun conn =>
            { conn with inFlight := conn.inFlight.filter fun other => some other ≠ id }
          s.setPhase index .finished
      | _ => s
  | .answer index =>
      match s.requests[index]? with
      | some { phase := .finished, .. } => s.setPhase index .answered
      | _ => s
  | .take index =>
      s.modifyConn index fun conn =>
        match conn.missed, conn.queue, conn.hand with
        | 0, event :: queue, none =>
            let isMyJob := event.job.any conn.inFlight.contains
            let wanted := conn.subscriptions.wants event.method event.user
            if isMyJob ∨ wanted then { conn with queue := queue, hand := some (event, wanted) }
            else { conn with queue := queue }
        | _ + 1, _, none => { conn with missed := 0 }
        | _, _, _ => conn
  | .send index =>
      s.modifyConn index fun conn =>
        match conn.hand with
        | some (event, wanted) =>
            let asked := wanted ||
              event.owner.any fun owner => owner.conn = index ∧ s.isOpen owner
            { conn with hand := none, sent := conn.sent ++ [{ event := event, asked := asked }] }
        | none => conn

/-- A request of the connection is in flight under the number. -/
def isInFlight (s : State) (conn : Nat) (id : Option Nat) : Bool :=
  s.requests.any fun request => request.conn = conn ∧ request.id = id ∧ request.phase = .running

/-- An event is of a request in flight of the connection, or of one of another connection and
none in flight has its number, or the connection has subscribed to it. -/
def mayRead (s : State) (index : Nat) (subscriptions : Subscriptions) (event : Event) : Bool :=
  subscriptions.wants event.method event.user ||
    match event.owner with
    | some owner =>
        if owner.conn = index then
          (s.requests[owner.request]?).any fun request => request.phase = .running
        else
          !s.isInFlight index event.job
    | none => true

end State

/-- A request starts when its connection listens and has no other in flight under its number;
an event is read while its request is in flight, and by another connection when that has none
under its number, unless they have subscribed to it; and no answer overtakes an event. -/
def Clear (s : State) : Action → Bool
  | .start index =>
      match s.requests[index]? with
      | some { conn, id := some id, phase := .received } =>
          (s.conns[conn]?).all Conn.listens && !s.isInFlight conn (some id)
      | _ => true
  | .take index =>
      (s.conns[index]?).all fun conn =>
        match conn.missed, conn.queue, conn.hand with
        | 0, event :: _, none => s.mayRead index conn.subscriptions event
        | _, _, _ => true
  | .answer index =>
      match s.requests[index]? with
      | some { conn, phase := .finished, .. } =>
          (s.conns[conn]?).all fun conn =>
            conn.hand.all fun hand => hand.2 || hand.1.owner.all fun owner => owner.request ≠ index
      | _ => true
  | _ => true

/-- The event was forwarded, or waits to be, or was overrun in the buffer, or its connection is
closed. -/
def Placed (conn : Conn) (event : Event) : Prop :=
  conn.closed = true ∨ event ∈ conn.queue ∨ (∃ wanted, conn.hand = some (event, wanted)) ∨
    (∃ forward ∈ conn.sent, forward.event = event) ∨ event ∈ conn.overrun

/-- An event is of a request that has its number, or of no job. -/
def EventKept (requests : List Req) (event : Event) : Prop :=
  match event.owner with
  | some owner => event.job.isSome = true ∧ ∃ request, requests[owner.request]? = some request ∧
      request.conn = owner.conn ∧ request.id = event.job
  | none => event.job = none

/-- What is about to be forwarded without a subscription is of a request of the connection that
is not answered. -/
def HandKept (requests : List Req) (index : Nat) (hand : Option (Event × Bool)) : Prop :=
  ∀ event, hand = some (event, false) → ∃ owner, event.owner = some owner ∧ owner.conn = index ∧
    ∃ request, requests[owner.request]? = some request ∧ request.conn = index ∧
      request.phase ≠ .answered

/-- A request of the connection is in flight under the number. -/
def Running (requests : List Req) (conn : Nat) (id : Option Nat) : Prop :=
  ∃ (index : Nat) (request : Req), requests[index]? = some request ∧ request.conn = conn ∧
    request.id = id ∧ request.phase = .running

structure ConnKept (requests : List Req) (index : Nat) (conn : Conn) : Prop where
  flight : ∀ id, id ∈ conn.inFlight ↔ Running requests index (some id)
  listens : ∀ id, Running requests index (some id) → conn.listens = true
  queue : ∀ event ∈ conn.queue, EventKept requests event
  hand : HandKept requests index conn.hand
  sent : ∀ forward ∈ conn.sent, forward.asked = true

structure Kept (s : State) : Prop where
  known : ∀ request ∈ s.requests, request.conn < s.conns.length
  conns : ∀ (index : Nat) (conn : Conn), s.conns[index]? = some conn →
    ConnKept s.requests index conn
  unique : ∀ (index index' : Nat) (request request' : Req),
    s.requests[index]? = some request → s.requests[index']? = some request' →
      request.conn = request'.conn → request.id = request'.id → request.id.isSome = true →
        request.phase = .running → request'.phase = .running → index = index'
  emitted : ∀ event ∈ s.emitted, EventKept s.requests event
  placed : ∀ event ∈ s.emitted, ∀ owner, event.owner = some owner → ∀ conn,
    s.conns[owner.conn]? = some conn → Placed conn event

theorem kept_start (capacity : Nat) :
    Kept (.start capacity) :=
  ⟨fun _ h => (List.not_mem_nil h).elim, fun _ _ h => by simp [State.start] at h,
    fun _ _ _ _ h => by simp [State.start] at h, fun _ h => (List.not_mem_nil h).elim,
    fun _ h => (List.not_mem_nil h).elim⟩

section Steps

variable {s : State}

variable {index place : Nat} {conn : Conn}

theorem modifyConn_get {f : Conn → Conn} (h : (s.modifyConn index f).conns[place]? = some conn) :
    ∃ earlier, s.conns[place]? = some earlier ∧
      conn = if place = index then f earlier else earlier := by
  simp only [State.modifyConn, List.getElem?_modify, Option.map_eq_map, Option.map_eq_some_iff] at h
  obtain ⟨earlier, hearlier, rfl⟩ := h
  refine ⟨earlier, hearlier, ?_⟩
  by_cases hsame : index = place
  · simp [hsame]
  · simp [hsame, Ne.symm hsame]

/-- What a change of one connection has to keep. -/
theorem Kept.modifyConn (hs : Kept s) {index : Nat} {f : Conn → Conn}
    (hconn : ∀ conn, s.conns[index]? = some conn → ConnKept s.requests index (f conn))
    (hplaced : ∀ conn, s.conns[index]? = some conn → ∀ event owner, event.owner = some owner →
      owner.conn = index → Placed conn event → Placed (f conn) event) :
    Kept (s.modifyConn index f) := by
  refine ⟨fun request hrequest => ?_, fun place conn h => ?_, hs.unique, hs.emitted,
    fun event hevent owner howner conn h => ?_⟩
  · rw [State.modifyConn, List.length_modify]
    exact hs.known request hrequest
  · obtain ⟨earlier, hearlier, rfl⟩ := modifyConn_get h
    split_ifs with hsame
    · subst hsame
      exact hconn earlier hearlier
    · exact hs.conns place earlier hearlier
  · obtain ⟨earlier, hearlier, rfl⟩ := modifyConn_get h
    have hbefore := hs.placed event hevent owner howner earlier hearlier
    split_ifs with hsame
    · rw [hsame] at hearlier
      exact hplaced earlier hearlier event owner howner hsame hbefore
    · exact hbefore

variable {phase : Phase}

/-- A request after one of them has changed its phase. -/
theorem setPhase_get {request : Req}
    (h : (s.setPhase index phase).requests[place]? = some request) :
    ∃ earlier, s.requests[place]? = some earlier ∧ earlier.conn = request.conn ∧
      earlier.id = request.id ∧
      request.phase = if place = index then phase else earlier.phase := by
  simp only [State.setPhase, List.getElem?_modify, Option.map_eq_map, Option.map_eq_some_iff] at h
  obtain ⟨earlier, hearlier, rfl⟩ := h
  refine ⟨earlier, hearlier, ?_⟩
  by_cases hsame : index = place
  · simp [hsame]
  · simp [hsame, Ne.symm hsame]

theorem setPhase_of_get {request : Req} (index : Nat) (phase : Phase)
    (h : s.requests[place]? = some request) :
    (s.setPhase index phase).requests[place]? =
      some (if place = index then { request with phase := phase } else request) := by
  simp only [State.setPhase, List.getElem?_modify, h, Option.map_eq_map, Option.map_some]
  by_cases hsame : index = place
  · simp [hsame]
  · simp [hsame, Ne.symm hsame]

theorem EventKept.setPhase {event : Event} (h : EventKept s.requests event) (index : Nat)
    (phase : Phase) : EventKept (s.setPhase index phase).requests event := by
  unfold EventKept at h ⊢
  split
  · rename_i owner howner
    rw [howner] at h
    obtain ⟨hjob, request, hrequest, hconn, hid⟩ := h
    refine ⟨hjob, _, setPhase_of_get index phase hrequest, ?_⟩
    split_ifs <;> exact ⟨hconn, hid⟩
  · rename_i howner
    rw [howner] at h
    exact h

variable {id : Option Nat}

theorem isInFlight_iff {conn : Nat} : s.isInFlight conn id = true ↔ Running s.requests conn id := by
  rw [State.isInFlight, List.any_eq_true]
  constructor
  · rintro ⟨request, hrequest, h⟩
    obtain ⟨index, hindex⟩ := List.mem_iff_getElem?.mp hrequest
    exact ⟨index, request, hindex, of_decide_eq_true h⟩
  · rintro ⟨index, request, hindex, h⟩
    exact ⟨request, List.mem_of_getElem? hindex, decide_eq_true h⟩

/-- A request starts: it is in flight beside the others. -/
theorem running_start {conn : Nat} (hrequest : s.requests[index]? = some ⟨conn, id, .received⟩)
    (other : Nat) (id' : Option Nat) :
    Running (s.setPhase index .running).requests other id' ↔
      other = conn ∧ id' = id ∨ Running s.requests other id' := by
  constructor
  · rintro ⟨place, request, hplace, rfl, rfl, hphase⟩
    obtain ⟨earlier, hearlier, hconn, hid, hlater⟩ := setPhase_get hplace
    rw [hlater] at hphase
    split_ifs at hphase with hsame
    · rw [hsame, hrequest] at hearlier
      cases hearlier
      exact .inl ⟨hconn.symm, hid.symm⟩
    · exact .inr ⟨place, earlier, hearlier, hconn, hid, hphase⟩
  · rintro (⟨rfl, rfl⟩ | ⟨place, request, hplace, hconn, hid, hphase⟩)
    · refine ⟨index, _, setPhase_of_get index .running hrequest, ?_⟩
      rw [if_pos rfl]
      exact ⟨rfl, rfl, rfl⟩
    · refine ⟨place, _, setPhase_of_get index .running hplace, ?_⟩
      split_ifs
      · exact ⟨hconn, hid, rfl⟩
      · exact ⟨hconn, hid, hphase⟩

/-- A request goes on to a phase in which it is not in flight. -/
theorem running_end (hphase : phase ≠ .running) (other : Nat) (id : Option Nat) :
    Running (s.setPhase index phase).requests other id ↔
      ∃ (place : Nat) (request : Req), s.requests[place]? = some request ∧ request.conn = other ∧
        request.id = id ∧ request.phase = .running ∧ place ≠ index := by
  constructor
  · rintro ⟨place, request, hplace, rfl, rfl, hrunning⟩
    obtain ⟨earlier, hearlier, hconn, hid, hlater⟩ := setPhase_get hplace
    rw [hlater] at hrunning
    split_ifs at hrunning with hsame
    · exact (hphase hrunning).elim
    · exact ⟨place, earlier, hearlier, hconn, hid, hrunning, hsame⟩
  · rintro ⟨place, request, hplace, hconn, hid, hrunning, hne⟩
    refine ⟨place, _, setPhase_of_get index phase hplace, ?_⟩
    rw [if_neg hne]
    exact ⟨hconn, hid, hrunning⟩

/-- What is in the hand of a connection stays unanswered, when no answer overtakes it. -/
theorem HandKept.setPhase {place : Nat} {hand : Option (Event × Bool)}
    (h : HandKept s.requests place hand) {index : Nat} {phase : Phase}
    (hphase : phase ≠ .answered ∨ ∀ event owner, hand = some (event, false) → event.owner = some
      owner → owner.request ≠ index) : HandKept (s.setPhase index phase).requests place hand := by
  intro event hhand
  obtain ⟨owner, howner, hconn, request, hrequest, hplace, hopen⟩ := h event hhand
  refine ⟨owner, howner, hconn, _, setPhase_of_get index phase hrequest, ?_⟩
  split_ifs with hsame
  · exact ⟨hplace, hphase.resolve_right fun hne => hne event owner hhand howner hsame⟩
  · exact ⟨hplace, hopen⟩

section

variable (hs : Kept s)

include hs

theorem Kept.start {index : Nat} (hclear : Clear s (.start index) = true) :
    Kept (s.step (.start index)) := by
  simp only [State.step]
  split
  · rename_i target id hrequest
    have hnew : ∀ id', id = some id' → ¬Running s.requests target id ∧
        ∀ conn, s.conns[target]? = some conn → conn.listens = true := by
      rintro id' rfl
      rw [Clear, hrequest] at hclear
      obtain ⟨hlistens, hidle⟩ := Bool.and_eq_true_iff.mp hclear
      refine ⟨fun hrunning => ?_, fun conn hconn => ?_⟩
      · rw [isInFlight_iff.mpr hrunning] at hidle
        cases hidle
      · rw [hconn] at hlistens
        exact hlistens
    refine ⟨fun request hmem => ?_, fun place conn hconn => ?_,
      fun place place' request request' h h' hsame hid hsome hphase hphase' => ?_,
      fun event hevent => (hs.emitted event hevent).setPhase index .running,
      fun event hevent owner howner conn hconn => ?_⟩
    · obtain ⟨place, hplace⟩ := List.mem_iff_getElem?.mp hmem
      obtain ⟨earlier, hearlier, hconn, -, -⟩ := setPhase_get (s := s) hplace
      rw [← hconn]
      show earlier.conn < (s.conns.modify ..).length
      rw [List.length_modify]
      exact hs.known earlier (List.mem_of_getElem? hearlier)
    · obtain ⟨earlier, hearlier, rfl⟩ := modifyConn_get hconn
      have hbefore := hs.conns place earlier hearlier
      refine ⟨fun id' => ?_, fun id' hrunning => ?_, fun event hevent => ?_, ?_, ?_⟩
      · refine Iff.trans ?_ (running_start hrequest place (some id')).symm
        split_ifs with hsame
        · rw [List.mem_append, Option.mem_toList, ← hbefore.flight]
          constructor
          · exact Or.imp_left fun h => ⟨hsame, h.symm⟩
          · exact Or.imp_left fun h => h.2.symm
        · rw [← hbefore.flight]
          exact ⟨.inr, fun h => h.resolve_left fun h => hsame h.1⟩
      · have hlistens : earlier.listens = true := by
          rcases (running_start hrequest place (some id')).mp hrunning with ⟨rfl, hid⟩ | hold
          · exact (hnew id' hid.symm).2 earlier hearlier
          · exact hbefore.listens id' hold
        split_ifs <;> exact hlistens
      · refine EventKept.setPhase (hbefore.queue event ?_) index .running
        split_ifs at hevent <;> exact hevent
      · have hhand : HandKept (s.setPhase index .running).requests place earlier.hand :=
          hbefore.hand.setPhase (.inl nofun)
        split_ifs <;> exact hhand
      · split_ifs <;> exact hbefore.sent
    · obtain ⟨earlier, hearlier, hconn, hid₁, hlater⟩ := setPhase_get (s := s) h
      obtain ⟨earlier', hearlier', hconn', hid₂, hlater'⟩ := setPhase_get (s := s) h'
      rw [hlater] at hphase
      rw [hlater'] at hphase'
      rw [← hconn, ← hconn'] at hsame
      rw [← hid₁, ← hid₂] at hid
      rw [← hid₁] at hsome
      split_ifs at hphase hphase' with hplace hplace' hplace'
      · rw [hplace, hplace']
      · rw [hplace, hrequest] at hearlier
        cases hearlier
        obtain ⟨id', hid'⟩ := Option.isSome_iff_exists.mp hsome
        exact ((hnew id' hid').1 ⟨place', earlier', hearlier', hsame.symm, hid.symm, hphase'⟩).elim
      · rw [hplace', hrequest] at hearlier'
        cases hearlier'
        obtain ⟨id', hid'⟩ := Option.isSome_iff_exists.mp hsome
        exact ((hnew id' (hid.symm.trans hid')).1
          ⟨place, earlier, hearlier, hsame, hid, hphase⟩).elim
      · exact hs.unique place place' earlier earlier' hearlier hearlier' hsame hid hsome hphase hphase'
    · obtain ⟨earlier, hearlier, rfl⟩ := modifyConn_get hconn
      have hbefore := hs.placed event hevent owner howner earlier hearlier
      split_ifs <;> exact hbefore
  · exact hs

theorem Kept.known_setPhase (index : Nat) (phase : Phase) :
    ∀ request ∈ (s.setPhase index phase).requests, request.conn < s.conns.length := by
  intro request hmem
  obtain ⟨place, hplace⟩ := List.mem_iff_getElem?.mp hmem
  obtain ⟨earlier, hearlier, hconn, -, -⟩ := setPhase_get hplace
  rw [← hconn]
  exact hs.known earlier (List.mem_of_getElem? hearlier)

theorem Kept.unique_setPhase (hphase : phase ≠ .running) :
    ∀ (place place' : Nat) (request request' : Req),
      (s.setPhase index phase).requests[place]? = some request →
      (s.setPhase index phase).requests[place']? = some request' →
        request.conn = request'.conn → request.id = request'.id → request.id.isSome = true →
          request.phase = .running → request'.phase = .running → place = place' := by
  intro place place' request request' h h' hsame hid hsome hrun hrun'
  obtain ⟨earlier, hearlier, hconn, hid₁, hlater⟩ := setPhase_get h
  obtain ⟨earlier', hearlier', hconn', hid₂, hlater'⟩ := setPhase_get h'
  rw [hlater] at hrun
  rw [hlater'] at hrun'
  rw [← hconn, ← hconn'] at hsame
  rw [← hid₁, ← hid₂] at hid
  rw [← hid₁] at hsome
  split_ifs at hrun hrun' with hplace hplace' hplace'
  · exact (hphase hrun).elim
  · exact (hphase hrun).elim
  · exact (hphase hrun').elim
  · exact hs.unique place place' earlier earlier' hearlier hearlier' hsame hid hsome hrun hrun'

/-- The number of a request is in flight until the request ends. -/
theorem Kept.running_finish {target : Nat}
    (hrequest : s.requests[index]? = some ⟨target, id, .running⟩) (other id' : Nat) :
    Running (s.setPhase index .finished).requests other (some id') ↔
      Running s.requests other (some id') ∧ ¬(other = target ∧ some id' = id) := by
  rw [running_end (by decide)]
  constructor
  · rintro ⟨place, request, hplace, hconn, hid, hrun, hne⟩
    refine ⟨⟨place, request, hplace, hconn, hid, hrun⟩, ?_⟩
    rintro ⟨rfl, rfl⟩
    exact hne (hs.unique place index request _ hplace hrequest hconn hid (by rw [hid]; rfl) hrun rfl)
  · rintro ⟨⟨place, request, hplace, hconn, hid, hrun⟩, hne⟩
    refine ⟨place, request, hplace, hconn, hid, hrun, ?_⟩
    rintro rfl
    rw [hrequest] at hplace
    cases hplace
    exact hne ⟨hconn.symm, hid.symm⟩

theorem Kept.finish (index : Nat) : Kept (s.step (.finish index)) := by
  simp only [State.step]
  split
  · rename_i target id hrequest
    refine ⟨fun request hmem => ?_, fun place conn hconn => ?_, hs.unique_setPhase nofun,
      fun event hevent => (hs.emitted event hevent).setPhase index .finished,
      fun event hevent owner howner conn hconn => ?_⟩
    · show request.conn < (s.conns.modify ..).length
      rw [List.length_modify]
      exact hs.known_setPhase index .finished request hmem
    · obtain ⟨earlier, hearlier, rfl⟩ := modifyConn_get hconn
      have hbefore := hs.conns place earlier hearlier
      have hhand : HandKept (s.setPhase index .finished).requests place earlier.hand :=
        hbefore.hand.setPhase (.inl nofun)
      have hqueue : ∀ event ∈ earlier.queue,
          EventKept (s.setPhase index .finished).requests event :=
        fun event hevent => (hbefore.queue event hevent).setPhase index .finished
      have hlistens : ∀ id', Running (s.setPhase index .finished).requests place (some id') →
          earlier.listens = true :=
        fun id' hrun => hbefore.listens id' ((hs.running_finish hrequest place id').mp hrun).1
      have hflight : ∀ id', Running (s.setPhase index .finished).requests place (some id') ↔
          id' ∈ earlier.inFlight ∧ ¬(place = target ∧ some id' = id) := by
        intro id'
        rw [hs.running_finish hrequest, hbefore.flight]
      split_ifs with hsame
      · refine ⟨fun id' => ?_, hlistens, hqueue, hhand, hbefore.sent⟩
        refine Iff.trans ?_ (hflight id').symm
        simp [hsame]
      · refine ⟨fun id' => ?_, hlistens, hqueue, hhand, hbefore.sent⟩
        refine Iff.trans ?_ (hflight id').symm
        simp [hsame]
    · obtain ⟨earlier, hearlier, rfl⟩ := modifyConn_get hconn
      have hbefore := hs.placed event hevent owner howner earlier hearlier
      split_ifs <;> exact hbefore
  · exact hs

theorem Kept.answer {index : Nat} (hclear : Clear s (.answer index) = true) :
    Kept (s.step (.answer index)) := by
  simp only [State.step]
  split
  · rename_i target id hrequest
    have hrunning : ∀ other id', Running (s.setPhase index .answered).requests other id' ↔
        Running s.requests other id' := by
      intro other id'
      rw [running_end (by decide)]
      constructor
      · rintro ⟨place, request, hplace, hconn, hid, hrun, -⟩
        exact ⟨place, request, hplace, hconn, hid, hrun⟩
      · rintro ⟨place, request, hplace, hconn, hid, hrun⟩
        refine ⟨place, request, hplace, hconn, hid, hrun, ?_⟩
        rintro rfl
        rw [hrequest] at hplace
        cases hplace
        cases hrun
    refine ⟨hs.known_setPhase index .answered, fun place conn hconn => ?_, hs.unique_setPhase nofun,
      fun event hevent => (hs.emitted event hevent).setPhase index .answered, hs.placed⟩
    have hbefore := hs.conns place conn hconn
    refine ⟨fun id' => (hbefore.flight id').trans (hrunning place _).symm,
      fun id' hrun => hbefore.listens id' ((hrunning place (some id')).mp hrun),
      fun event hevent => (hbefore.queue event hevent).setPhase index .answered,
      hbefore.hand.setPhase (.inr ?_), hbefore.sent⟩
    rintro event owner hhand howner rfl
    obtain ⟨owner', howner', hplace, request, hrequest', hown, -⟩ := hbefore.hand event hhand
    rw [howner] at howner'
    cases howner'
    rw [hrequest] at hrequest'
    cases hrequest'
    obtain rfl : target = place := hown
    rw [Clear, hrequest] at hclear
    have hconn : s.conns[target]? = some conn := hconn
    simp [hconn, hhand, howner] at hclear
  · exact hs

/-- A connection changes and keeps what is in flight on it, what is on its way and what it has
sent. -/
theorem Kept.change {f : Conn → Conn} (hflight : ∀ conn, (f conn).inFlight = conn.inFlight)
    (hlistens : ∀ conn, conn.listens = true → (f conn).listens = true)
    (hqueue : ∀ conn, (f conn).queue = conn.queue ∧ (f conn).hand = conn.hand ∧ (f conn).closed =
      conn.closed ∨ (f conn).queue = [] ∧ (f conn).hand = none ∧ (f conn).closed = true)
    (hsent : ∀ conn, (f conn).sent = conn.sent)
    (hoverrun : ∀ conn, (f conn).overrun = conn.overrun) : Kept (s.modifyConn index f) := by
  refine hs.modifyConn (fun conn hconn => ?_) fun conn hconn event owner howner _ hplaced => ?_
  · have hbefore := hs.conns index conn hconn
    refine ⟨fun id => ?_, fun id hrun => hlistens conn (hbefore.listens id hrun),
      fun event hevent => ?_, fun event hhand => ?_, fun forward hforward => ?_⟩
    · rw [hflight]
      exact hbefore.flight id
    · rcases hqueue conn with ⟨hsame, -, -⟩ | ⟨hnone, -, -⟩
      · rw [hsame] at hevent
        exact hbefore.queue event hevent
      · rw [hnone] at hevent
        cases hevent
    · rcases hqueue conn with ⟨-, hsame, -⟩ | ⟨-, hnone, -⟩
      · rw [hsame] at hhand
        exact hbefore.hand event hhand
      · rw [hnone] at hhand
        cases hhand
    · rw [hsent] at hforward
      exact hbefore.sent forward hforward
  · rcases hqueue conn with ⟨hsame, hhand, hclosed⟩ | ⟨-, -, hclosed⟩
    · rw [Placed, hclosed, hsame, hhand, hsent, hoverrun]
      exact hplaced
    · exact .inl hclosed

theorem Kept.connect : Kept (s.step .connect) := by
  have hcases : ∀ (place : Nat) (conn : Conn), (s.step .connect).conns[place]? = some conn →
      s.conns[place]? = some conn ∨ place = s.conns.length ∧ conn.inFlight = [] ∧ conn.queue = [] ∧
        conn.hand = none ∧ conn.sent = [] := by
    intro place conn h
    simp only [State.step, List.getElem?_append] at h
    split_ifs at h with hlt
    · exact .inl h
    · have hlength : place = s.conns.length := by
        by_contra hne
        rw [List.getElem?_eq_none (by rw [List.length_singleton]; omega)] at h
        cases h
      rw [hlength, Nat.sub_self] at h
      cases h
      exact .inr ⟨hlength, rfl, rfl, rfl, rfl⟩
  have hidle : ∀ id, ¬Running s.requests s.conns.length id := by
    rintro id ⟨place, request, hplace, hconn, -, -⟩
    have hlt := hs.known request (List.mem_of_getElem? hplace)
    omega
  refine ⟨fun request hmem => ?_, fun place conn h => ?_, hs.unique, hs.emitted,
    fun event hevent owner howner conn h => ?_⟩
  · have hlt := hs.known request hmem
    simp only [State.step, List.length_append, List.length_singleton]
    omega
  · rcases hcases place conn h with hold | ⟨rfl, hflight, hqueue, hhand, hsent⟩
    · exact hs.conns place conn hold
    · refine ⟨fun id => ?_, fun id hrun => (hidle _ hrun).elim, fun event hevent => ?_,
        fun event hin => ?_, fun forward hforward => ?_⟩
      · rw [hflight]
        exact ⟨fun h => (List.not_mem_nil h).elim, fun hrun => (hidle _ hrun).elim⟩
      · rw [hqueue] at hevent
        cases hevent
      · rw [hhand] at hin
        cases hin
      · rw [hsent] at hforward
        cases hforward
  · rcases hcases owner.conn conn h with hold | ⟨hlength, -⟩
    · exact hs.placed event hevent owner howner conn hold
    · have hkept := hs.emitted event hevent
      rw [EventKept, howner] at hkept
      obtain ⟨-, request, hrequest, hconn, -⟩ := hkept
      have hlt := hs.known request (List.mem_of_getElem? hrequest)
      omega

theorem Kept.receive (index : Nat) (id : Option Nat) : Kept (s.step (.receive index id)) := by
  simp only [State.step]
  split_ifs with hlt
  · have hcases : ∀ (place : Nat) (request : Req),
        (s.requests ++ [⟨index, id, .received⟩])[place]? = some request →
          s.requests[place]? = some request ∨ request = ⟨index, id, .received⟩ := by
      intro place request h
      rw [List.getElem?_append] at h
      split_ifs at h
      · exact .inl h
      · exact .inr (List.mem_singleton.mp (List.mem_of_getElem? h))
    have hold : ∀ (place : Nat) (request : Req), s.requests[place]? = some request →
        (s.requests ++ [⟨index, id, .received⟩])[place]? = some request := by
      intro place request h
      rw [List.getElem?_append_left (List.getElem?_eq_some_iff.mp h).1]
      exact h
    have hrunning : ∀ other id', Running (s.requests ++ [⟨index, id, .received⟩]) other id' ↔
        Running s.requests other id' := by
      intro other id'
      constructor
      · rintro ⟨place, request, hplace, hconn, hid, hrun⟩
        rcases hcases place request hplace with hbefore | rfl
        · exact ⟨place, request, hbefore, hconn, hid, hrun⟩
        · cases hrun
      · rintro ⟨place, request, hplace, h⟩
        exact ⟨place, request, hold place request hplace, h⟩
    have hevents : ∀ event, EventKept s.requests event →
        EventKept (s.requests ++ [⟨index, id, .received⟩]) event := by
      intro event h
      unfold EventKept at h ⊢
      split
      · rename_i owner howner
        rw [howner] at h
        obtain ⟨hjob, request, hrequest, h⟩ := h
        exact ⟨hjob, request, hold _ request hrequest, h⟩
      · rename_i howner
        rw [howner] at h
        exact h
    refine ⟨fun request hmem => ?_, fun place conn hconn => ?_,
      fun place place' request request' h h' hsame hid hsome hrun hrun' => ?_,
      fun event hevent => hevents event (hs.emitted event hevent), hs.placed⟩
    · rcases List.mem_append.mp hmem with hmem | hnew
      · exact hs.known request hmem
      · rw [List.mem_singleton.mp hnew]
        exact hlt
    · have hbefore := hs.conns place conn hconn
      refine ⟨fun id' => (hbefore.flight id').trans (hrunning place _).symm,
        fun id' hrun => hbefore.listens id' ((hrunning place (some id')).mp hrun),
        fun event hevent => hevents event (hbefore.queue event hevent), fun event hhand => ?_,
        hbefore.sent⟩
      obtain ⟨owner, howner, hplace, request, hrequest, h⟩ := hbefore.hand event hhand
      exact ⟨owner, howner, hplace, request, hold _ request hrequest, h⟩
    · rcases hcases place request h with hbefore | rfl
      · rcases hcases place' request' h' with hbefore' | rfl
        · exact hs.unique place place' request request' hbefore hbefore' hsame hid hsome hrun hrun'
        · cases hrun'
      · cases hrun
  · exact hs

end

variable {event : Event}

theorem mem_tail_or_head {queue : List Event} (h : event ∈ queue) :
    event ∈ queue.tail ∨ event ∈ queue.head?.toList := by
  cases queue with
  | nil => cases h
  | cons first rest =>
    rcases List.mem_cons.mp h with rfl | hrest
    · exact .inr (by simp)
    · exact .inl hrest

/-- An event that is broadcast finds its place, beside those that had one. -/
theorem broadcast_placed {new : Event} (capacity : Nat)
    (h : Placed conn event ∨ conn.listens = true ∧ event = new) :
    Placed (conn.broadcast capacity new) event := by
  by_cases hclosed : conn.closed = true
  · left
    unfold Conn.broadcast
    simp [hclosed]
  · have hqueue : conn.listens = true → event ∈ conn.queue ∨ event = new →
        Placed (conn.broadcast capacity new) event := by
      intro hlistens hin
      have hmem : event ∈ conn.queue ++ [new] := by simpa using hin
      unfold Conn.broadcast
      rw [if_pos ⟨hlistens, by simpa using hclosed⟩]
      simp only
      split_ifs with hfull
      · rcases mem_tail_or_head hmem with htail | hhead
        · exact .inr (.inl htail)
        · exact .inr (.inr (.inr (.inr (List.mem_append_right _ hhead))))
      · exact .inr (.inl hmem)
    rcases h with (h | h | h | h | h) | ⟨hlistens, rfl⟩
    · exact (hclosed h).elim
    · by_cases hlistens : conn.listens = true
      · exact hqueue hlistens (.inl h)
      · unfold Conn.broadcast
        rw [if_neg fun hboth => hlistens hboth.1]
        exact .inr (.inl h)
    · refine .inr (.inr (.inl ?_))
      unfold Conn.broadcast
      split_ifs
      · simp only
        split_ifs <;> exact h
      · exact h
    · refine .inr (.inr (.inr (.inl ?_)))
      unfold Conn.broadcast
      split_ifs
      · simp only
        split_ifs <;> exact h
      · exact h
    · refine .inr (.inr (.inr (.inr ?_)))
      unfold Conn.broadcast
      split_ifs
      · simp only
        split_ifs
        · exact List.mem_append_left _ h
        · exact h
      · exact h
    · exact hqueue hlistens (.inr rfl)

theorem ConnKept.broadcast {requests : List Req} {index : Nat} {conn : Conn}
    (h : ConnKept requests index conn) (capacity : Nat) {new : Event}
    (hnew : EventKept requests new) : ConnKept requests index (conn.broadcast capacity new) := by
  have hqueue : ∀ event ∈ conn.queue ++ [new], EventKept requests event := by
    intro event hevent
    rcases List.mem_append.mp hevent with hold | hlast
    · exact h.queue event hold
    · rw [List.mem_singleton.mp hlast]
      exact hnew
  unfold Conn.broadcast
  split_ifs
  · simp only
    split_ifs
    · exact ⟨h.flight, h.listens, fun event hevent => hqueue event (List.mem_of_mem_tail hevent),
        h.hand, h.sent⟩
    · exact ⟨h.flight, h.listens, hqueue, h.hand, h.sent⟩
  · exact h

theorem Kept.emit (hs : Kept s) {event : Event} (hevent : EventKept s.requests event)
    (hlistens : ∀ owner, event.owner = some owner → ∀ conn, s.conns[owner.conn]? = some conn →
      conn.listens = true) : Kept (s.emit event) := by
  refine ⟨fun request hmem => ?_, fun place conn h => ?_, hs.unique, fun other hother => ?_,
    fun other hother owner howner conn h => ?_⟩
  · rw [State.emit, List.length_map]
    exact hs.known request hmem
  · simp only [State.emit, List.getElem?_map, Option.map_eq_some_iff] at h
    obtain ⟨earlier, hearlier, rfl⟩ := h
    exact (hs.conns place earlier hearlier).broadcast s.capacity hevent
  · rcases List.mem_append.mp hother with hold | hnew
    · exact hs.emitted other hold
    · rw [List.mem_singleton.mp hnew]
      exact hevent
  · simp only [State.emit, List.getElem?_map, Option.map_eq_some_iff] at h
    obtain ⟨earlier, hearlier, rfl⟩ := h
    rcases List.mem_append.mp hother with hold | hnew
    · exact broadcast_placed s.capacity (.inl (hs.placed other hold owner howner earlier hearlier))
    · obtain rfl := List.mem_singleton.mp hnew
      exact broadcast_placed s.capacity (.inr ⟨hlistens owner howner earlier hearlier, rfl⟩)

/-- A request in flight tells of its progress. -/
theorem Kept.progress (hs : Kept s) (index : Nat) : Kept (s.step (.progress index)) := by
  simp only [State.step]
  split
  · rename_i target id hrequest
    cases id with
    | none => exact hs.emit (by rfl) fun owner howner => by cases howner
    | some id =>
      refine hs.emit ⟨rfl, _, hrequest, rfl, rfl⟩ fun owner howner conn hconn => ?_
      cases howner
      exact (hs.conns target conn hconn).listens id ⟨index, _, hrequest, rfl, rfl, rfl⟩
  · exact hs

/-- An event of a job of the connection goes on. -/
theorem mayRead_own {owner : Owner} (hbefore : ConnKept s.requests index conn)
    (hkept : EventKept s.requests event) (hmay : s.mayRead index conn.subscriptions event = true)
    (howner : event.owner = some owner) (hconn : owner.conn = index) :
    event.job.any conn.inFlight.contains = true ∨
      conn.subscriptions.wants event.method event.user = true := by
  rw [EventKept, howner] at hkept
  obtain ⟨hjob, request, hrequest, hplace, hid⟩ := hkept
  rw [State.mayRead, howner, Bool.or_eq_true] at hmay
  rcases hmay with hwanted | hrunning
  · exact .inr hwanted
  · simp only [hconn, if_true, hrequest, Option.any_some] at hrunning
    obtain ⟨job, hsome⟩ := Option.isSome_iff_exists.mp hjob
    have hflight := (hbefore.flight job).mpr
      ⟨owner.request, request, hrequest, hplace.trans hconn, hid.trans hsome,
        of_decide_eq_true hrunning⟩
    left
    rw [hsome, Option.any_some]
    exact List.contains_iff_mem.mpr hflight

/-- What goes on without a subscription is of a request in flight. -/
theorem mayRead_mine (hbefore : ConnKept s.requests index conn) (hkept : EventKept s.requests event)
    (hmay : s.mayRead index conn.subscriptions event = true)
    (hmine : event.job.any conn.inFlight.contains = true)
    (hunwanted : conn.subscriptions.wants event.method event.user = false) :
    ∃ owner, event.owner = some owner ∧ owner.conn = index ∧
      ∃ request, s.requests[owner.request]? = some request ∧ request.conn = index ∧
        request.phase ≠ .answered := by
  cases hjob : event.job with
  | none =>
    rw [hjob] at hmine
    cases hmine
  | some job =>
    rw [hjob, Option.any_some] at hmine
    have hrunning := (hbefore.flight job).mp (List.contains_iff_mem.mp hmine)
    rw [State.mayRead, hunwanted, Bool.false_or] at hmay
    unfold EventKept at hkept
    cases howner : event.owner with
    | none =>
      rw [howner, hjob] at hkept
      cases hkept
    | some owner =>
      rw [howner] at hkept hmay
      obtain ⟨-, request, hrequest, hplace, -⟩ := hkept
      simp only [hrequest, Option.any_some] at hmay
      split_ifs at hmay with hconn
      · refine ⟨owner, rfl, hconn, request, hrequest, hplace.trans hconn, ?_⟩
        rw [of_decide_eq_true hmay]
        exact nofun
      · rw [hjob, isInFlight_iff.mpr hrunning] at hmay
        cases hmay

/-- An event that is read goes on when it is of a request in flight of the connection. -/
theorem Kept.take (hs : Kept s) {index : Nat} (hclear : Clear s (.take index) = true) :
    Kept (s.step (.take index)) := by
  refine hs.modifyConn (fun conn hconn => ?_) fun conn hconn event owner howner hplace hplaced => ?_
  · have hbefore := hs.conns index conn hconn
    rw [Clear, hconn, Option.all_some] at hclear
    split at hclear
    · rename_i event queue hmissed hqueue hhand
      have hmem : event ∈ conn.queue := by simp [hqueue]
      have hrest : ∀ other ∈ queue, EventKept s.requests other :=
        fun other hother => hbefore.queue other (by simp [hqueue, hother])
      have hnone : HandKept s.requests index none := fun _ h => by cases h
      simp only [hmissed, hqueue, hhand]
      split_ifs with hgoes
      · refine ⟨hbefore.flight, hbefore.listens, hrest, fun other hin => ?_, hbefore.sent⟩
        obtain ⟨rfl, hunwanted⟩ := Prod.mk.inj (Option.some.inj hin)
        exact mayRead_mine hbefore (hbefore.queue event hmem) hclear
          (hgoes.resolve_right (by simp [hunwanted])) hunwanted
      · exact ⟨hbefore.flight, hbefore.listens, hrest, hnone, hbefore.sent⟩
    · rename_i hother
      split
      · rename_i event queue hmissed hqueue hhand
        exact (hother event queue hmissed hqueue hhand).elim
      · exact ⟨hbefore.flight, hbefore.listens, hbefore.queue, hbefore.hand, hbefore.sent⟩
      · exact hbefore
  · have hbefore := hs.conns index conn hconn
    rw [Clear, hconn, Option.all_some] at hclear
    split
    · rename_i first queue hmissed hqueue hhand
      simp only [hmissed, hqueue, hhand] at hclear
      have hmem : first ∈ conn.queue := by simp [hqueue]
      have hgone : event = first →
          first.job.any conn.inFlight.contains = true ∨
            conn.subscriptions.wants first.method first.user = true := by
        rintro rfl
        exact mayRead_own hbefore (hbefore.queue event hmem) hclear howner hplace
      simp only
      rcases hplaced with h | h | ⟨wanted, h⟩ | h | h
      · split_ifs <;> exact .inl h
      · rw [hqueue] at h
        rcases List.mem_cons.mp h with hfirst | hrest
        · rw [if_pos (hgone hfirst), hfirst]
          exact .inr (.inr (.inl ⟨_, rfl⟩))
        · split_ifs <;> exact .inr (.inl hrest)
      · rw [hhand] at h
        cases h
      · split_ifs <;> exact .inr (.inr (.inr (.inl h)))
      · split_ifs <;> exact .inr (.inr (.inr (.inr h)))
    · exact hplaced
    · exact hplaced

/-- What was in the hand is sent, and was asked for. -/
theorem Kept.send (hs : Kept s) (index : Nat) : Kept (s.step (.send index)) := by
  refine hs.modifyConn (fun conn hconn => ?_) fun conn hconn event owner howner hplace hplaced => ?_
  · have hbefore := hs.conns index conn hconn
    split
    · rename_i event wanted hhand
      have hnone : HandKept s.requests index none := fun _ h => by cases h
      refine ⟨hbefore.flight, hbefore.listens, hbefore.queue, hnone, fun forward hforward => ?_⟩
      rcases List.mem_append.mp hforward with hold | hnew
      · exact hbefore.sent forward hold
      · rw [List.mem_singleton.mp hnew]
        cases wanted with
        | true => rfl
        | false =>
          obtain ⟨owner, howner, hplace, request, hrequest, -, hopen⟩ := hbefore.hand event hhand
          simp [howner, hplace, State.isOpen, hrequest, hopen]
    · exact hbefore
  · split
    · rename_i first wanted hhand
      rcases hplaced with h | h | ⟨wanted', h⟩ | ⟨forward, hforward, h⟩ | h
      · exact .inl h
      · exact .inr (.inl h)
      · rw [hhand] at h
        cases h
        exact .inr (.inr (.inr (.inl ⟨_, List.mem_append_right _ (List.mem_singleton_self _), rfl⟩)))
      · exact .inr (.inr (.inr (.inl ⟨forward, List.mem_append_left _ hforward, h⟩)))
      · exact .inr (.inr (.inr (.inr h)))
    · exact hplaced

theorem Kept.step (hs : Kept s) {action : Action} (hclear : Clear s action = true) :
    Kept (s.step action) := by
  cases action with
  | connect => exact hs.connect
  | listen index =>
    exact hs.change (fun _ => rfl) (fun _ _ => rfl) (fun _ => .inl ⟨rfl, rfl, rfl⟩) (fun _ => rfl)
      fun _ => rfl
  | close index =>
    exact hs.change (fun _ => rfl) (fun _ h => h) (fun _ => .inr ⟨rfl, rfl, rfl⟩) (fun _ => rfl)
      fun _ => rfl
  | subscribe index names user | unsubscribe index names =>
    exact hs.change (fun _ => rfl) (fun _ h => h) (fun _ => .inl ⟨rfl, rfl, rfl⟩) (fun _ => rfl)
      fun _ => rfl
  | receive index id => exact hs.receive index id
  | start index => exact hs.start hclear
  | progress index => exact hs.progress index
  | notify method user => exact hs.emit (by rfl) fun owner howner => by cases howner
  | finish index => exact hs.finish index
  | answer index => exact hs.answer hclear
  | take index => exact hs.take hclear
  | send index => exact hs.send index

end Steps

/-- In every run in which the requests in flight keep their numbers apart, a connection gets no
event that it did not ask for, and the progress of a job gets to the connection of its request
unless the buffer was overrun. -/
theorem progress_to_own_connection
    (capacity : Nat) (actions : List Action)
    (hclear : Runs.Along State.step (fun s action => Clear s action = true) (.start capacity) actions) :
    (∀ conn ∈ (Runs.run State.step (.start capacity) actions).conns,
        ∀ forward ∈ conn.sent, forward.asked = true) ∧
      ∀ event ∈ (Runs.run State.step (.start capacity) actions).emitted,
        ∀ owner, event.owner = some owner → ∀ conn,
          (Runs.run State.step (.start capacity) actions).conns[owner.conn]? = some conn →
            Placed conn event := by
  have hkept := Runs.run_invariant_along Kept (fun _ _ hclear hs => Kept.step hs hclear) actions
    _ hclear (kept_start capacity)
  refine ⟨fun conn hconn => ?_, hkept.placed⟩
  obtain ⟨index, hindex⟩ := List.mem_iff_getElem?.mp hconn
  exact (hkept.conns index conn hindex).sent

/-- Two connections number their requests alike, one after the other, and a third has
subscribed to everything. -/
def exampleTold : List Action :=
  [.connect, .connect, .connect, .listen 0, .listen 1, .listen 2, .subscribe 2 ["*"] none,
    .receive 0 (some 1), .start 0, .progress 0, .take 0, .notify "note" none, .take 1, .send 0,
    .take 0, .take 2, .finish 0, .take 1, .answer 0, .receive 1 (some 1), .start 1, .progress 1,
    .take 0, .take 1, .send 1, .send 2, .finish 1, .answer 1]

theorem progress_to_own_connection_told :
    ((Runs.run State.step (.start 4) exampleTold).conns.map fun conn =>
        conn.sent.map fun forward => forward.event.number) = [[0], [2], [0]] ∧
      ∀ conn ∈ (Runs.run State.step (.start 4) exampleTold).conns,
        ∀ forward ∈ conn.sent, forward.asked = true := by
  refine ⟨by decide +kernel, (progress_to_own_connection 4 exampleTold ?_).1⟩
  exact ⟨rfl, rfl, rfl, rfl, rfl, rfl, rfl, rfl, rfl, rfl, rfl, rfl, rfl, rfl, rfl, rfl, rfl, rfl, rfl,
    rfl, rfl, rfl, rfl, rfl, rfl, rfl, rfl, rfl, trivial⟩

/-- Two connections have a request in flight under one number: each is told of the progress of
the other. -/
theorem numbers_shared :
    ¬((∀ conn ∈ (Runs.run State.step (.start 4)
        [.connect, .connect, .listen 0, .listen 1, .receive 0 (some 1), .receive 1 (some 1), .start 0,
          .start 1, .progress 0, .take 1, .send 1]).conns,
        ∀ forward ∈ conn.sent, forward.asked = true) ∧
      ∀ event ∈ (Runs.run State.step (.start 4)
        [.connect, .connect, .listen 0, .listen 1, .receive 0 (some 1), .receive 1 (some 1), .start 0,
          .start 1, .progress 0, .take 1, .send 1]).emitted,
        ∀ owner, event.owner = some owner → ∀ conn,
          (Runs.run State.step (.start 4)
            [.connect, .connect, .listen 0, .listen 1, .receive 0 (some 1), .receive 1 (some 1),
              .start 0, .start 1, .progress 0, .take 1, .send 1]).conns[owner.conn]? = some conn →
            Placed conn event) := fun h => absurd h.1 (by decide +kernel)

end JobPushes
end WbfMatrixClient
