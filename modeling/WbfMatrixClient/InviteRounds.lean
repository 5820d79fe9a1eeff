import WbfMatrixClient.InviteRows

/-!
# Rounds of invitations and pushes

The invitations of an account change on the server. Each change is pushed, in order, and a round
brings all the invitations as they are at one moment of it. A push that comes while a round is open
is marked before it is written, and a round that is applied gives way to what is marked: what it
says of a room may be older than the push.
-/

namespace WbfMatrixClient
namespace InviteRounds

open InviteRows

/-- A change on the server, as it is pushed. -/
inductive Change where
  | push (is : Nat) (invite : InviteItem)
  | gone (is : Nat) (roomId : String) (membership : Membership)

namespace Change

def is : Change → Nat
  | push is _ => is
  | gone is _ _ => is

def room : Change → String
  | push _ invite => invite.roomId
  | gone _ roomId _ => roomId

def invites : Change → Bool
  | push _ _ => true
  | gone _ _ _ => false

/-- An invitation does not end as one. -/
def ends : Change → Bool
  | push _ _ => true
  | gone _ _ membership => membership ≠ .invite

end Change

/-- The last change of a room. -/
def lastOf (room : String) (log : List Change) : Option Change :=
  log.reverse.find? fun change => change.room = room

def serverInvites (log : List Change) (room : String) : Bool :=
  (lastOf room log).any Change.invites

/-- The pending invitations of the server with their counts, after a change. -/
def hold (held : List (Nat × InviteItem)) (change : Change) : List (Nat × InviteItem) :=
  let others := held.filter fun item => item.2.roomId ≠ change.room
  match change with
  | .push is invite => others ++ [(is, invite)]
  | .gone _ _ _ => others

def snapshotOf (log : List Change) : List (Nat × InviteItem) :=
  log.foldl hold []

/-- What pushes have touched since a round was opened. -/
structure OpenRound where
  callers : Nat
  /-- The newest push of each room; the first entry of a room counts. -/
  touched : List (String × Nat)

def beginRound (round : Option OpenRound) : OpenRound :=
  match round with
  | some round => { round with callers := round.callers + 1 }
  | none => { callers := 1, touched := [] }

def markTouched (round : Option OpenRound) (room : String) (is : Nat) : Option OpenRound :=
  round.map fun round =>
    { round with touched := (room, max ((round.touched.lookup room).getD is) is) :: round.touched }

def listTouched (round : Option OpenRound) : List (String × Nat) :=
  (round.map OpenRound.touched).getD []

/-- The guard of a round is dropped. -/
def leaveRound (round : Option OpenRound) : Option OpenRound :=
  round.bind fun round =>
    if round.callers - 1 = 0 then none else some { round with callers := round.callers - 1 }

/-- How far a call for a round is; what it is answered is the snapshot of the first changes. -/
inductive Call where
  | opened (since : Nat)
  | answered (since moment : Nat)
  | applied
  | left
deriving DecidableEq

structure State where
  log : List Change
  /-- The changes from before the subscription, which are not pushed. -/
  known : Nat
  /-- The changes that have been written, or were known. -/
  told : Nat
  /-- The next change has been marked. -/
  marked : Bool
  round : Option OpenRound
  calls : List Call
  cache : Cache
  /-- A round has been applied. -/
  synced : Bool

def State.start (log : List Change) (cache : Cache) : State :=
  { log := log, known := log.length, told := log.length, marked := false, round := none
    calls := [], cache := cache, synced := false }

inductive Action where
  | change (change : Change)
  | mark
  | write
  | begin
  | answer (call moment : Nat)
  | apply (call : Nat)
  | leave (call : Nat)

/-- A push is written. -/
def record (user : String) (cache : Cache) : Change → Cache
  | .push _ invite => Cache.writeInvite user cache invite
  | .gone _ roomId membership => (cache.recordMembership user roomId membership none).1

def State.step (user : String) (s : State) : Action → State
  | .change change =>
      if change.ends && s.log.all fun earlier => earlier.is < change.is then
        { s with log := s.log ++ [change] }
      else s
  | .mark =>
      match s.marked, s.log[s.told]? with
      | false, some change =>
          { s with marked := true, round := markTouched s.round change.room change.is }
      | _, _ => s
  | .write =>
      match s.marked, s.log[s.told]? with
      | true, some change =>
          { s with marked := false, told := s.told + 1, cache := record user s.cache change }
      | _, _ => s
  | .begin =>
      { s with round := some (beginRound s.round), calls := s.calls ++ [.opened s.log.length] }
  | .answer call moment =>
      match s.calls[call]? with
      | some (.opened since) =>
          if since ≤ moment ∧ moment ≤ s.log.length then
            { s with calls := s.calls.set call (.answered since moment) }
          else s
      | _ => s
  | .apply call =>
      match s.calls[call]? with
      | some (.answered _ moment) =>
          { s with
            cache := s.cache.applyInviteRound user (snapshotOf (s.log.take moment))
              (listTouched s.round) []
            calls := s.calls.set call .applied
            synced := true }
      | _ => s
  | .leave call =>
      match s.calls[call]? with
      | none => s
      | some .left => s
      | some _ => { s with round := leaveRound s.round, calls := s.calls.set call .left }

/-- The pushes that are marked. -/
def State.heard (s : State) : Nat :=
  s.told + s.marked.toNat

/-- All changes have been written, and no round is under way. -/
def Settled (s : State) : Prop :=
  s.told = s.log.length ∧ ∀ call ∈ s.calls, call = .applied ∨ call = .left

/-- The rooms that the account is invited to here are those on the server. -/
def Agrees (user : String) (cache : Cache) (log : List Change) : Prop :=
  ∀ room, membershipOf cache user room = some .invite ↔ serverInvites log room = true

section Server

variable {room : String} {log first second : List Change}

theorem lastOf_append :
    lastOf room (first ++ second) = (lastOf room second).or (lastOf room first) := by
  rw [lastOf, List.reverse_append, List.find?_append, lastOf, lastOf]

theorem lastOf_singleton {change : Change} :
    lastOf room [change] = if change.room = room then some change else none := by
  rw [lastOf, List.reverse_singleton, List.find?_singleton]
  simp

theorem mem_of_lastOf {change : Change} (h : lastOf room log = some change) :
    change ∈ log ∧ change.room = room := by
  rw [lastOf] at h
  exact ⟨List.mem_reverse.mp (List.mem_of_find?_eq_some h), by simpa using List.find?_some h⟩

/-- The snapshot has the invitations that are the last change of their room. -/
theorem mem_snapshotOf {is : Nat} {invite : InviteItem} :
    (is, invite) ∈ snapshotOf log ↔ lastOf invite.roomId log = some (.push is invite) := by
  induction log using List.reverseRecOn with
  | nil => exact ⟨fun h => (by cases h), fun h => (by cases h)⟩
  | append_singleton log change ih =>
    rw [snapshotOf, List.foldl_append, ← snapshotOf, List.foldl_cons, List.foldl_nil,
      lastOf_append, lastOf_singleton]
    by_cases hroom : change.room = invite.roomId
    · rw [if_pos hroom, Option.some_or]
      cases change with
      | push is' invite' =>
        have hsame : invite'.roomId = invite.roomId := hroom
        simp only [hold, Change.room, List.mem_append, List.mem_filter, List.mem_singleton,
          Prod.mk.injEq, Option.some.injEq, Change.push.injEq]
        refine ⟨fun h => ?_, fun h => Or.inr ⟨h.1.symm, h.2.symm⟩⟩
        rcases h with ⟨-, hne⟩ | ⟨his, hinvite⟩
        · simp [hsame] at hne
        · exact ⟨his.symm, hinvite.symm⟩
      | gone is' roomId membership =>
        have hsame : roomId = invite.roomId := hroom
        simp [hold, Change.room, hsame]
    · rw [if_neg hroom, Option.none_or, ← ih]
      cases change with
      | push is' invite' =>
        have hne : ¬invite'.roomId = invite.roomId := hroom
        simp only [hold, Change.room, List.mem_append, List.mem_filter, List.mem_singleton,
          Prod.mk.injEq]
        refine ⟨fun h => ?_, fun h => Or.inl ⟨h, decide_eq_true (Ne.symm hne)⟩⟩
        rcases h with ⟨hmem, -⟩ | ⟨-, hinvite⟩
        · exact hmem
        · exact (hne (by rw [hinvite])).elim
      | gone is' roomId membership =>
        have hne : ¬roomId = invite.roomId := hroom
        simp only [hold, Change.room, List.mem_filter]
        exact ⟨fun h => h.1, fun h => ⟨h, decide_eq_true (Ne.symm hne)⟩⟩

/-- A room is in the snapshot when the server has an invitation to it. -/
theorem mem_rooms_snapshotOf :
    room ∈ (snapshotOf log).map (fun item => item.2.roomId) ↔ serverInvites log room = true := by
  rw [List.mem_map, serverInvites]
  constructor
  · rintro ⟨⟨is, invite⟩, hitem, rfl⟩
    rw [mem_snapshotOf.mp hitem]
    rfl
  · intro h
    cases hlast : lastOf room log with
    | none =>
      rw [hlast] at h
      cases h
    | some change =>
      rw [hlast] at h
      have hroom := (mem_of_lastOf hlast).2
      cases change with
      | gone is roomId membership => cases h
      | push is invite =>
        refine ⟨(is, invite), mem_snapshotOf.mpr ?_, hroom⟩
        rw [show invite.roomId = room from hroom]
        exact hlast

end Server

end InviteRounds
end WbfMatrixClient
