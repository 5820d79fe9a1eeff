import WbfMatrixClient.InviteRounds

/-!
# Rounds and pushes agree with the server

A room that no push is still to come for is kept as the server has it, whatever rounds have been
applied: a round that has seen less than the pushes gives way to what they have touched, and what a
round has seen more of is pushed later.
-/

namespace WbfMatrixClient
namespace InviteRounds

open InviteRows State

/-- A change of the room is not among the first ones. -/
def ChangedFrom (log : List Change) (first : Nat) (room : String) : Prop :=
  ∃ index change, first ≤ index ∧ log[index]? = some change ∧ change.room = room

section Changes

variable {log : List Change} {first later : Nat} {room : String} {change : Change}

theorem ChangedFrom.mono (h : ChangedFrom log later room) (hle : first ≤ later) :
    ChangedFrom log first room := by
  obtain ⟨index, change, hindex, hchange, hroom⟩ := h
  exact ⟨index, change, hle.trans hindex, hchange, hroom⟩

theorem changedFrom_append (hle : first ≤ log.length) :
    ChangedFrom (log ++ [change]) first room ↔
      ChangedFrom log first room ∨ change.room = room := by
  constructor
  · rintro ⟨index, other, hindex, hother, hroom⟩
    by_cases hlt : index < log.length
    · rw [List.getElem?_append_left hlt] at hother
      exact Or.inl ⟨index, other, hindex, hother, hroom⟩
    · rw [List.getElem?_append_right (Nat.le_of_not_lt hlt)] at hother
      rw [← List.mem_singleton.mp (List.mem_of_getElem? hother)]
      exact Or.inr hroom
  · rintro (⟨index, other, hindex, hother, hroom⟩ | hroom)
    · have hlt := (List.getElem?_eq_some_iff.mp hother).1
      rw [← List.getElem?_append_left hlt] at hother
      exact ⟨index, other, hindex, hother, hroom⟩
    · exact ⟨log.length, change, hle, List.getElem?_concat_length, hroom⟩

theorem not_changedFrom_length : ¬ChangedFrom log log.length room := by
  rintro ⟨index, change, hindex, hchange, -⟩
  rw [List.getElem?_eq_none hindex] at hchange
  cases hchange

theorem changedFrom_succ (hchange : log[first]? = some change) :
    ChangedFrom log first room ↔ change.room = room ∨ ChangedFrom log (first + 1) room := by
  constructor
  · rintro ⟨index, other, hindex, hother, hroom⟩
    rcases Nat.eq_or_lt_of_le hindex with rfl | hlt
    · rw [hchange] at hother
      cases hother
      exact Or.inl hroom
    · exact Or.inr ⟨index, other, hlt, hother, hroom⟩
  · rintro (hroom | h)
    · exact ⟨first, change, Nat.le_refl first, hchange, hroom⟩
    · exact h.mono (Nat.le_succ first)

/-- The last change of a room is among the first ones when no other change is one of it. -/
theorem lastOf_take (h : ¬ChangedFrom log first room) :
    lastOf room (log.take first) = lastOf room log := by
  have hnone : lastOf room (log.drop first) = none := by
    rw [lastOf, List.find?_eq_none]
    intro change hmem hroom
    obtain ⟨index, hindex⟩ := List.getElem?_of_mem (List.mem_reverse.mp hmem)
    rw [List.getElem?_drop] at hindex
    exact h ⟨first + index, change, Nat.le_add_right first index, hindex, by simpa using hroom⟩
  conv_rhs => rw [← List.take_append_drop first log, lastOf_append, hnone, Option.none_or]

theorem serverInvites_take (h : ¬ChangedFrom log first room) :
    serverInvites (log.take first) room = serverInvites log room := by
  rw [serverInvites, lastOf_take h, serverInvites]

theorem serverInvites_append :
    serverInvites (log ++ [change]) room =
      if change.room = room then change.invites else serverInvites log room := by
  rw [serverInvites, lastOf_append, lastOf_singleton]
  split_ifs <;> rfl

/-- What the server says of a room after its last change. -/
theorem serverInvites_of_last (hchange : log[first]? = some change)
    (h : ¬ChangedFrom log (first + 1) change.room) :
    serverInvites log change.room = change.invites := by
  rw [← serverInvites_take h, List.take_add_one, hchange, Option.toList_some,
    serverInvites_append, if_pos rfl]

/-- An earlier change has been pushed under a smaller number. -/
theorem pushed_lt {before after : Nat} {earlier change : Change}
    (hincreasing : log.Pairwise fun earlier later => earlier.is < later.is)
    (hearlier : log[before]? = some earlier) (hchange : log[after]? = some change)
    (hlt : before < after) : earlier.is < change.is := by
  obtain ⟨hbefore, rfl⟩ := List.getElem?_eq_some_iff.mp hearlier
  obtain ⟨hafter, rfl⟩ := List.getElem?_eq_some_iff.mp hchange
  exact List.pairwise_iff_getElem.mp hincreasing before after hbefore hafter hlt

end Changes

section Writes

variable {user room : String} {cache : Cache}

theorem membershipOf_userRowId :
    membershipOf (cache.userRowId user) user room = membershipOf cache user room := by
  rw [membershipOf, userRowId_roomList, membershipOf]

/-- What a push makes of a room; an invitation that is gone leaves no invited room. -/
theorem membershipOf_record {change : Change} (hends : change.ends = true) :
    (membershipOf (record user cache change) user room = some .invite ↔
      if change.room = room then change.invites = true
      else membershipOf cache user room = some .invite) := by
  cases change with
  | push is invite =>
    rw [record, membershipOf_writeInvite]
    by_cases hroom : room = invite.roomId
    · rw [if_pos hroom, Change.room, if_pos hroom.symm]
      exact ⟨fun _ => rfl, fun _ => rfl⟩
    · rw [if_neg hroom, Change.room, if_neg (Ne.symm hroom)]
  | gone is roomId membership =>
    rw [record, membershipOf_recordMembership]
    have hne : membership ≠ .invite := by simpa [Change.ends] using hends
    by_cases hroom : room = roomId
    · rw [if_pos hroom, Change.room, if_pos hroom.symm]
      exact ⟨fun h => (hne (Option.some.inj h)).elim, fun h => (by cases h)⟩
    · rw [if_neg hroom, Change.room, if_neg (Ne.symm hroom)]

variable {round : List (Nat × InviteItem)} {touched : List (String × Nat)}

/-- A round that shows nothing new of a room that pushes have touched leaves it alone. -/
theorem membershipOf_apply_touched (htouched : touched.lookup room ≠ none)
    (hover : ∀ item ∈ round, item.2.roomId = room → overtaken touched item = true) :
    membershipOf (cache.applyInviteRound user round touched []) user room =
      membershipOf cache user room := by
  rw [membershipOf_applyInviteRound]
  dsimp only
  rw [if_neg fun h => htouched h.2.2, membershipOf_writeRound, membershipOf_userRowId]
  refine if_neg fun hany => ?_
  obtain ⟨item, hitem, hshown⟩ := List.any_eq_true.mp hany
  rw [Bool.and_eq_true, decide_eq_true_eq] at hshown
  rw [hover item hitem hshown.1] at hshown
  cases hshown.2

/-- An invitation that is written is not taken for one that has ended. -/
theorem membershipOf_apply_written {item : Nat × InviteItem} (hitem : item ∈ round)
    (hroom : item.2.roomId = room) (hover : overtaken touched item = false) :
    membershipOf (cache.applyInviteRound user round touched []) user room = some .invite := by
  rw [membershipOf_applyInviteRound]
  dsimp only
  have hmem : room ∈ round.map fun item => item.2.roomId := List.mem_map.mpr ⟨item, hitem, hroom⟩
  rw [if_neg fun h => h.2.1 hmem, membershipOf_writeRound, if_pos]
  exact List.any_eq_true.mpr ⟨item, hitem, by rw [hover, decide_eq_true hroom]; rfl⟩

/-- A room that no push has touched becomes what the round says. -/
theorem membershipOf_apply_untouched (htouched : touched.lookup room = none) :
    (membershipOf (cache.applyInviteRound user round touched []) user room = some .invite ↔
      room ∈ round.map fun item => item.2.roomId) := by
  constructor
  · intro hinvite
    by_contra hmem
    rw [membershipOf_applyInviteRound] at hinvite
    dsimp only at hinvite
    split_ifs at hinvite with hended
    · cases hinvite
    · exact hended ⟨hinvite, hmem, htouched⟩
  · intro hmem
    obtain ⟨item, hitem, hroom⟩ := List.mem_map.mp hmem
    refine membershipOf_apply_written hitem hroom ?_
    rw [overtaken, hroom, htouched]
    rfl

end Writes

/-- The changes from here on that have been heard are among what pushes have touched. -/
def Covered (s : State) (since : Nat) : Prop :=
  ∀ index change, since ≤ index → index < s.heard → s.log[index]? = some change →
    ∃ is, (listTouched s.round).lookup change.room = some is ∧ change.is ≤ is

/-- A call holds its round open until it is left. -/
def Call.isOpen : Call → Bool
  | .left => false
  | _ => true

def callersOf (round : Option OpenRound) : Nat :=
  (round.map OpenRound.callers).getD 0

/-- What an unfinished call has missed of the server has been touched since. -/
def Awaits (s : State) : Call → Prop
  | .opened since => s.known ≤ since ∧ since ≤ s.log.length ∧ Covered s since
  | .answered since moment =>
      s.known ≤ since ∧ since ≤ moment ∧ moment ≤ s.log.length ∧ Covered s since
  | .applied => True
  | .left => True

structure Kept (user : String) (agreed : Prop) (s : State) : Prop where
  increasing : s.log.Pairwise fun earlier later => earlier.is < later.is
  ends : ∀ change ∈ s.log, change.ends = true
  known_le : s.known ≤ s.told
  heard_le : s.heard ≤ s.log.length
  callers : s.calls.countP Call.isOpen = callersOf s.round
  held : ∀ round, s.round = some round → 0 < round.callers
  calls : ∀ call ∈ s.calls, Awaits s call
  touched : ∀ room, (listTouched s.round).lookup room ≠ none → ChangedFrom s.log s.known room
  agrees : ∀ room, ¬ChangedFrom s.log s.told room →
    (ChangedFrom s.log s.known room ∨ s.synced = true ∨ agreed) →
      (membershipOf s.cache user room = some .invite ↔ serverInvites s.log room = true)

section Steps

variable {user : String} {agreed : Prop} {s : State}

theorem Awaits.mono {s' : State} {call : Call} (h : Awaits s call) (hknown : s'.known = s.known)
    (hlog : s.log.length ≤ s'.log.length) (hcovered : ∀ since, Covered s since → Covered s' since) :
    Awaits s' call := by
  cases call with
  | opened since =>
    obtain ⟨hsince, hle, hcover⟩ := h
    exact ⟨hknown ▸ hsince, hle.trans hlog, hcovered since hcover⟩
  | answered since moment =>
    obtain ⟨hsince, hmoment, hle, hcover⟩ := h
    exact ⟨hknown ▸ hsince, hmoment, hle.trans hlog, hcovered since hcover⟩
  | applied | left => trivial

theorem Awaits.of_not_open {call : Call} (h : call.isOpen = false) : Awaits s call := by
  cases call with
  | left => trivial
  | _ => cases h

section

variable (h : Kept user agreed s)

include h

/-- Without a round no call is open. -/
theorem Kept.not_open (hround : s.round = none) : ∀ call ∈ s.calls, call.isOpen = false := by
  have hcount := h.callers
  rw [hround] at hcount
  intro call hcall
  exact Bool.not_eq_true _ ▸ List.countP_eq_zero.mp hcount call hcall

theorem Kept.told_le : s.told ≤ s.log.length :=
  (Nat.le_add_right s.told s.marked.toNat).trans h.heard_le

theorem Kept.change {change : Change} (hends : change.ends = true)
    (his : ∀ earlier ∈ s.log, earlier.is < change.is) :
    Kept user agreed { s with log := s.log ++ [change] } where
  increasing := by
    refine List.pairwise_append.mpr ⟨h.increasing, List.pairwise_singleton _ _, ?_⟩
    intro earlier hearlier later hlater
    rw [List.mem_singleton.mp hlater]
    exact his earlier hearlier
  ends := by
    intro other hother
    rcases List.mem_append.mp hother with hother | hother
    · exact h.ends other hother
    · rw [List.mem_singleton.mp hother]
      exact hends
  known_le := h.known_le
  heard_le := by
    rw [List.length_append]
    exact h.heard_le.trans (Nat.le_add_right _ _)
  callers := h.callers
  held := h.held
  calls := by
    intro call hcall
    refine (h.calls call hcall).mono rfl ?_ fun since hcovered index other hindex hlt hother => ?_
    · rw [List.length_append]
      exact Nat.le_add_right _ _
    · dsimp only at hother
      rw [List.getElem?_append_left (Nat.lt_of_lt_of_le hlt h.heard_le)] at hother
      exact hcovered index other hindex hlt hother
  touched := by
    intro room htouched
    exact (changedFrom_append (h.known_le.trans h.told_le)).mpr (Or.inl (h.touched room htouched))
  agrees := by
    intro room hstill hwhy
    dsimp only at hstill hwhy ⊢
    rw [changedFrom_append h.told_le, not_or] at hstill
    rw [changedFrom_append (h.known_le.trans h.told_le), or_iff_left hstill.2] at hwhy
    rw [serverInvites_append, if_neg hstill.2]
    exact h.agrees room hstill.1 hwhy

omit h in
theorem listTouched_markTouched {round : Option OpenRound} {room other : String} {is : Nat} :
    (listTouched (markTouched round room is)).lookup other =
      if round.isSome ∧ other = room then
        some (max (((listTouched round).lookup room).getD is) is)
      else (listTouched round).lookup other := by
  cases round with
  | none => rfl
  | some round =>
    simp only [markTouched, listTouched, Option.map_some, Option.getD_some, List.lookup_cons,
      Option.isSome_some, true_and]
    split_ifs with hroom
    · rw [beq_iff_eq.mpr hroom]
    · rw [beq_eq_false_iff_ne.mpr hroom]

theorem Kept.mark {change : Change} (hmarked : s.marked = false)
    (hchange : s.log[s.told]? = some change) :
    Kept user agreed
      { s with marked := true, round := markTouched s.round change.room change.is } where
  increasing := h.increasing
  ends := h.ends
  known_le := h.known_le
  heard_le := (List.getElem?_eq_some_iff.mp hchange).1
  callers := by
    refine h.callers.trans ?_
    cases hround : s.round <;> rfl
  held := by
    intro round hround
    obtain ⟨old, hold, rfl⟩ := Option.map_eq_some_iff.mp hround
    exact h.held old hold
  calls := by
    intro call hcall
    cases hround : s.round with
    | none => exact Awaits.of_not_open (h.not_open hround call hcall)
    | some round =>
      refine (h.calls call hcall).mono rfl (Nat.le_refl _) fun since hcovered => ?_
      intro index other hindex hlt hother
      dsimp only at hother ⊢
      rw [← hround, listTouched_markTouched, hround]
      by_cases hroom : other.room = change.room
      · rw [if_pos ⟨rfl, hroom⟩]
        refine ⟨_, rfl, ?_⟩
        by_cases hnow : index = s.told
        · rw [hnow, hchange] at hother
          cases hother
          exact Nat.le_max_right _ _
        · have hheard : index < s.heard := by
            rw [heard, hmarked]
            exact Nat.lt_of_le_of_ne (Nat.le_of_lt_succ hlt) hnow
          obtain ⟨is, his, hle⟩ := hcovered index other hindex hheard hother
          rw [hroom, hround] at his
          rw [his]
          exact hle.trans (Nat.le_max_left _ _)
      · rw [if_neg fun hsame => hroom hsame.2]
        have hnow : index ≠ s.told := by
          rintro rfl
          rw [hchange] at hother
          cases hother
          exact hroom rfl
        have hheard : index < s.heard := by
          rw [heard, hmarked]
          exact Nat.lt_of_le_of_ne (Nat.le_of_lt_succ hlt) hnow
        exact hround ▸ hcovered index other hindex hheard hother
  touched := by
    intro room htouched
    dsimp only at htouched
    rw [listTouched_markTouched] at htouched
    split_ifs at htouched with hroom
    · exact ⟨s.told, change, h.known_le, hchange, hroom.2.symm⟩
    · exact h.touched room htouched
  agrees := h.agrees

theorem Kept.write {change : Change} (hmarked : s.marked = true)
    (hchange : s.log[s.told]? = some change) :
    Kept user agreed
      { s with marked := false, told := s.told + 1, cache := record user s.cache change } where
  increasing := h.increasing
  ends := h.ends
  known_le := h.known_le.trans (Nat.le_succ s.told)
  heard_le := (List.getElem?_eq_some_iff.mp hchange).1
  callers := h.callers
  held := h.held
  calls := by
    intro call hcall
    refine (h.calls call hcall).mono rfl (Nat.le_refl _) fun since hcovered => ?_
    have hheard : s.heard = s.told + 1 := by
      rw [heard, hmarked]
      rfl
    intro index other hindex hlt hother
    exact hcovered index other hindex (hheard ▸ hlt) hother
  touched := h.touched
  agrees := by
    intro room hstill hwhy
    dsimp only at hstill hwhy ⊢
    rw [membershipOf_record (h.ends change (List.mem_of_getElem? hchange))]
    by_cases hroom : change.room = room
    · subst hroom
      rw [if_pos rfl, serverInvites_of_last hchange hstill]
    · rw [if_neg hroom]
      have hbefore : ¬ChangedFrom s.log s.told room := by
        rw [changedFrom_succ hchange, not_or]
        exact ⟨hroom, hstill⟩
      exact h.agrees room hbefore hwhy

end

variable {call : Nat} {old : Call}

/-- How many calls hold a round open after one of them has come further. -/
theorem countP_set_open {calls : List Call} {new : Call} (hcall : calls[call]? = some old)
    (hold : old.isOpen = true) :
    (calls.set call new).countP Call.isOpen + 1 =
      calls.countP Call.isOpen + if new.isOpen = true then 1 else 0 := by
  obtain ⟨hlt, hget⟩ := List.getElem?_eq_some_iff.mp hcall
  have hpos : 0 < calls.countP Call.isOpen :=
    List.countP_pos_iff.mpr ⟨old, List.mem_of_getElem? hcall, hold⟩
  rw [List.countP_set hlt, hget, if_pos hold]
  omega

section

variable (h : Kept user agreed s)

include h

theorem Kept.begin : Kept user agreed
      { s with round := some (beginRound s.round), calls := s.calls ++ [.opened s.log.length] } where
  increasing := h.increasing
  ends := h.ends
  known_le := h.known_le
  heard_le := h.heard_le
  callers := by
    have hcallers := h.callers
    rw [List.countP_append, hcallers]
    cases s.round <;> rfl
  held := by
    intro round hround
    cases hround
    cases s.round with
    | none => exact Nat.one_pos
    | some round => exact Nat.succ_pos round.callers
  calls := by
    intro call hcall
    rcases List.mem_append.mp hcall with hcall | hcall
    · cases hround : s.round with
      | none => exact Awaits.of_not_open (h.not_open hround call hcall)
      | some round =>
        refine (h.calls call hcall).mono rfl (Nat.le_refl _) fun since hcovered => ?_
        rw [Covered, hround] at hcovered
        exact hcovered
    · rw [List.mem_singleton.mp hcall]
      refine ⟨h.known_le.trans h.told_le, Nat.le_refl _, ?_⟩
      intro index change hindex hlt hchange
      exact (Nat.not_lt.mpr (h.heard_le.trans hindex) hlt).elim
  touched := by
    intro room htouched
    refine h.touched room fun hnone => htouched ?_
    cases hround : s.round with
    | none => rfl
    | some round =>
      rw [hround] at hnone
      exact hnone
  agrees := h.agrees

theorem Kept.advance {new : Call} (hcall : s.calls[call]? = some old) (hold : old.isOpen = true)
    (hnew : new.isOpen = true) (hawaits : Awaits s old → Awaits s new) :
    Kept user agreed { s with calls := s.calls.set call new } where
  increasing := h.increasing
  ends := h.ends
  known_le := h.known_le
  heard_le := h.heard_le
  callers := by
    have hcount : (s.calls.set call new).countP Call.isOpen + 1 =
        s.calls.countP Call.isOpen + if new.isOpen = true then 1 else 0 :=
      countP_set_open hcall hold
    rw [if_pos hnew] at hcount
    exact (Nat.succ.inj hcount).trans h.callers
  held := h.held
  calls := by
    intro other hother
    rcases List.mem_or_eq_of_mem_set hother with hother | rfl
    · exact h.calls other hother
    · exact hawaits (h.calls old (List.mem_of_getElem? hcall))
  touched := h.touched
  agrees := h.agrees

theorem Kept.leave (hcall : s.calls[call]? = some old) (hold : old.isOpen = true) :
    Kept user agreed
      { s with round := leaveRound s.round, calls := s.calls.set call .left } := by
  have hcount : (s.calls.set call .left).countP Call.isOpen + 1 = callersOf s.round :=
    (countP_set_open hcall hold).trans h.callers
  cases hround : s.round with
  | none =>
    rw [hround] at hcount
    cases hcount
  | some round =>
    have hcallers : (s.calls.set call .left).countP Call.isOpen + 1 = round.callers := by
      rw [hround] at hcount
      exact hcount
    have hmem : ∀ other ∈ s.calls.set call .left, other.isOpen = true → other ∈ s.calls := by
      intro other hother hopen
      rcases List.mem_or_eq_of_mem_set hother with hother | rfl
      · exact hother
      · cases hopen
    rw [leaveRound, Option.bind_some]
    by_cases hlast : round.callers - 1 = 0
    · rw [if_pos hlast]
      have hzero : (s.calls.set call .left).countP Call.isOpen = 0 := by omega
      exact
        { h with
          callers := hzero
          held := fun round hround => (by cases hround)
          calls := fun other hother => Awaits.of_not_open
            (Bool.not_eq_true _ ▸ List.countP_eq_zero.mp hzero other hother)
          touched := fun room htouched => (htouched rfl).elim }
    · rw [if_neg hlast]
      exact
        { h with
          callers := Nat.eq_sub_of_add_eq hcallers
          held := by
            intro other hother
            cases hother
            exact Nat.pos_of_ne_zero hlast
          calls := by
            intro other hother
            by_cases hopen : other.isOpen = true
            · refine (h.calls other (hmem other hother hopen)).mono rfl (Nat.le_refl _) ?_
              intro since hcovered
              rw [Covered, hround] at hcovered
              exact hcovered
            · exact Awaits.of_not_open (Bool.not_eq_true _ ▸ hopen)
          touched := by
            intro room htouched
            refine h.touched room fun hnone => htouched ?_
            rw [hround] at hnone
            exact hnone }

/-- A room that no push is still to come for is as the server has it after a round. -/
theorem Kept.agrees_apply {since moment : Nat} {room : String}
    (hawaits : Awaits s (.answered since moment)) (hstill : ¬ChangedFrom s.log s.told room) :
    (membershipOf (s.cache.applyInviteRound user (snapshotOf (s.log.take moment))
        (listTouched s.round) []) user room = some .invite ↔ serverInvites s.log room = true) := by
  obtain ⟨hsince, hmoment, hle, hcovered⟩ := hawaits
  by_cases hlater : ChangedFrom s.log moment room
  · -- A push has been heard that the snapshot is too old for.
    have hknown : ChangedFrom s.log s.known room := hlater.mono (hsince.trans hmoment)
    obtain ⟨index, change, hindex, hchange, rfl⟩ := hlater
    have htold : index < s.told := by
      by_contra hnot
      exact hstill ⟨index, change, Nat.le_of_not_lt hnot, hchange, rfl⟩
    obtain ⟨is, his, hnewer⟩ := hcovered index change (hmoment.trans hindex)
      (Nat.lt_of_lt_of_le htold (Nat.le_add_right _ _)) hchange
    rw [membershipOf_apply_touched (by rw [his]; exact Option.some_ne_none is)]
    · exact h.agrees change.room hstill (Or.inl hknown)
    · rintro ⟨count, invite⟩ hitem hroom
      have hshown := (mem_of_lastOf (mem_snapshotOf.mp hitem)).1
      have hbefore : count < change.is := by
        obtain ⟨earlier, hearlier⟩ := List.getElem?_of_mem hshown
        rw [List.getElem?_take] at hearlier
        split_ifs at hearlier with hlt
        exact pushed_lt h.increasing hearlier hchange (Nat.lt_of_lt_of_le hlt hindex)
      rw [overtaken, hroom, his]
      exact decide_eq_true (hbefore.le.trans hnewer)
  · -- The snapshot shows the last change of the room.
    rw [← serverInvites_take hlater]
    cases htouched : (listTouched s.round).lookup room with
    | none => rw [membershipOf_apply_untouched htouched, mem_rooms_snapshotOf]
    | some is =>
      have htouched' : (listTouched s.round).lookup room ≠ none := by
        rw [htouched]
        exact Option.some_ne_none is
      have hagrees := h.agrees room hstill (Or.inl (h.touched room htouched'))
      rw [← serverInvites_take hlater] at hagrees
      by_cases hover : ∀ item ∈ snapshotOf (s.log.take moment), item.2.roomId = room →
          overtaken (listTouched s.round) item = true
      · rw [membershipOf_apply_touched htouched' hover]
        exact hagrees
      · simp only [not_forall, Bool.not_eq_true] at hover
        obtain ⟨item, hitem, hroom, hover⟩ := hover
        refine iff_of_true (membershipOf_apply_written hitem hroom hover) ?_
        exact mem_rooms_snapshotOf.mp (List.mem_map.mpr ⟨item, hitem, hroom⟩)

theorem Kept.apply {since moment : Nat} (hcall : s.calls[call]? = some (.answered since moment)) :
    Kept user agreed
      { s with
        cache := s.cache.applyInviteRound user (snapshotOf (s.log.take moment))
          (listTouched s.round) []
        calls := s.calls.set call .applied
        synced := true } := by
  have hawaits := h.calls _ (List.mem_of_getElem? hcall)
  have hadvanced : Kept user agreed { s with calls := s.calls.set call .applied } :=
    h.advance hcall rfl rfl fun _ => trivial
  exact
    { hadvanced with
      agrees := fun room hstill _ => h.agrees_apply hawaits hstill }

end

theorem step_kept (action : Action) (h : Kept user agreed s) :
    Kept user agreed (s.step user action) := by
  cases action with
  | change change =>
    rw [step]
    split_ifs with hok
    · rw [Bool.and_eq_true, List.all_eq_true] at hok
      exact h.change hok.1 fun earlier hearlier => of_decide_eq_true (hok.2 earlier hearlier)
    · exact h
  | mark =>
    rw [step]
    split
    case h_1 change hmarked hchange => exact h.mark hmarked hchange
    case h_2 => exact h
  | write =>
    rw [step]
    split
    case h_1 change hmarked hchange => exact h.write hmarked hchange
    case h_2 => exact h
  | begin => exact h.begin
  | answer call moment =>
    rw [step]
    split
    case h_1 since hcall =>
      split_ifs with hmoment
      · refine h.advance hcall rfl rfl fun hawaits => ?_
        exact ⟨hawaits.1, hmoment.1, hmoment.2, hawaits.2.2⟩
      · exact h
    case h_2 => exact h
  | apply call =>
    rw [step]
    split
    case h_1 since moment hcall => exact h.apply hcall
    case h_2 => exact h
  | leave call =>
    rw [step]
    split
    case h_1 => exact h
    case h_2 => exact h
    case h_3 old hnot hcall =>
      refine h.leave hcall ?_
      cases old with
      | left => exact (hnot rfl).elim
      | _ => rfl

theorem start_kept {log : List Change} {cache : Cache}
    (hincreasing : log.Pairwise fun earlier later => earlier.is < later.is)
    (hends : ∀ change ∈ log, change.ends = true) :
    Kept user (Agrees user cache log) (start log cache) where
  increasing := hincreasing
  ends := hends
  known_le := Nat.le_refl _
  heard_le := Nat.le_refl _
  callers := rfl
  held := fun round hround => (by cases hround)
  calls := fun call hcall => (by cases hcall)
  touched := fun room htouched => (htouched rfl).elim
  agrees := by
    rintro room - (hchanged | hsynced | hagrees)
    · exact (not_changedFrom_length hchanged).elim
    · cases hsynced
    · exact hagrees room

end Steps

theorem run_kept {log : List Change} (user : String) (cache : Cache) (actions : List Action)
    (hincreasing : log.Pairwise fun earlier later => earlier.is < later.is)
    (hends : ∀ change ∈ log, change.ends = true) :
    Kept user (Agrees user cache log)
      (Runs.run (step user) (start log cache) actions) :=
  Runs.run_invariant (Kept user (Agrees user cache log)) (fun _ action h => step_kept action h)
    actions (start log cache) (start_kept hincreasing hends)

/-- When everything has been applied, the rooms that an account is invited to are those on the
server, if they were at first or a round has been applied. And whatever operations are run on the
rows, those with an invitation are of somebody who is invited. -/
theorem invites_converge (packages : CachePackages) (operations : List Operation) (user : String)
    (log : List Change) (cache : Cache) (actions : List Action)
    (hincreasing : log.Pairwise fun earlier later => earlier.is < later.is)
    (hends : ∀ change ∈ log, change.ends = true) :
    let s := Runs.run (State.step user) (State.start log cache) actions
    (Settled s → s.synced = true ∨ Agrees user cache log → Agrees user s.cache s.log) ∧
      Invited (Runs.run (Cache.step packages) Cache.empty operations).roomList := by
  have hkept := run_kept user cache actions hincreasing hends
  refine ⟨fun hsettled hwhy room => ?_, run_invited packages operations⟩
  refine hkept.agrees room ?_ (Or.inr hwhy)
  rw [hsettled.1]
  exact not_changedFrom_length

/-- An invitation that is pushed while a round that does not know of it is being answered. -/
theorem invites_converge_overtaken :
    let packages : CachePackages :=
      { content := { blockFromJson := fun _ => .error "", quoted := id }
        number := { parseU64 := fun _ => none, parseI64 := fun _ => none } }
    let invite : InviteItem :=
      { roomId := "!r", inviter := none, isDirect := false, reason := none, state := none }
    let actions : List Action :=
      [.begin, .answer 0 0, .change (.push 1 invite), .mark, .apply 0, .leave 0, .write]
    let s := Runs.run (State.step "@me") (State.start [] Cache.empty) actions
    membershipOf s.cache "@me" "!r" = some .invite ∧
      Invited (Runs.run (Cache.step packages) Cache.empty [.recordInvite "@me" invite]).roomList := by
  intro packages invite actions s
  obtain ⟨hconverges, hinvited⟩ := invites_converge packages [.recordInvite "@me" invite] "@me" []
    Cache.empty actions List.Pairwise.nil (fun change hchange => (by cases hchange))
  exact ⟨(hconverges ⟨rfl, by decide⟩ (.inl rfl) "!r").mpr rfl, hinvited⟩

end InviteRounds
end WbfMatrixClient
