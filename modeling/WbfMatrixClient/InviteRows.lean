import WbfMatrixClient.RoomEncryption

/-!
# Invitations in the room list

A row of the room list keeps an invitation only while its membership is that of somebody who is
invited. Here is also what each of the operations that invitations go through makes of the
membership of one room.
-/

namespace WbfMatrixClient
namespace InviteRows

open RoomEncryption Cache

/-- A row with an invitation is that of somebody who is invited. -/
def Invited (rows : List RoomListRow) : Prop :=
  ∀ row ∈ rows, row.invite.isSome = true → row.membership = .invite

section Rows

variable {rows : List RoomListRow} {f : RoomListRow → RoomListRow}

theorem Invited.map (h : Invited rows)
    (hf : ∀ row ∈ rows, (row.invite.isSome = true → row.membership = .invite) → (f
      row).invite.isSome = true → (f row).membership = .invite) : Invited (rows.map f) := by
  intro row hrow hinvite
  obtain ⟨old, hold, rfl⟩ := List.mem_map.mp hrow
  exact hf old hold (h old hold) hinvite

theorem Invited.update (h : Invited rows) (key : String × String)
    (hf : ∀ row, (row.invite.isSome = true → row.membership = .invite) → (f row).invite.isSome =
      true → (f row).membership = .invite) : Invited (Table.update RoomListRow.key rows key f) := by
  refine h.map fun row _ hrow hinvite => ?_
  by_cases hkey : row.key = key
  · rw [if_pos hkey] at hinvite ⊢
    exact hf row hrow hinvite
  · rw [if_neg hkey] at hinvite ⊢
    exact hrow hinvite

theorem Invited.filter (h : Invited rows) (p : RoomListRow → Bool) : Invited (rows.filter p) :=
  fun row hrow => h row (List.mem_of_mem_filter hrow)

theorem Invited.upsert {new : RoomListRow} (h : Invited rows)
    (hnew : new.invite.isSome = true → new.membership = .invite)
    (hf : ∀ row, (row.invite.isSome = true → row.membership = .invite) → (f row).invite.isSome =
      true → (f row).membership = .invite) : Invited (upsertRoomListRow rows new f) := by
  rw [upsertRoomListRow]
  cases Table.find RoomListRow.key rows new.key with
  | none =>
    intro row hrow
    rcases List.mem_append.mp hrow with hrow | hrow
    · exact h row hrow
    · rw [List.mem_singleton.mp hrow]
      exact hnew
  | some found => exact h.update new.key hf

end Rows

/-- The rows of invitations stay right. -/
def Keeps (a b : Cache) : Prop :=
  Invited a.roomList → Invited b.roomList

namespace Keeps

variable {a b c : Cache}

theorem refl (a : Cache) : Keeps a a := id

theorem trans (h : Keeps a b) (h' : Keeps b c) : Keeps a c := h' ∘ h

theorem of_same (h : b.roomList = a.roomList) : Keeps a b := by
  rw [Keeps, h]
  exact id

theorem foldl {ι : Type} {f : Cache → ι → Cache} (hf : ∀ cache i, Keeps cache (f cache i))
    (items : List ι) (cache : Cache) :
    Keeps cache (items.foldl f cache) :=
  List.foldlRecOn items f (refl cache) fun reached hreached i _ => hreached.trans (hf reached i)

end Keeps

section Operations

variable {cache : Cache}

@[simp]
theorem userRowId_roomList (mxid : String) : (cache.userRowId mxid).roomList = cache.roomList := by
  rw [userRowId]
  split_ifs <;> rfl

@[simp]
theorem roomRowId_roomList (roomId : String) :
    (cache.roomRowId roomId).roomList = cache.roomList := by
  rw [roomRowId]
  split_ifs <;> rfl

theorem upsertEvent_roomList {packages : ContentPackages} {user room : String}
    {incoming : IncomingEvent} {result : Cache × Bool}
    (h : upsertEvent packages user room cache incoming = some result) :
    result.1.roomList = cache.roomList := by
  obtain ⟨_, rfl⟩ | ⟨eventId, sender, stored, _, hstored, rfl⟩ := upsertEvent_cases h
  · rfl
  · have hsame : stored.roomList = (cache.userRowId sender).roomList :=
      (congrArg roomList (storeEvent_tables hstored) :)
    rw [userRowId_roomList] at hsame
    rw [← hsame, logSynced, markEncrypted]
    split_ifs <;> rfl

theorem upsertEvents_roomList {packages : ContentPackages} {user room : String}
    {events : List IncomingEvent} :
    (upsertEvents packages user room cache events).roomList = cache.roomList := by
  refine upsertEvents_induction (motive := fun reached => reached.roomList = cache.roomList)
    (fun _ _ _ _ hone hreached => (upsertEvent_roomList hone).trans hreached) ?_ rfl
  rw [roomRowId_roomList, userRowId_roomList]

theorem upsertConversation_keeps (user : String) (cache : Cache) (conversation : Conversation) :
    Keeps cache (upsertConversation user cache conversation) := by
  intro h
  have hrows : Invited (cache.roomRowId conversation.id).roomList := by
    rw [roomRowId_roomList]
    exact h
  exact hrows.upsert nofun fun row hrow hinvite => hrow hinvite

theorem recordJoinedRoom_keeps (user : String) (cache : Cache) (roomId : String) :
    Keeps cache (recordJoinedRoom user cache roomId) := by
  intro h
  have hrows : Invited (cache.roomRowId roomId).roomList := by
    rw [roomRowId_roomList]
    exact h
  exact hrows.upsert nofun fun row _ hinvite => (by cases hinvite)

/-- Who is no longer in the list of joined rooms has had no invitation in the row. -/
theorem recordJoinedRooms_keeps (cache : Cache) (user : String) (roomIds : List String) :
    Keeps cache (cache.recordJoinedRooms user roomIds) := by
  refine Keeps.trans (Keeps.of_same (userRowId_roomList user)) (Keeps.trans
    (Keeps.foldl (recordJoinedRoom_keeps user) roomIds _) fun h => ?_)
  refine h.map fun row _ hrow hinvite => ?_
  split_ifs at hinvite ⊢ with hleft
  · have hjoined := hrow hinvite
    rw [hleft.2.1] at hjoined
    cases hjoined
  · exact hrow hinvite

theorem recordMembership_keeps (cache : Cache) (user roomId : String) (membership : Membership)
    (onlyIfNow : Option Membership) :
    Keeps cache (cache.recordMembership user roomId membership onlyIfNow).1 := by
  intro h
  have hrows : Invited ((cache.userRowId user).roomRowId roomId).roomList := by
    rw [roomRowId_roomList, userRowId_roomList]
    exact h
  have hchange : ∀ row : RoomListRow,
      (if membership = .invite then row.invite else none).isSome = true →
        membership = .invite := by
    intro row hinvite
    by_contra hnot
    rw [if_neg hnot] at hinvite
    cases hinvite
  cases onlyIfNow with
  | none => exact hrows.upsert nofun fun row _ hinvite => hchange row hinvite
  | some now =>
    refine hrows.update (roomId, user) fun row hrow hinvite => ?_
    by_cases hnow : row.membership = now
    · rw [if_pos hnow] at hinvite ⊢
      exact hchange row hinvite
    · rw [if_neg hnow] at hinvite ⊢
      exact hrow hinvite

theorem writeInvite_keeps (user : String) (cache : Cache) (invite : InviteItem) :
    Keeps cache (writeInvite user cache invite) := by
  intro h
  have hrows : Invited ((cache.userRowId user).roomRowId invite.roomId).roomList := by
    rw [roomRowId_roomList, userRowId_roomList]
    exact h
  exact hrows.upsert (fun _ => rfl) fun _ _ _ => rfl

theorem applyInviteRound_keeps (cache : Cache) (user : String) (round : List (Nat × InviteItem))
    (touched : List (String × Nat)) (departed : List (String × Membership)) :
    Keeps cache (cache.applyInviteRound user round touched departed) := by
  have hwrite : ∀ (cache : Cache) (item : Nat × InviteItem), Keeps cache
      (if (touched.lookup item.2.roomId).any fun pushed => item.1 ≤ pushed then cache
        else writeInvite user cache item.2) := by
    intro cache item
    split_ifs
    · exact Keeps.refl cache
    · exact writeInvite_keeps user cache item.2
  refine Keeps.trans (Keeps.of_same (userRowId_roomList user)) (Keeps.trans
    (Keeps.foldl hwrite round _) fun h => ?_)
  refine h.map fun row _ hrow hinvite => ?_
  split_ifs at hinvite ⊢
  · cases hinvite
  · exact hrow hinvite

theorem recordWrittenState_keeps (packages : NumberPackages) (cache : Cache) (user roomId : String)
    (written : Json) : Keeps cache (cache.recordWrittenState packages user roomId written).1 := by
  rw [recordWrittenState]
  generalize hmarked : (if isEncryptionEvent written then
    { (cache.userRowId user).roomRowId roomId with
      rooms := Table.update RoomRow.roomId ((cache.userRowId user).roomRowId roomId).rooms roomId
        fun row => { row with encrypted := some true } }
    else (cache.userRowId user).roomRowId roomId) = marked
  have hsame : marked.roomList = cache.roomList := by
    rw [← hmarked, apply_ite roomList, ite_self, roomRowId_roomList, userRowId_roomList]
  refine (Keeps.of_same hsame).trans ?_
  split
  · exact fun h => h.update (roomId, user) fun row hrow hinvite => hrow hinvite
  · exact Keeps.refl marked

theorem forgetAccount_keeps (cache : Cache) (user : String) :
    Keeps cache (cache.forgetAccount user).1 := by
  intro h
  rw [forgetAccount]
  split_ifs
  · exact h.filter _
  · exact h

theorem forgetRoom_keeps (cache : Cache) (user room : String) :
    Keeps cache (cache.forgetRoom user room).1 := by
  intro h
  rw [forgetRoom]
  dsimp only
  split_ifs
  all_goals first
    | exact h
    | exact h.filter _
    | exact (h.filter _).filter _

theorem step_keeps (packages : CachePackages) (cache : Cache) (operation : Operation) :
    Keeps cache (cache.step packages operation) := by
  have hmedia (h : operation.onMedia = true) : Keeps cache (cache.step packages operation) :=
    Keeps.of_same (congrArg roomList (step_onMedia packages cache h) :)
  cases operation with
  | upsertEvents user room events => exact Keeps.of_same upsertEvents_roomList
  | mediaBegin mxc description | mediaRememberSource manifest sourceUri => exact hmedia rfl
  | mediaLinkEvent user room eventId => exact hmedia rfl
  | upsertConversations user conversations =>
    exact (Keeps.of_same (userRowId_roomList user)).trans
      (Keeps.foldl (upsertConversation_keeps user) conversations _)
  | recordJoinedRooms user roomIds => exact recordJoinedRooms_keeps cache user roomIds
  | recordRoomEncryption roomId encrypted => exact Keeps.of_same (roomRowId_roomList roomId)
  | recordMembership user roomId membership onlyIfNow =>
    exact recordMembership_keeps cache user roomId membership onlyIfNow
  | recordInvite user invite => exact writeInvite_keeps user cache invite
  | applyInviteRound user round touched departed =>
    exact applyInviteRound_keeps cache user round touched departed
  | recordWrittenState user roomId written =>
    exact recordWrittenState_keeps packages.number cache user roomId written
  | forgetAccount user => exact forgetAccount_keeps cache user
  | forgetRoom user room => exact forgetRoom_keeps cache user room
  | _ => exact Keeps.of_same rfl

theorem run_invited (packages : CachePackages) (operations : List Operation) :
    Invited (Runs.run (step packages) empty operations).roomList := by
  have hstep : ∀ (cache : Cache) (operation : Operation), Invited cache.roomList →
      Invited (cache.step packages operation).roomList :=
    fun cache operation => step_keeps packages cache operation
  have hempty : Invited empty.roomList := fun row hrow => (by cases hrow)
  exact Runs.run_invariant (fun cache : Cache => Invited cache.roomList) hstep operations
    empty hempty

end Operations

/-- What the room list says an account is in a room. -/
def membershipOf (cache : Cache) (user room : String) : Option Membership :=
  (Table.find RoomListRow.key cache.roomList (room, user)).map RoomListRow.membership

section Memberships

variable {cache : Cache} {user room : String}

theorem find_upsert {rows : List RoomListRow} {new : RoomListRow} {f : RoomListRow → RoomListRow}
    (hkey : ∀ row, (f row).key = row.key) (hf : ∀ row, (f row).membership = new.membership)
    (key : String × String) :
    (Table.find RoomListRow.key (upsertRoomListRow rows new f) key).map
        RoomListRow.membership =
      if key = new.key then some new.membership
      else (Table.find RoomListRow.key rows key).map RoomListRow.membership := by
  rw [upsertRoomListRow]
  cases hfound : Table.find RoomListRow.key rows new.key with
  | none =>
    simp only [Table.find_append]
    by_cases hsame : key = new.key
    · rw [if_pos hsame, if_pos hsame.symm, hsame, hfound]
      rfl
    · rw [if_neg hsame, if_neg (Ne.symm hsame), Option.or_none]
  | some found =>
    simp only
    split_ifs with hsame
    · rw [hsame, Table.find_update_self hkey, hfound, Option.map_some, Option.map_some, hf]
    · rw [Table.find_update_ne hkey hsame]

theorem membershipOf_writeInvite (invite : InviteItem) :
    membershipOf (writeInvite user cache invite) user room =
      if room = invite.roomId then some .invite else membershipOf cache user room := by
  rw [membershipOf, writeInvite]
  dsimp only
  rw [find_upsert, roomRowId_roomList, userRowId_roomList]
  · exact if_congr ⟨fun h => congrArg Prod.fst h, fun h => by rw [h]; rfl⟩ rfl rfl
  · exact fun _ => rfl
  · exact fun _ => rfl

theorem membershipOf_recordMembership (roomId : String) (membership : Membership) :
    membershipOf (cache.recordMembership user roomId membership none).1 user room =
      if room = roomId then some membership else membershipOf cache user room := by
  rw [membershipOf, recordMembership]
  dsimp only
  rw [find_upsert, roomRowId_roomList, userRowId_roomList]
  · exact if_congr ⟨fun h => congrArg Prod.fst h, fun h => by rw [h]; rfl⟩ rfl rfl
  · exact fun _ => rfl
  · exact fun _ => rfl

/-- An invitation of a round is not written when a push has overtaken it. -/
def overtaken (touched : List (String × Nat)) (item : Nat × InviteItem) : Bool :=
  (touched.lookup item.2.roomId).any fun pushed => item.1 ≤ pushed

/-- The rows after the invitations of a round have been written. -/
def writeRound (user : String) (touched : List (String × Nat)) (round : List (Nat × InviteItem))
    (cache : Cache) : Cache :=
  round.foldl (fun cache (count, invite) =>
    if (touched.lookup invite.roomId).any fun pushed => count ≤ pushed then cache
    else writeInvite user cache invite) cache

theorem membershipOf_writeRound (touched : List (String × Nat)) (round : List (Nat × InviteItem))
    (cache : Cache) :
    membershipOf (writeRound user touched round cache) user room =
      if round.any fun item => item.2.roomId = room && !overtaken touched item then some .invite
      else membershipOf cache user room := by
  induction round generalizing cache with
  | nil => rfl
  | cons first rest ih =>
    obtain ⟨count, invite⟩ := first
    rw [writeRound, List.foldl_cons, ← writeRound, ih, List.any_cons]
    have hskip : ((touched.lookup invite.roomId).any fun pushed => decide (count ≤ pushed)) =
        overtaken touched (count, invite) :=
      rfl
    simp only [hskip]
    by_cases hover : overtaken touched (count, invite) = true
    · rw [if_pos hover, hover, Bool.not_true, Bool.and_false, Bool.false_or]
    · rw [if_neg hover, membershipOf_writeInvite]
      rw [Bool.not_eq_true] at hover
      rw [hover, Bool.not_false, Bool.and_true]
      by_cases hroom : room = invite.roomId
      · rw [if_pos hroom, ite_self, decide_eq_true hroom.symm, Bool.true_or, if_pos rfl]
      · rw [if_neg hroom, decide_eq_false (Ne.symm hroom), Bool.false_or]

/-- What a round makes of the membership of a room. -/
theorem membershipOf_applyInviteRound (cache : Cache) (round : List (Nat × InviteItem))
    (touched : List (String × Nat)) :
    membershipOf (cache.applyInviteRound user round touched []) user room =
      let written := membershipOf (writeRound user touched round (cache.userRowId user)) user room
      if written = some .invite ∧ room ∉ (round.map fun item => item.2.roomId)
          ∧ touched.lookup room = none then some .leave
      else written := by
  have hkey : ∀ row : RoomListRow, (if row.user = user ∧ row.membership = .invite
        ∧ row.room ∉ (round.map fun item => item.2.roomId) ∧ touched.lookup row.room = none then
      { row with
        membership := ((([] : List (String × Membership)).lookup row.room).filter
          fun membership => membership ≠ .invite).getD .leave
        invite := none }
      else row).key = row.key := by
    intro row
    split_ifs <;> rfl
  rw [membershipOf, applyInviteRound]
  dsimp only
  rw [Table.find_map hkey, ← writeRound, membershipOf]
  cases hfound : Table.find RoomListRow.key
      (writeRound user touched round (cache.userRowId user)).roomList (room, user) with
  | none => rfl
  | some row =>
    have hrow := (Table.mem_of_find hfound).2
    have hroom : row.room = room := congrArg Prod.fst hrow
    have huser : row.user = user := congrArg Prod.snd hrow
    simp only [Option.map_some, Option.some.injEq, huser, hroom, true_and]
    split_ifs <;> rfl

end Memberships

end InviteRows
end WbfMatrixClient
