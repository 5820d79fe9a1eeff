import WbfMatrixClient.RoomState

/-!
# State events that an account writes

What is seen of a room is computed from its whole state, or, after the account
has written a state event, from what was seen before. The second way does not
know the members any more. Here is the first way, and that the two agree: after
any list of written events what is seen is what the whole state gives. Only a
name that was made of the members is lost with a name that the room had given
itself.
-/

namespace WbfMatrixClient
namespace RoomStateWrites

/-- The events without those about members, in their order. -/
def listNonMemberState (state : List Json) : List Json :=
  state.filter fun event => ¬isMemberEvent event

/-- A name for a room that has none: up to three of the others who are there or
invited. -/
def nameFromMembers (state : List Json) (me : String) : Option String :=
  let memberships := state.filter fun event => isMemberEvent event ∧
    (((event.get "content").bind fun content => content.text "membership") = some "join" ∨
      ((event.get "content").bind fun content => content.text "membership") = some "invite")
  let names := (memberships.filterMap fun event =>
    (event.text "state_key").bind fun user =>
      if user = me then none
      else some ((nonemptyText (event.get "content") "displayname").getD user)).insertionSort
        (· ≤ ·)
  if names = [] then none
  else
    let others := names.length - 3
    let name := String.intercalate ", " (names.take 3)
    some (if 0 < others then name ++ " and " ++ toString others ++ " others" else name)

def joinedCount (state : List Json) : Nat :=
  state.countP fun event => isMemberEvent event ∧
    ((event.get "content").bind fun content => content.text "membership") = some "join"

/-- What is seen of a room, from its whole state. -/
def conversationFromState (packages : NumberPackages) (roomId me : String) (state : List Json)
    (directPeers : List String) : Except SdkError Conversation :=
  describe packages roomId me (listNonMemberState state) (joinedCount state) directPeers
    (nameFromMembers state me)

/-- The two events stand in one place of the state. -/
def samePlace (event written : Json) : Bool :=
  event.text "type" = written.text "type" ∧ event.text "state_key" = written.text "state_key"

/-- The state with the event in the place of the one with its type and its key. -/
def putInPlace (written : Json) : List Json → List Json
  | [] => [written]
  | event :: rest =>
      if samePlace event written then written :: rest.filter fun other => ¬samePlace other written
      else event :: putInPlace written rest

/-- An event that the account may write as state: it has a type and a key, and is about no
member. -/
structure Writable (written : Json) : Prop where
  hasType : (written.text "type").isSome
  hasKey : (written.text "state_key").isSome
  notMember : isMemberEvent written = false

/-- What is seen after the events have been written one after the other. -/
def writeEach (packages : NumberPackages) (me : String) :
    (writes : List Json) → Conversation → Except SdkError (Option Conversation)
  | [], conversation => .ok (some conversation)
  | written :: writes, conversation =>
      match conversationWithStateEvent packages conversation me written with
      | .error e => .error e
      | .ok none => .ok none
      | .ok (some conversation) => writeEach packages me writes conversation

/-- The state after the events have been written one after the other. -/
def stateAfter (state : List Json) (writes : List Json) : List Json :=
  writes.foldl (fun state written => putInPlace written state) state

/-- The room has given itself a name at the start or after one of the writes. -/
def EverNamed (state : List Json) (writes : List Json) : Prop :=
  ∃ before after, writes = before ++ after ∧ (explicitName (stateAfter state before)).isSome

section Places

variable {state : List Json} {written : Json}

/-- The event stands once, among the events that stand elsewhere. -/
theorem putInPlace_eq (written : Json) (state : List Json) :
    ∃ before after, putInPlace written state = before ++ written :: after ∧
      before ++ after = state.filter fun event => ¬samePlace event written := by
  induction state with
  | nil => exact ⟨[], [], rfl, rfl⟩
  | cons event rest ih =>
    rw [putInPlace]
    by_cases hsame : samePlace event written = true
    · refine ⟨[], rest.filter fun other => ¬samePlace other written, if_pos hsame, ?_⟩
      rw [List.filter_cons_of_neg (by simp [hsame])]
      rfl
    · obtain ⟨before, after, hput, hothers⟩ := ih
      refine ⟨event :: before, after, ?_, ?_⟩
      · rw [if_neg hsame, hput]
        rfl
      · rw [List.filter_cons_of_pos (by simp [hsame]), ← hothers]
        rfl

/-- The event is at this place. -/
def IsAt (event : Json) (eventType stateKey : String) : Prop :=
  event.text "type" = some eventType ∧ event.text "state_key" = some stateKey

instance (event : Json) (eventType stateKey : String) :
    Decidable (IsAt event eventType stateKey) :=
  inferInstanceAs (Decidable (_ ∧ _))

theorem findState_eq (state : List Json) (eventType stateKey : String) :
    findState state eventType stateKey =
      state.reverse.find? fun event => IsAt event eventType stateKey := by
  rw [findState]
  rfl

theorem samePlace_of_isAt {event : Json} {eventType stateKey : String}
    (hwritten : IsAt written eventType stateKey) (hevent : IsAt event eventType stateKey) :
    samePlace event written = true := by
  rw [samePlace, decide_eq_true_eq]
  exact ⟨hevent.1.trans hwritten.1.symm, hevent.2.trans hwritten.2.symm⟩

theorem isAt_of_samePlace {event : Json} {eventType stateKey : String}
    (hsame : samePlace event written = true) (hevent : IsAt event eventType stateKey) :
    IsAt written eventType stateKey := by
  rw [samePlace, decide_eq_true_eq] at hsame
  exact ⟨hsame.1.symm.trans hevent.1, hsame.2.symm.trans hevent.2⟩

/-- A written event is found at its place, and all others where they were. -/
theorem findState_placed {before after : List Json}
    (hothers : before ++ after = state.filter fun event => ¬samePlace event written)
    (eventType stateKey : String) :
    findState (before ++ written :: after) eventType stateKey =
      if IsAt written eventType stateKey then some written
      else findState state eventType stateKey := by
  have hapart : ∀ event ∈ before ++ after, samePlace event written = false := by
    intro event hevent
    rw [hothers, List.mem_filter] at hevent
    simpa using hevent.2
  rw [findState_eq, List.reverse_append, List.reverse_cons, List.append_assoc, List.find?_append,
    List.find?_append]
  split_ifs with hat
  · have hnone : (after.reverse.find? fun event => IsAt event eventType stateKey) = none := by
      rw [List.find?_eq_none]
      intro event hevent
      have hevent' : event ∈ before ++ after :=
        List.mem_append_right before (List.mem_reverse.mp hevent)
      rw [decide_eq_true_eq]
      intro hfound
      have hsame := samePlace_of_isAt hat hfound
      rw [hapart event hevent'] at hsame
      cases hsame
    rw [hnone, Option.none_or, List.find?_singleton, if_pos (by simpa using hat)]
    rfl
  · rw [List.find?_singleton, if_neg (by simpa using hat), Option.none_or, ← List.find?_append,
      ← List.reverse_append, hothers, findState_eq, ← List.filter_reverse, List.find?_filter]
    congr 1
    funext event
    by_cases hevent : IsAt event eventType stateKey
    · have hnot : ¬samePlace event written = true := fun hsame =>
        hat (isAt_of_samePlace hsame hevent)
      simp [hevent, hnot]
    · simp [hevent]

end Places

/-- The same events, and the same event at every place. -/
structure Agree (state state' : List Json) : Prop where
  perm : state.Perm state'
  found : ∀ eventType stateKey,
    findState state eventType stateKey = findState state' eventType stateKey

section Agreement

variable {state state' : List Json} {written : Json}

theorem Agree.refl (state : List Json) : Agree state state := ⟨List.Perm.refl state, fun _ _ => rfl⟩

/-- Two states that agree agree when an event is put in its place in both of them. -/
theorem Agree.placed (h : Agree state state') {before after before' after' : List Json}
    (hothers : before ++ after = state.filter fun event => ¬samePlace event written)
    (hothers' : before' ++ after' = state'.filter fun event => ¬samePlace event written) :
    Agree (before ++ written :: after) (before' ++ written :: after') := by
  constructor
  case perm =>
    have hfiltered : (before ++ after).Perm (before' ++ after') := by
      rw [hothers, hothers']
      exact h.perm.filter _
    exact List.perm_middle.trans ((hfiltered.cons written).trans List.perm_middle.symm)
  case found =>
    intro eventType stateKey
    rw [findState_placed hothers, findState_placed hothers', h.found]

theorem explicitName_congr
    (hname : findState state "m.room.name" "" = findState state' "m.room.name" "")
    (halias : findState state "m.room.canonical_alias" "" = findState state'
      "m.room.canonical_alias" "") : explicitName state = explicitName state' := by
  rw [explicitName, explicitName]
  simp only [hname, halias]

/-- Of the state only the events at their places count. -/
theorem describe_congr (packages : NumberPackages) (roomId me : String) (memberCount : Nat)
    (directPeers : List String) (membersName : Option String) (h : Agree state state') :
    describe packages roomId me state memberCount directPeers membersName =
      (describe packages roomId me state' memberCount directPeers membersName).map fun whole =>
        { whole with state := some state } := by
  rw [describe, describe, h.found, explicitName_congr (h.found ..) (h.found ..)]
  simp only [h.found]
  cases findState state' "m.room.create" "" <;> rfl

/-- Only the name that the members give can change the name. -/
theorem describe_name (packages : NumberPackages) (roomId me : String) (state : List Json)
    (memberCount : Nat) (directPeers : List String) (membersName membersName' : Option String) :
    describe packages roomId me state memberCount directPeers membersName =
      (describe packages roomId me state memberCount directPeers membersName').map fun whole =>
        { whole with name := (explicitName state).or membersName } := by
  rw [describe, describe]
  cases findState state "m.room.create" "" <;> rfl

/-- Of the peers only the first one counts, and whether the room is a direct one. -/
theorem describe_peers (packages : NumberPackages) (roomId me : String) (state : List Json)
    (memberCount : Nat) {directPeers directPeers' : List String} (membersName : Option String)
    (hdirect : (directPeers' ≠ [] ∧ memberCount = 2) ↔ (directPeers ≠ [] ∧ memberCount = 2))
    (hfirst : directPeers ≠ [] → memberCount = 2 → directPeers'.head? = directPeers.head?) :
    describe packages roomId me state memberCount directPeers' membersName =
      describe packages roomId me state memberCount directPeers membersName := by
  rw [describe, describe]
  cases findState state "m.room.create" "" with
  | none => rfl
  | some create =>
    simp only [hdirect]
    by_cases h : directPeers ≠ [] ∧ memberCount = 2
    · rw [hfirst h.1 h.2]
    · simp [h]

end Agreement

section Members

variable {state : List Json} {written : Json}

section

variable (hwritable : Writable written)

include hwritable

theorem samePlace_of_member {event : Json} (hmember : isMemberEvent event = true) :
    samePlace event written = false := by
  refine decide_eq_false ?_
  rintro ⟨htype, _⟩
  have hwritten : isMemberEvent written = true := by
    rw [isMemberEvent, decide_eq_true_eq, ← htype]
    exact of_decide_eq_true hmember
  rw [hwritable.notMember] at hwritten
  cases hwritten

/-- Events about members stay when an event is put in its place. -/
theorem filter_member_putInPlace (state : List Json) {p : Json → Bool}
    (hp : ∀ event, p event = true → isMemberEvent event = true) :
    (putInPlace written state).filter p = state.filter p := by
  have hwritten : p written = false := by
    refine Bool.eq_false_of_not_eq_true fun h => ?_
    have hmember := hp written h
    rw [hwritable.notMember] at hmember
    cases hmember
  obtain ⟨before, after, hput, hothers⟩ := putInPlace_eq written state
  rw [hput, List.filter_append, List.filter_cons_of_neg (by simp [hwritten]),
    ← List.filter_append, hothers, List.filter_filter]
  congr 1
  funext event
  by_cases h : p event = true
  · simp [h, samePlace_of_member hwritable (hp event h)]
  · simp [h]

theorem joinedCount_putInPlace : joinedCount (putInPlace written state) = joinedCount state := by
  rw [joinedCount, joinedCount, List.countP_eq_length_filter, List.countP_eq_length_filter,
    filter_member_putInPlace hwritable state]
  intro event hevent
  exact (of_decide_eq_true hevent).1

theorem nameFromMembers_putInPlace (me : String) :
    nameFromMembers (putInPlace written state) me = nameFromMembers state me := by
  rw [nameFromMembers, nameFromMembers, filter_member_putInPlace hwritable state]
  intro event hevent
  exact (of_decide_eq_true hevent).1

/-- Without the events about members the written one is placed in the same way. -/
theorem listNonMemberState_putInPlace (state : List Json) :
    ∃ before after,
      listNonMemberState (putInPlace written state) = before ++ written :: after ∧
        before ++ after =
          (listNonMemberState state).filter fun event => ¬samePlace event written := by
  obtain ⟨before, after, hput, hothers⟩ := putInPlace_eq written state
  refine ⟨listNonMemberState before, listNonMemberState after, ?_, ?_⟩
  · rw [hput, listNonMemberState, List.filter_append,
      List.filter_cons_of_pos (by simp [hwritable.notMember])]
    rfl
  · have hboth : listNonMemberState before ++ listNonMemberState after =
        listNonMemberState (before ++ after) := (List.filter_append ..).symm
    rw [hboth, hothers, listNonMemberState, listNonMemberState, List.filter_filter,
      List.filter_filter]
    simp only [Bool.and_comm]

end

theorem findState_listNonMemberState (state : List Json) {eventType : String} (stateKey : String)
    (hother : eventType ≠ "m.room.member") :
    findState (listNonMemberState state) eventType stateKey =
      findState state eventType stateKey := by
  rw [findState_eq, findState_eq, listNonMemberState, ← List.filter_reverse, List.find?_filter]
  congr 1
  funext event
  by_cases hevent : IsAt event eventType stateKey
  · have hnot : isMemberEvent event = false := by
      refine decide_eq_false fun hmember => ?_
      rw [hevent.1] at hmember
      exact hother (Option.some.inj hmember)
    simp [hevent, hnot]
  · simp [hevent]

theorem explicitName_listNonMemberState (state : List Json) :
    explicitName (listNonMemberState state) = explicitName state :=
  explicitName_congr (findState_listNonMemberState state "" (by decide))
    (findState_listNonMemberState state "" (by decide))

end Members

section Writes

variable {packages : NumberPackages} {roomId me : String} {directPeers : List String}
variable {state : List Json} {conversation : Conversation} {named : Prop}

/-- What is seen is what the whole state gives, but for a name made of members that has been
lost. -/
def Follows (packages : NumberPackages) (roomId me : String) (directPeers : List String)
    (named : Prop) (state : List Json) (conversation : Conversation) : Prop :=
  ∃ whole known rest,
    conversationFromState packages roomId me state directPeers = .ok whole ∧
    Agree known (listNonMemberState state) ∧
    conversation =
      { whole with state := some known, name := (explicitName state).or rest } ∧
    ((explicitName state).isSome → named) ∧
    (named → rest = none) ∧ (¬named → rest = nameFromMembers state me)

/-- What the whole state gives, when there is a room. -/
theorem conversationFromState_isOk (packages : NumberPackages) (roomId me : String)
    (directPeers : List String) (hcreate : (findState state "m.room.create" "").isSome) :
    ∃ whole, conversationFromState packages roomId me state directPeers = .ok whole := by
  obtain ⟨create, hfound⟩ := Option.isSome_iff_exists.mp hcreate
  rw [← findState_listNonMemberState state "" (by decide)] at hfound
  rw [conversationFromState, describe, hfound]
  exact ⟨_, rfl⟩

variable {whole : Conversation}

section

variable (h : conversationFromState packages roomId me state directPeers = .ok whole)

include h

/-- The fields that depend on the peers and on the number of members. -/
theorem conversationFromState_fields : whole.id = roomId ∧ whole.memberCount = joinedCount state ∧
      whole.state = some (listNonMemberState state) ∧
      whole.name = (explicitName state).or (nameFromMembers state me) ∧
      (whole.kind = .direct ↔ directPeers ≠ [] ∧ joinedCount state = 2) ∧
      (whole.kind = .direct → whole.directPeer = directPeers.head?) := by
  rw [conversationFromState, describe] at h
  cases hfound : findState (listNonMemberState state) "m.room.create" "" with
  | none =>
    rw [hfound] at h
    cases h
  | some create =>
    rw [hfound] at h
    cases h
    refine ⟨rfl, rfl, rfl, ?_, ?_, ?_⟩
    · rw [explicitName_listNonMemberState]
    · simp only [decide_eq_true_eq]
      split_ifs with hdirect hchannel
      · exact ⟨fun _ => hdirect, fun _ => rfl⟩
      · exact ⟨nofun, fun hboth => absurd hboth hdirect⟩
      · exact ⟨nofun, fun hboth => absurd hboth hdirect⟩
    · simp only [decide_eq_true_eq]
      split_ifs with hdirect hchannel
      · exact fun _ => rfl
      · exact nofun
      · exact nofun

theorem follows_start :
    Follows packages roomId me directPeers (explicitName state).isSome state whole := by
  obtain ⟨_, _, hstate, hname, _, _⟩ := conversationFromState_fields h
  cases hexplicit : explicitName state with
  | none =>
    refine ⟨whole, listNonMemberState state, nameFromMembers state me, h, Agree.refl _, ?_,
      by simp [hexplicit], by simp, fun _ => rfl⟩
    rw [← hname, ← hstate]
  | some name =>
    refine ⟨whole, listNonMemberState state, none, h, Agree.refl _, ?_,
      by simp [hexplicit], fun _ => rfl, by simp⟩
    rw [hexplicit, Option.some_or] at hname
    rw [hexplicit, Option.some_or, ← hname, ← hstate]

end

/-- The peers that can still be told from what was seen. -/
def peersOf (conversation : Conversation) : List String :=
  if conversation.kind = .direct then conversation.directPeer.toList else []

/-- They are as good as all the peers. -/
theorem describe_peersOf
    (h : conversationFromState packages roomId me state directPeers = .ok whole) (known : List Json)
    (membersName : Option String) :
    describe packages roomId me known (joinedCount state) (peersOf whole) membersName =
      describe packages roomId me known (joinedCount state) directPeers membersName := by
  obtain ⟨_, _, _, _, hkind, hpeer⟩ := conversationFromState_fields h
  rw [peersOf]
  refine describe_peers packages roomId me known (joinedCount state) membersName ?_ ?_
  · split_ifs with hdirect
    · obtain ⟨hsome, htwo⟩ := hkind.mp hdirect
      rw [hpeer hdirect]
      cases directPeers with
      | nil => exact absurd rfl hsome
      | cons first others => simp
    · simp only [ne_eq, not_true_eq_false, false_and, false_iff]
      exact fun hboth => hdirect (hkind.mpr hboth)
  · intro hsome htwo
    have hdirect := hkind.mpr ⟨hsome, htwo⟩
    rw [if_pos hdirect, hpeer hdirect]
    cases directPeers <;> rfl

variable {written : Json}

/-- The event in the state that is known, and the same rules. -/
theorem conversationWithStateEvent_eq {known : List Json} (hwritable : Writable written)
    (hknown : conversation.state = some known) :
    conversationWithStateEvent packages conversation me written =
      (describe packages conversation.id me
        (known.filter (fun event => ¬samePlace event written) ++ [written])
        conversation.memberCount (peersOf conversation)
        (if (explicitName known).isSome then none else conversation.name)).map some := by
  obtain ⟨eventType, htype⟩ := Option.isSome_iff_exists.mp hwritable.hasType
  obtain ⟨stateKey, hkey⟩ := Option.isSome_iff_exists.mp hwritable.hasKey
  rw [conversationWithStateEvent, hknown]
  simp only [hwritable.notMember, Bool.false_eq_true, if_false, samePlace, htype, hkey, peersOf,
    decide_eq_true_eq]
  cases explicitName known <;> rfl

/-- A write is followed, and nothing more is forgotten than a name made of members. -/
theorem Follows.write (h : Follows packages roomId me directPeers named state conversation)
    (hwritable : Writable written)
    (hcreate : (findState (putInPlace written state) "m.room.create" "").isSome) :
    ∃ updated, conversationWithStateEvent packages conversation me written = .ok (some updated) ∧
      Follows packages roomId me directPeers
        (named ∨ (explicitName (putInPlace written state)).isSome) (putInPlace written state)
        updated := by
  obtain ⟨whole, known, rest, hwhole, hagree, rfl, hnamed, hlost, hkept⟩ := h
  obtain ⟨hid, hcount, -⟩ := conversationFromState_fields hwhole
  obtain ⟨updated, hupdated⟩ := conversationFromState_isOk packages roomId me directPeers hcreate
  obtain ⟨before, after, hput, hothers⟩ := listNonMemberState_putInPlace hwritable state
  have hexplicit : explicitName known = explicitName state := by
    rw [← explicitName_listNonMemberState state]
    exact explicitName_congr (hagree.found ..) (hagree.found ..)
  -- the name that is used when the room has none of its own
  have hrest : (if (explicitName known).isSome then none else (explicitName state).or rest) =
      rest := by
    rw [hexplicit]
    cases hfound : explicitName state with
    | none => rfl
    | some name => exact (hlost (hnamed (by rw [hfound]; rfl))).symm
  let known' := known.filter (fun event => ¬samePlace event written) ++ [written]
  have hagree' : Agree known' (listNonMemberState (putInPlace written state)) := by
    rw [hput]
    exact hagree.placed (List.append_nil _) hothers
  have hexplicit' : explicitName known' = explicitName (putInPlace written state) := by
    rw [← explicitName_listNonMemberState (putInPlace written state)]
    exact explicitName_congr (hagree'.found ..) (hagree'.found ..)
  have hdescribe : describe packages roomId me known' (joinedCount state) (peersOf whole) rest =
      .ok { updated with
        state := some known', name := (explicitName (putInPlace written state)).or rest } := by
    rw [describe_peersOf hwhole,
      describe_name _ _ _ _ _ _ rest (nameFromMembers (putInPlace written state) me),
      describe_congr packages _ me _ directPeers _ hagree',
      ← joinedCount_putInPlace hwritable, ← conversationFromState, hupdated, hexplicit']
    rfl
  refine ⟨{ updated with
    state := some known', name := (explicitName (putInPlace written state)).or rest }, ?_, ?_⟩
  · rw [conversationWithStateEvent_eq hwritable rfl]
    simp only
    rw [hrest, hid, hcount]
    exact congrArg (Except.map some) hdescribe
  · cases hfound : explicitName (putInPlace written state) with
    | some name =>
      refine ⟨updated, known', none, hupdated, hagree', ?_, fun _ => .inr rfl, fun _ => rfl,
        fun hnot => absurd (.inr rfl) hnot⟩
      rw [hfound]
      rfl
    | none =>
      refine ⟨updated, known', rest, hupdated, hagree', ?_, fun hsome => ?_, ?_, ?_⟩
      · rw [hfound]
      · rw [hfound] at hsome
        cases hsome
      · rintro (hboth | hsome)
        · exact hlost hboth
        · cases hsome
      · intro hnot
        rw [nameFromMembers_putInPlace hwritable]
        exact hkept fun hboth => hnot (.inl hboth)

theorem hasCreate_putInPlace (written : Json)
    (hcreate : (findState state "m.room.create" "").isSome) :
    (findState (putInPlace written state) "m.room.create" "").isSome := by
  obtain ⟨before, after, hput, hothers⟩ := putInPlace_eq written state
  rw [hput, findState_placed hothers]
  split_ifs
  · rfl
  · exact hcreate

theorem everNamed_cons_iff {writes : List Json} :
    EverNamed state (written :: writes) ↔
      (explicitName state).isSome ∨ EverNamed (putInPlace written state) writes := by
  constructor
  · rintro ⟨before, after, hsplit, hnamed⟩
    cases before with
    | nil => exact .inl hnamed
    | cons first before =>
      obtain ⟨rfl, rfl⟩ := List.cons_eq_cons.mp hsplit
      exact .inr ⟨before, after, rfl, hnamed⟩
  · rintro (hnamed | ⟨before, after, rfl, hnamed⟩)
    · exact ⟨[], written :: writes, rfl, hnamed⟩
    · exact ⟨written :: before, after, rfl, hnamed⟩

theorem Follows.writeEach (writes : List Json)
    (h : Follows packages roomId me directPeers named state conversation)
    (hcreate : (findState state "m.room.create" "").isSome)
    (hwrites : ∀ written ∈ writes, Writable written) :
    ∃ seen, writeEach packages me writes conversation = .ok (some seen) ∧
      Follows packages roomId me directPeers (named ∨ EverNamed state writes)
        (stateAfter state writes) seen := by
  induction writes generalizing state conversation named with
  | nil =>
    have hever : (named ∨ EverNamed state []) ↔ named := by
      obtain ⟨_, _, _, _, _, _, hnamed, _, _⟩ := h
      refine ⟨?_, .inl⟩
      rintro (hbefore | ⟨before, after, hsplit, hnow⟩)
      · exact hbefore
      · obtain ⟨rfl, rfl⟩ := List.append_eq_nil_iff.mp hsplit.symm
        exact hnamed hnow
    rw [propext hever]
    exact ⟨conversation, rfl, h⟩
  | cons written writes ih =>
    have hwritable := hwrites written List.mem_cons_self
    have hcreate' := hasCreate_putInPlace written hcreate
    obtain ⟨updated, hupdated, hfollows⟩ := h.write hwritable hcreate'
    obtain ⟨seen, hseen, hall⟩ := ih hfollows hcreate'
      fun other hother => hwrites other (List.mem_cons_of_mem _ hother)
    have hever : ((named ∨ (explicitName (putInPlace written state)).isSome) ∨
        EverNamed (putInPlace written state) writes) ↔
        (named ∨ EverNamed state (written :: writes)) := by
      obtain ⟨_, _, _, _, _, _, hnamed, _, _⟩ := h
      rw [everNamed_cons_iff]
      constructor
      · rintro ((hbefore | hnow) | hlater)
        · exact .inl hbefore
        · exact .inr (.inr ⟨[], writes, rfl, hnow⟩)
        · exact .inr (.inr hlater)
      · rintro (hbefore | hnow | hlater)
        · exact .inl (.inl hbefore)
        · exact .inl (.inl (hnamed hnow))
        · exact .inr hlater
    refine ⟨seen, ?_, propext hever ▸ hall⟩
    rw [RoomStateWrites.writeEach, hupdated]
    exact hseen

/-- What is seen of a room is the same in both, its name apart. -/
structure SameButName (seen whole : Conversation) : Prop where
  id : seen.id = whole.id
  kind : seen.kind = whole.kind
  topic : seen.topic = whole.topic
  encrypted : seen.encrypted = whole.encrypted
  memberCount : seen.memberCount = whole.memberCount
  myPowerLevel : seen.myPowerLevel = whole.myPowerLevel
  canSendMessage : seen.canSendMessage = whole.canSendMessage
  directPeer : seen.directPeer = whole.directPeer
  state : ∃ known state, seen.state = some known ∧ whole.state = some state ∧ known.Perm state

/-- What is seen after any writes is what the whole state gives. Its name too, unless the
room has a name of its own no more: then the members give none until they are asked for. -/
theorem writes_agree (packages : NumberPackages) (roomId me : String) (directPeers : List String)
    (state writes : List Json) (hcreate : (findState state "m.room.create" "").isSome)
    (hwrites : ∀ written ∈ writes, Writable written) :
    ∃ before seen whole,
      conversationFromState packages roomId me state directPeers = .ok before ∧
      writeEach packages me writes before = .ok (some seen) ∧
      conversationFromState packages roomId me (stateAfter state writes) directPeers =
        .ok whole ∧
      SameButName seen whole ∧
      (explicitName (stateAfter state writes) = none ∧ EverNamed state writes →
        seen.name = none) ∧
      (¬(explicitName (stateAfter state writes) = none ∧ EverNamed state writes) →
        seen.name = whole.name) := by
  obtain ⟨before, hbefore⟩ := conversationFromState_isOk packages roomId me directPeers hcreate
  obtain ⟨seen, hseen, whole, known, rest, hwhole, hagree, rfl, _, hlost, hkept⟩ :=
    (follows_start hbefore).writeEach writes hcreate hwrites
  obtain ⟨_, _, hstate, hname, _, _⟩ := conversationFromState_fields hwhole
  have hever : ((explicitName state).isSome = true ∨ EverNamed state writes) ↔
      EverNamed state writes :=
    ⟨fun h => h.elim (fun hnow => ⟨[], writes, rfl, hnow⟩) id, .inr⟩
  rw [hever] at hlost hkept
  refine ⟨before, _, whole, hbefore, hseen, hwhole, ?_, ?_, ?_⟩
  · exact ⟨rfl, rfl, rfl, rfl, rfl, rfl, rfl, rfl, known, _, rfl, hstate, hagree.perm⟩
  · rintro ⟨hnone, hnamed⟩
    simp only
    rw [hnone, hlost hnamed]
    rfl
  · intro hnot
    simp only
    rw [hname]
    cases hfound : explicitName (stateAfter state writes) with
    | some name => rfl
    | none => rw [hkept fun hnamed => hnot ⟨hfound, hnamed⟩]

end Writes

section Rooms

/-- A state event with an empty key. -/
def stateEvent (eventType : String) (content : List (String × Json)) : Json :=
  .object [("type", .string eventType), ("state_key", .string ""), ("content", .object content)]

def joined (user : String) : Json :=
  .object [("type", .string "m.room.member"), ("state_key", .string user),
    ("content", .object [("membership", .string "join")])]

def named (name : String) : Json :=
  stateEvent "m.room.name" [("name", .string name)]

def topicEvent : Json :=
  stateEvent "m.room.topic" [("topic", .string "on call")]

def bareRoom : List Json :=
  [stateEvent "m.room.create" [], joined "@bob:x"]

def opsRoom : List Json :=
  [stateEvent "m.room.create" [], named "ops", joined "@bob:x"]

def noNumbers : NumberPackages :=
  { parseU64 := fun _ => none, parseI64 := fun _ => none }

theorem writable_stateEvent {eventType : String} (content : List (String × Json))
    (hother : eventType ≠ "m.room.member") : Writable (stateEvent eventType content) := by
  refine ⟨rfl, rfl, decide_eq_false fun hmember => ?_⟩
  exact hother (Option.some.inj hmember)

/-- A room whose name is taken away and that gets a topic then. -/
theorem writes_agree_in_opsRoom :
    ∃ before seen whole,
      conversationFromState noNumbers "!r:x" "@alice:x" opsRoom [] = .ok before ∧
      writeEach noNumbers "@alice:x" [named "", topicEvent] before = .ok (some seen) ∧
      conversationFromState noNumbers "!r:x" "@alice:x"
        (stateAfter opsRoom [named "", topicEvent]) [] = .ok whole ∧
      SameButName seen whole ∧
      (explicitName (stateAfter opsRoom [named "", topicEvent]) = none ∧
        EverNamed opsRoom [named "", topicEvent] → seen.name = none) ∧
      (¬(explicitName (stateAfter opsRoom [named "", topicEvent]) = none ∧
        EverNamed opsRoom [named "", topicEvent]) → seen.name = whole.name) := by
  refine writes_agree noNumbers "!r:x" "@alice:x" [] opsRoom [named "", topicEvent] ?_ ?_
  · rfl
  · intro written hwritten
    rcases List.mem_cons.mp hwritten with rfl | hwritten
    · exact writable_stateEvent _ (by decide)
    · rw [List.mem_singleton.mp hwritten]
      exact writable_stateEvent _ (by decide)

/-- The names that are seen after the writes and that the whole state gives. -/
def namesAfter (state writes : List Json) : Option (Option String × Option String) :=
  match conversationFromState noNumbers "!r:x" "@alice:x" state [] with
  | .error _ => none
  | .ok before =>
      match writeEach noNumbers "@alice:x" writes before,
          conversationFromState noNumbers "!r:x" "@alice:x" (stateAfter state writes) [] with
      | .ok (some seen), .ok whole => some (seen.name, whole.name)
      | _, _ => none

/-- The name is not the one that the whole state gives after a write that takes no name away,
it is there after a name has been taken away, and it is lost with a name that the room had
neither before the writes nor after them. -/
theorem names_after_several_writes :
    (namesAfter opsRoom [named "", topicEvent] = some (none, some "@bob:x") ∧
      explicitName (stateAfter opsRoom [named ""]) = none) ∧
    (namesAfter opsRoom [named "", named "dev"] = some (some "dev", some "dev") ∧
      explicitName opsRoom = some "ops" ∧
      explicitName (stateAfter opsRoom [named ""]) = none) ∧
    (namesAfter bareRoom [named "dev", named ""] = some (none, some "@bob:x") ∧
      explicitName bareRoom = none) := by decide +kernel

end Rooms

end RoomStateWrites
end WbfMatrixClient
