import WbfMatrixClient.Lib.Counters
import WbfMatrixClient.RequestLine

/-!
# Request and session numbers

A link gives out the numbers of the requests and of the named sessions on it to all who share
it, from counters that wrap. A client whose channel is not shared counts its sessions itself.
Whoever calls takes one turn at a counter at a time, and the turns of several callers come in
any order.
-/

namespace WbfMatrixClient

namespace id

def session : UInt8 := 0x01

/-- The value of an id has 56 bits. -/
def maxValue : UInt64 := 2 ^ 56 - 1

def composeMasked (idType : UInt8) (value : UInt64) : UInt64 :=
  (idType.toUInt64 <<< 56) ||| (value &&& maxValue)

def valueOf (id : UInt64) : UInt64 :=
  id &&& maxValue

end id

namespace LinkNumbers

/-- The counters of a link. -/
structure Shared where
  nextSeq : UInt32
  nextSession : UInt64

def Shared.start : Shared :=
  { nextSeq := RequestLine.firstLineSeq, nextSession := 0 }

def nextSeq (shared : Shared) : UInt32 × Shared :=
  (shared.nextSeq ||| RequestLine.firstLineSeq, { shared with nextSeq := shared.nextSeq + 1 })

/-- One turn of the loop that draws a session number. A turn that draws zero is followed by
another one of the same caller. -/
def sessionTurn (shared : Shared) : Option UInt64 × Shared :=
  let number := (shared.nextSession + 1) &&& id.maxValue
  (if number ≠ 0 then some number else none,
    { shared with nextSession := shared.nextSession + 1 })

/-- The session id of a request, with the number of the line if the channel has one. -/
def nextSessionId (lineSessionNumber : Option UInt64) (nextStreamId : UInt64) : UInt64 × UInt64 :=
  match lineSessionNumber with
  | some number => (id.composeMasked id.session number, nextStreamId)
  | none =>
      let nextStreamId := max (nextStreamId + 1) 1 &&& id.maxValue
      (id.composeMasked id.session nextStreamId, nextStreamId)

/-- The counters of a link and of a client without one, and all that was drawn from each, in
the order of the draws. -/
structure Draws where
  shared : Shared
  nextStreamId : UInt64
  seqs : List (Nat × UInt32)
  linkIds : List (Nat × UInt64)
  ownIds : List UInt64

def Draws.start : Draws :=
  { shared := .start, nextStreamId := 0, seqs := [], linkIds := [], ownIds := [] }

inductive Turn where
  | seq (caller : Nat)
  | session (caller : Nat)
  | own
deriving DecidableEq

def step (s : Draws) : Turn → Draws
  | .seq caller =>
      let (number, shared) := nextSeq s.shared
      { s with shared := shared, seqs := s.seqs ++ [(caller, number)] }
  | .session caller =>
      match sessionTurn s.shared with
      | (none, shared) => { s with shared := shared }
      | (some number, shared) =>
          { s with
            shared := shared
            linkIds := s.linkIds ++ [(caller, (nextSessionId (some number) s.nextStreamId).1)] }
  | .own =>
      let (id, nextStreamId) := nextSessionId none s.nextStreamId
      { s with nextStreamId := nextStreamId, ownIds := s.ownIds ++ [id] }

theorem toNat_or_firstLineSeq (number : UInt32) :
    (number ||| RequestLine.firstLineSeq).toNat = 2 ^ 31 + number.toNat % 2 ^ 31 := by
  have hlt := number.toNat_lt
  have hor : ∀ low, low < 2 ^ 31 → 2 ^ 31 ||| low = 2 ^ 31 + low := fun low hlow => by
    have h := Nat.two_pow_add_eq_or_of_lt hlow 1
    rw [Nat.mul_one] at h
    exact h.symm
  have hlow : number.toNat % 2 ^ 31 < 2 ^ 31 := Nat.mod_lt _ (by decide)
  have hhalf : number.toNat = number.toNat % 2 ^ 31 ∨
      number.toNat = 2 ^ 31 ||| number.toNat % 2 ^ 31 := by
    rw [hor _ hlow]
    omega
  rw [UInt32.toNat_or, show RequestLine.firstLineSeq.toNat = 2 ^ 31 from rfl, Nat.or_comm,
    ← hor _ hlow]
  rcases hhalf with hlower | hupper
  · rw [← hlower]
  · conv_lhs => rw [hupper]
    rw [← Nat.or_assoc, Nat.or_self]

theorem toNat_and_maxValue (number : UInt64) :
    (number &&& id.maxValue).toNat = number.toNat % 2 ^ 56 := by
  rw [UInt64.toNat_and, show id.maxValue.toNat = 2 ^ 56 - 1 from rfl,
    Nat.and_two_pow_sub_one_eq_mod]

theorem valueOf_composeMasked (idType : UInt8) (value : UInt64) :
    (id.valueOf (id.composeMasked idType value)).toNat = value.toNat % 2 ^ 56 := by
  rw [id.valueOf, id.composeMasked, toNat_and_maxValue, UInt64.toNat_or, Nat.or_mod_two_pow,
    toNat_and_maxValue, Nat.mod_mod, UInt64.toNat_shiftLeft]
  have hshift : idType.toUInt64.toNat <<< ((56 : UInt64).toNat % 64) % 2 ^ 64 % 2 ^ 56 = 0 := by
    rw [show (56 : UInt64).toNat % 64 = 56 from rfl, Nat.shiftLeft_eq]
    omega
  rw [hshift, Nat.zero_or]

/-- The number of the draw with this index. -/
def seqAt (index : Nat) : UInt32 :=
  (RequestLine.firstLineSeq + UInt32.ofNat index) ||| RequestLine.firstLineSeq

/-- The session id with this number. -/
def idAt (number : Nat) : UInt64 :=
  id.composeMasked id.session (UInt64.ofNat number)

theorem toNat_seqAt (index : Nat) : (seqAt index).toNat = 2 ^ 31 + index % 2 ^ 31 := by
  rw [seqAt, toNat_or_firstLineSeq, UInt32.toNat_add, UInt32.toNat_ofNat',
    show RequestLine.firstLineSeq.toNat = 2 ^ 31 from rfl]
  omega

theorem valueOf_idAt (number : Nat) : (id.valueOf (idAt number)).toNat = number % 2 ^ 56 := by
  rw [idAt, valueOf_composeMasked, UInt64.toNat_ofNat']
  omega

/-- The value of an id is cut to its width. -/
theorem idAt_mod (number : Nat) : idAt (number % 2 ^ 56) = idAt number := by
  have hmasked : UInt64.ofNat (number % 2 ^ 56) &&& id.maxValue =
      UInt64.ofNat number &&& id.maxValue := by
    refine UInt64.toNat_inj.mp ?_
    rw [toNat_and_maxValue, toNat_and_maxValue, UInt64.toNat_ofNat', UInt64.toNat_ofNat']
    omega
  rw [idAt, idAt, id.composeMasked, id.composeMasked, hmasked]

/-- How far the counters are, and what they have given out. A link skips zero: of its turns it
has used all but one in every 2^56. -/
structure Counted (turns : Nat) (s : Draws) : Prop where
  seq : s.shared.nextSeq = RequestLine.firstLineSeq + UInt32.ofNat s.seqs.length
  seqs : s.seqs.map Prod.snd = (List.range s.seqs.length).map seqAt
  session : s.shared.nextSession = UInt64.ofNat turns
  skipped : s.linkIds.length = turns - turns / 2 ^ 56
  linkIds : s.linkIds.map Prod.snd =
    (List.range s.linkIds.length).map fun index => idAt (1 + index % (2 ^ 56 - 1))
  own : s.nextStreamId = UInt64.ofNat (s.ownIds.length % 2 ^ 56)
  ownIds : s.ownIds = (List.range s.ownIds.length).map fun index => idAt (1 + index)

theorem counted_start :
    Counted 0 .start := ⟨rfl, rfl, rfl, rfl, rfl, rfl, rfl⟩

theorem Counted.seqTurn {turns : Nat} {s : Draws} (h : Counted turns s) (caller : Nat) :
    Counted turns (step s (.seq caller)) := by
  have hlength : (step s (.seq caller)).seqs.length = s.seqs.length + 1 := by
    rw [step, nextSeq]
    simp
  refine ⟨?_, ?_, h.session, h.skipped, h.linkIds, h.own, h.ownIds⟩
  · rw [hlength]
    change s.shared.nextSeq + 1 = _
    rw [h.seq, UInt32.ofNat_add, UInt32.add_assoc]
    rfl
  · rw [hlength, List.range_succ, List.map_append, ← h.seqs]
    change (s.seqs ++ [(caller, s.shared.nextSeq ||| RequestLine.firstLineSeq)]).map Prod.snd = _
    rw [List.map_append, h.seq]
    rfl

theorem Counted.sessionTurn {turns : Nat} {s : Draws} (h : Counted turns s) (caller : Nat) :
    Counted (turns + 1) (step s (.session caller)) := by
  have hnumber : ((s.shared.nextSession + 1) &&& id.maxValue).toNat = (turns + 1) % 2 ^ 56 := by
    rw [toNat_and_maxValue, h.session, UInt64.toNat_add, UInt64.toNat_ofNat']
    have hone : (1 : UInt64).toNat = 1 := rfl
    omega
  have hsession : s.shared.nextSession + 1 = UInt64.ofNat (turns + 1) := by
    rw [h.session, UInt64.ofNat_add]
    rfl
  have hskipped := h.skipped
  rw [step, LinkNumbers.sessionTurn]
  generalize (s.shared.nextSession + 1) &&& id.maxValue = number at hnumber
  by_cases hzero : number = 0
  · have hwhole : (turns + 1) % 2 ^ 56 = 0 := by
      rw [← hnumber, hzero]
      rfl
    simp only [hzero, ne_eq, not_true_eq_false, if_false]
    refine ⟨h.seq, h.seqs, hsession, ?_, h.linkIds, h.own, h.ownIds⟩
    change s.linkIds.length = _
    omega
  · have hpart : (turns + 1) % 2 ^ 56 ≠ 0 := by
      rw [← hnumber]
      exact fun hnat => hzero (UInt64.toNat_inj.mp hnat)
    simp only [hzero, ne_eq, not_false_eq_true, if_true]
    have hlast : number = UInt64.ofNat (1 + s.linkIds.length % (2 ^ 56 - 1)) := by
      refine UInt64.toNat_inj.mp ?_
      rw [hnumber, UInt64.toNat_ofNat']
      omega
    refine ⟨h.seq, h.seqs, hsession, ?_, ?_, h.own, h.ownIds⟩
    · change (s.linkIds ++ [_]).length = _
      rw [List.length_append, List.length_singleton]
      omega
    · change (s.linkIds ++ [_]).map Prod.snd = (List.range (s.linkIds ++ [_]).length).map _
      rw [List.length_append, List.length_singleton, List.range_succ, List.map_append,
        List.map_append, ← h.linkIds, hlast]
      rfl

theorem Counted.ownTurn {turns : Nat} {s : Draws} (h : Counted turns s) :
    Counted turns (step s .own) := by
  have hnext : max (s.nextStreamId + 1) 1 &&& id.maxValue =
      UInt64.ofNat ((s.ownIds.length + 1) % 2 ^ 56) := by
    have hone : (1 : UInt64).toNat = 1 := rfl
    have hsum : (s.nextStreamId + 1).toNat = s.ownIds.length % 2 ^ 56 + 1 := by
      rw [h.own, UInt64.toNat_add, UInt64.toNat_ofNat']
      omega
    have hmax : max (s.nextStreamId + 1) 1 = s.nextStreamId + 1 := by
      change (if s.nextStreamId + 1 ≤ 1 then 1 else s.nextStreamId + 1) = _
      split_ifs with hle
      · rw [UInt64.le_iff_toNat_le, hsum] at hle
        refine UInt64.toNat_inj.mp ?_
        rw [hsum]
        omega
      · rfl
    refine UInt64.toNat_inj.mp ?_
    rw [toNat_and_maxValue, hmax, hsum, UInt64.toNat_ofNat']
    omega
  have hlength : (step s .own).ownIds.length = s.ownIds.length + 1 := by
    rw [step, nextSessionId]
    simp
  refine ⟨h.seq, h.seqs, h.session, h.skipped, h.linkIds, ?_, ?_⟩
  · rw [hlength, ← hnext]
    rfl
  · rw [hlength, List.range_succ, List.map_append, ← h.ownIds]
    change s.ownIds ++
      [id.composeMasked id.session (max (s.nextStreamId + 1) 1 &&& id.maxValue)] = _
    rw [hnext, List.map_singleton, ← idAt_mod (1 + s.ownIds.length), Nat.add_comm 1]
    rfl

theorem counted_run (turns : List Turn) : ∃ taken, Counted taken (Runs.run step .start turns) := by
  refine Runs.run_invariant (fun s => ∃ taken, Counted taken s) ?_ turns .start
    ⟨0, counted_start⟩
  rintro s turn ⟨taken, h⟩
  cases turn with
  | seq caller => exact ⟨taken, h.seqTurn caller⟩
  | session caller => exact ⟨taken + 1, h.sessionTurn caller⟩
  | own => exact ⟨taken, h.ownTurn⟩

/-- Every turn of the client that counts itself draws a number. -/
theorem length_ownIds (turns : List Turn) :
    (Runs.run step .start turns).ownIds.length = turns.count .own := by
  induction turns using List.reverseRecOn with
  | nil => rfl
  | append_singleton turns turn ih =>
    rw [Runs.run_append, List.count_append, ← ih]
    generalize Runs.run step .start turns = s
    cases turn with
    | seq caller => rfl
    | session caller =>
      rw [Runs.run_cons, Runs.run_nil, step]
      split <;> rfl
    | own => exact List.length_append

/-- The ids that one counter gives out: none has the value zero, and none comes twice in as many
draws as there are other values. -/
structure SessionIds (ids : List UInt64) : Prop where
  session : ∀ sessionId ∈ ids, id.valueOf sessionId ≠ 0 ∧ id.valueOf sessionId ≤ id.maxValue
  distinct : ∀ window, window <:+: ids → window.length ≤ 2 ^ 56 - 1 → window.Nodup

section Ids

variable {ids : List UInt64} {number : Nat → Nat} {count : Nat}

/-- Ids come twice only if their numbers are a multiple of the period apart. -/
theorem sessionIds_of_map (period : Nat)
    (hids : ids = (List.range count).map fun index => idAt (number index))
    (hperiod : 2 ^ 56 - 1 ≤ period)
    (hnumber : ∀ i j, number i % 2 ^ 56 = number j % 2 ^ 56 → i % period = j % period)
    (hzero : ∀ index < count, number index % 2 ^ 56 ≠ 0) : SessionIds ids := by
  refine ⟨fun sessionId hmem => ?_, fun window hwindow hlength => ?_⟩
  · rw [hids] at hmem
    obtain ⟨index, hindex, rfl⟩ := List.mem_map.mp hmem
    have hvalue := valueOf_idAt (number index)
    refine ⟨fun hnone => hzero index (List.mem_range.mp hindex) ?_, ?_⟩
    · rw [← hvalue, hnone]
      rfl
    · rw [UInt64.le_iff_toNat_le, hvalue, show id.maxValue.toNat = 2 ^ 56 - 1 from rfl]
      omega
  · rw [hids] at hwindow
    refine Counters.nodup_of_infix period (fun i j hsame => hnumber i j ?_) hwindow
      (hlength.trans hperiod)
    rw [← valueOf_idAt, ← valueOf_idAt, hsame]

end Ids

theorem zero_drawn {turns : List Turn} (hmany : 2 ^ 56 ≤ turns.count .own) :
    ∃ sessionId ∈ (Runs.run step .start turns).ownIds, id.valueOf sessionId = 0 := by
  obtain ⟨taken, h⟩ := counted_run turns
  have hown := h.ownIds
  rw [length_ownIds] at hown
  refine ⟨idAt (1 + (2 ^ 56 - 1)), ?_, ?_⟩
  · rw [hown]
    exact List.mem_map_of_mem (List.mem_range.mpr (by omega))
  · refine UInt64.toNat_inj.mp ?_
    rw [valueOf_idAt]
    rfl

/-- The numbers drawn from a link do not collide while they matter, and those that a client
counts itself do not either as long as it has drawn fewer than 2^56. -/
theorem numbers_never_collide_iff (turns : List Turn) :
    let s := Runs.run step .start turns
    ((∀ window, window <:+: s.seqs.map Prod.snd → window.length ≤ 2 ^ 31 → window.Nodup) ∧
        (∀ drawn ∈ s.seqs, 2 ^ 31 ≤ drawn.2.toNat) ∧
        SessionIds (s.linkIds.map Prod.snd) ∧ SessionIds s.ownIds) ↔
      turns.count .own < 2 ^ 56 := by
  intro s
  obtain ⟨taken, h⟩ := counted_run turns
  constructor
  · rintro ⟨_, _, _, hsession, _⟩
    by_contra hmany
    obtain ⟨sessionId, hmem, hzero⟩ := zero_drawn (Nat.le_of_not_lt hmany)
    exact (hsession sessionId hmem).1 hzero
  · intro hfew
    rw [← length_ownIds] at hfew
    refine ⟨fun window hwindow hlength => ?_, fun drawn hdrawn => ?_, ?_, ?_⟩
    · rw [h.seqs] at hwindow
      refine Counters.nodup_of_infix (2 ^ 31) (fun i j hsame => ?_) hwindow hlength
      have hnumbers := congrArg UInt32.toNat hsame
      rw [toNat_seqAt, toNat_seqAt] at hnumbers
      omega
    · have hmem : drawn.2 ∈ s.seqs.map Prod.snd := List.mem_map_of_mem hdrawn
      rw [h.seqs] at hmem
      obtain ⟨index, _, hindex⟩ := List.mem_map.mp hmem
      rw [← hindex, toNat_seqAt]
      omega
    · exact sessionIds_of_map (2 ^ 56 - 1) h.linkIds (le_refl _) (fun i j hsame => by omega)
        (fun index _ => by omega)
    · exact sessionIds_of_map (2 ^ 56) h.ownIds (by omega) (fun i j hsame => by omega)
        (fun index hindex => by omega)

/-- The 2^56th session of a client that counts itself has the number zero. -/
theorem own_number_zero :
    let s := Runs.run step .start (List.replicate (2 ^ 56) .own)
    ∃ sessionId ∈ s.ownIds, id.valueOf sessionId = 0 :=
  zero_drawn (Nat.le_of_eq List.count_replicate_self.symm)

end LinkNumbers
end WbfMatrixClient
