import WbfMatrixClient.RequestLine

/-!
# What a request line hands back

The map of what is on the wire is keyed by the number alone, and every link counts its
numbers from the same start. As long as no request is put on the wire under a number
that a task of an earlier request still has, every action is in one place, and what
comes back with it is what came of its own request. A request that is written over
another is the way this is lost.
-/

namespace WbfMatrixClient
namespace RequestLine

universe u

variable {A : Type u} [DecidableEq A]
  {toPack : A → UInt32 → Pack} {value : List UInt8 → Except String Json} {silence : String}

namespace Line

/-- No task is left that has the number of a request which goes on the wire, and the
server's answer finds nobody but the one who asked. -/
def Proper (toPack : A → UInt32 → Pack) (s : Line A) : Action A → Prop
  | .sendRequest .ok =>
      match s.sender with
      | .sending item link seq =>
          s.keyTaken link (toPack item.1 seq) = false → ∀ w ∈ s.waiting, w.seq ≠ seq
      | _ => True
  | .answer position _ =>
      ∀ sent ∈ s.sent, sent.item.2 = position →
        ∀ w ∈ s.waiting, w.result = none → w.key = sent.key → w.position = position
  | _ => True

/-- Where an action can be. -/
def places (s : Line A) : List (Item A) :=
  s.queued ++ s.sender.items ++ s.requests.map Prod.snd ++ s.replies.map LineReply.item ++
    s.withdrawn

/-- Every action that was put into the line is in one place. -/
def Placed (s : Line A) : Prop :=
  s.places.Perm s.pushed.zipIdx

/-- What was handed back is what came of the request of this very action. -/
def Own (value : List UInt8 → Except String Json) (s : Line A) (reply : LineReply A) : Prop :=
  ∃ outcome, (reply.item.2, outcome) ∈ s.outcomes ∧ reply.result = outcome.result value

/-- A task has its number for itself, it belongs to a request that went out, and the
result it has is what came of this request. -/
structure Kept (value : List UInt8 → Except String Json) (s : Line A) : Prop where
  placed : s.Placed
  numbers : Table.Keyed Prod.fst s.requests
  tasks : Table.Keyed Waiting.seq s.waiting
  waits : ∀ request ∈ s.requests,
    ∃ w ∈ s.waiting, w.seq = request.1 ∧ w.position = request.2.2
  sent_placed : ∀ sent ∈ s.sent,
    sent.item ∈ s.requests.map Prod.snd ++ s.replies.map LineReply.item
  sent_once : (s.sent.map Sent.item).Nodup
  asked : ∀ w ∈ s.waiting, ∃ sent ∈ s.sent, sent.item.2 = w.position ∧ sent.pack = w.pack
  came : ∀ w ∈ s.waiting, ∀ result, w.result = some result →
    ∃ outcome, (w.position, outcome) ∈ s.outcomes ∧
      result.bind (expectAck value w.pack) = outcome.result value
  own : ∀ reply ∈ s.replies, Own value s reply

omit [DecidableEq A] in
theorem kept_start (value : List UInt8 → Except String Json) :
    Kept value (.start A) where
  placed := by simp [Placed, places, start, Sender.items]
  numbers := by simp [Table.Keyed, start]
  tasks := by simp [Table.Keyed, start]
  waits := by simp [start]
  sent_placed := by simp [start]
  sent_once := by simp [start]
  asked := by simp [start]
  came := by simp [start]
  own := by simp [start]

variable {s : Line A}

theorem placed_iff :
    s.Placed ↔ ∀ item, s.places.count item = s.pushed.zipIdx.count item := List.perm_iff_count

theorem count_places (s : Line A) (item : Item A) :
    s.places.count item =
      s.queued.count item + s.sender.items.count item +
        (s.requests.map Prod.snd).count item + (s.replies.map LineReply.item).count item +
          s.withdrawn.count item := by simp only [places, List.count_append]

omit [DecidableEq A] in
/-- Two places with one position are one. -/
theorem Placed.eq_of_position (h : s.Placed) {a b : Item A} (ha : a ∈ s.places) (hb : b ∈ s.places)
    (hposition : a.2 = b.2) : a = b := by
  obtain ⟨_, _, hgot⟩ := List.mem_zipIdx (h.subset ha)
  obtain ⟨_, _, hgot'⟩ := List.mem_zipIdx (h.subset hb)
  refine Prod.ext ?_ hposition
  rw [hgot, hgot']
  simp only [hposition]

omit [DecidableEq A] in
theorem Placed.nodup (h : s.Placed) : s.places.Nodup := by
  refine (List.Perm.nodup_iff h).mpr (List.Nodup.of_map Prod.snd ?_)
  rw [List.zipIdx_map_snd]
  exact List.nodup_range'

theorem Kept.pushBack (h : Kept value s) (action : A) : Kept value (s.pushBack action) := by
  refine { h with placed := placed_iff.mpr fun item => ?_ }
  have hcount := placed_iff.mp h.placed item
  rw [count_places] at hcount ⊢
  simp [Line.pushBack, List.zipIdx_append] at hcount ⊢
  omega

theorem Kept.pushFront (h : Kept value s) (action : A) : Kept value (s.pushFront action) := by
  refine { h with placed := placed_iff.mpr fun item => ?_ }
  have hcount := placed_iff.mp h.placed item
  rw [count_places] at hcount ⊢
  simp [Line.pushFront, List.zipIdx_append, List.count_cons] at hcount ⊢
  omega

theorem Kept.withdraw (h : Kept value s) (action : A) : Kept value (s.withdraw action) := by
  refine { h with placed := placed_iff.mpr fun item => ?_ }
  have hcount := placed_iff.mp h.placed item
  have hparts := (List.filter_append_perm (fun item : Item A => decide (item.1 = action))
    s.queued).count_eq item
  rw [count_places] at hcount ⊢
  simp [Line.withdraw] at hcount hparts ⊢
  omega

theorem Kept.popFront (h : Kept value s) (hidle : s.sender = .idle) : Kept value s.popFront := by
  rw [Line.popFront]
  cases hqueued : s.queued with
  | nil => exact h
  | cons first queued =>
    refine { h with placed := placed_iff.mpr fun item => ?_ }
    have hcount := placed_iff.mp h.placed item
    rw [count_places] at hcount ⊢
    simp [hqueued, hidle, Sender.items, List.count_cons] at hcount ⊢
    omega

theorem Kept.findLink (h : Kept value s) {first : Item A} (hholding : s.sender = .holding first)
    (found : Option Nat) : Kept value (s.findLink first found) := by
  rw [Line.findLink]
  cases s.current found with
  | none =>
    refine { h with placed := placed_iff.mpr fun item => ?_ }
    have hcount := placed_iff.mp h.placed item
    rw [count_places] at hcount ⊢
    simp [hholding, Sender.items, List.count_cons] at hcount ⊢
    omega
  | some link =>
    refine { h with placed := placed_iff.mpr fun item => ?_ }
    have hcount := placed_iff.mp h.placed item
    rw [count_places] at hcount ⊢
    simpa [hholding, Sender.items, setLink] using hcount

theorem Kept.putBack (h : Kept value s) {first : Item A} {link : Nat} {seq : UInt32}
    (hsending : s.sender = .sending first link seq) : Kept value (s.putBack first link) := by
  refine { h with placed := placed_iff.mpr fun item => ?_ }
  have hcount := placed_iff.mp h.placed item
  rw [count_places] at hcount ⊢
  simp [Line.putBack, hsending, Sender.items, List.count_cons] at hcount ⊢
  omega

omit [DecidableEq A] in
theorem Own.mono {s' : Line A} {reply : LineReply A} (h : Own value s reply)
    (houtcomes : s.outcomes ⊆ s'.outcomes) : Own value s' reply := by
  obtain ⟨outcome, hmem, hresult⟩ := h
  exact ⟨outcome, houtcomes hmem, hresult⟩

/-- An action that the sender has was not sent. -/
theorem Kept.item_unsent (h : Kept value s) {first : Item A} {link : Nat} {seq : UInt32}
    (hsending : s.sender = .sending first link seq) : first ∉ s.sent.map Sent.item := by
  intro hsent
  obtain ⟨sent, hmem, rfl⟩ := List.mem_map.mp hsent
  have hplaced := List.count_pos_iff.mpr (h.sent_placed sent hmem)
  have honce := List.nodup_iff_count_le_one.mp h.placed.nodup sent.item
  rw [count_places] at honce
  rw [List.count_append] at hplaced
  simp only [hsending, Sender.items, List.count_singleton_self] at honce
  omega

omit [DecidableEq A] in
theorem Kept.mem_places (h : Kept value s) {sent : Sent A} (hsent : sent ∈ s.sent) :
    sent.item ∈ s.places := by
  have hplaced := h.sent_placed sent hsent
  simp only [places, List.mem_append] at hplaced ⊢
  tauto

omit [DecidableEq A] in
/-- What stands on the wire under a number has a task. -/
theorem Kept.free (h : Kept value s) {seq : UInt32} (hclear : ∀ w ∈ s.waiting, w.seq ≠ seq) :
    s.requests.filter (fun request => request.1 ≠ seq) = s.requests := by
  refine List.filter_eq_self.mpr fun request hrequest => decide_eq_true ?_
  obtain ⟨w, hw, hseq, _⟩ := h.waits request hrequest
  exact hseq ▸ hclear w hw

theorem Kept.putOnWire (h : Kept value s) {first : Item A} {link : Nat} {seq : UInt32}
    (hsending : s.sender = .sending first link seq) (hclear : ∀ w ∈ s.waiting, w.seq ≠ seq)
    (pack : Pack) : Kept value (s.putOnWire first link seq pack) := by
  have hfree := h.free hclear
  constructor
  case placed =>
    refine placed_iff.mpr fun item => ?_
    have hcount := placed_iff.mp h.placed item
    rw [count_places] at hcount ⊢
    rw [Line.putOnWire, hfree]
    simp [hsending, Sender.items, List.count_cons] at hcount ⊢
    omega
  case numbers =>
    rw [Line.putOnWire, hfree]
    refine List.nodup_cons.mpr ⟨?_, h.numbers⟩
    intro hmem
    obtain ⟨request, hrequest, hseq⟩ := List.mem_map.mp hmem
    obtain ⟨w, hw, hwseq, _⟩ := h.waits request hrequest
    exact hclear w hw (hwseq.trans hseq)
  case tasks =>
    refine List.nodup_cons.mpr ⟨?_, h.tasks⟩
    intro hmem
    obtain ⟨w, hw, hseq⟩ := List.mem_map.mp hmem
    exact hclear w hw hseq
  case waits =>
    intro request hrequest
    rw [Line.putOnWire, hfree] at hrequest
    rcases List.mem_cons.mp hrequest with rfl | hrequest
    · exact ⟨_, List.mem_cons_self, rfl, rfl⟩
    · obtain ⟨w, hw, hwait⟩ := h.waits request hrequest
      exact ⟨w, List.mem_cons_of_mem _ hw, hwait⟩
  case sent_placed =>
    intro sent hsent
    rw [Line.putOnWire, hfree]
    rcases List.mem_cons.mp hsent with rfl | hsent
    · simp
    · exact List.mem_cons_of_mem _ (h.sent_placed sent hsent)
  case sent_once => exact List.nodup_cons.mpr ⟨h.item_unsent hsending, h.sent_once⟩
  case asked =>
    intro w hw
    rcases List.mem_cons.mp hw with rfl | hw
    · exact ⟨_, List.mem_cons_self, rfl, rfl⟩
    · obtain ⟨sent, hsent, hpack⟩ := h.asked w hw
      exact ⟨sent, List.mem_cons_of_mem _ hsent, hpack⟩
  case came =>
    intro w hw result hresult
    rcases List.mem_cons.mp hw with rfl | hw
    · cases hresult
    · exact h.came w hw result hresult
  case own => exact h.own

theorem Kept.sendRequest (h : Kept value s) {first : Item A} {link : Nat} {seq : UInt32}
    (hsending : s.sender = .sending first link seq) {result : SendResult}
    (hproper : s.Proper toPack (.sendRequest result)) :
    Kept value (s.sendRequest toPack first link seq result) := by
  cases result with
  | ok =>
    simp only [Line.sendRequest]
    cases htaken : s.keyTaken link (toPack first.1 seq) with
    | true => exact h.putBack hsending
    | false =>
      simp only [Proper, hsending] at hproper
      exact h.putOnWire hsending (hproper htaken) _
  | numberTaken => exact h.putBack hsending
  | error error =>
    constructor
    case placed =>
      refine placed_iff.mpr fun item => ?_
      have hcount := placed_iff.mp h.placed item
      rw [count_places] at hcount ⊢
      simp [Line.sendRequest, hsending, Sender.items, List.count_cons] at hcount ⊢
      omega
    case numbers => exact h.numbers
    case tasks => exact h.tasks
    case waits => exact h.waits
    case sent_placed =>
      intro sent hsent
      have hplaced := h.sent_placed sent hsent
      simp only [Line.sendRequest, List.map_append, ← List.append_assoc]
      exact List.mem_append_left _ hplaced
    case sent_once => exact h.sent_once
    case asked => exact h.asked
    case came =>
      intro w hw result hresult
      obtain ⟨outcome, hmem, hcame⟩ := h.came w hw result hresult
      exact ⟨outcome, List.mem_cons_of_mem _ hmem, hcame⟩
    case own =>
      intro reply hreply
      rcases List.mem_append.mp hreply with hreply | hreply
      · exact (h.own reply hreply).mono (List.subset_cons_self _ _)
      · rw [List.mem_singleton.mp hreply]
        exact ⟨.notSent error, List.mem_cons_self, rfl⟩

theorem Kept.timeOutIfSilent (h : Kept value s) (message : String) (running : List Nat) :
    Kept value (s.timeOutIfSilent message running) := by
  rw [Line.timeOutIfSilent]
  split_ifs
  · exact h
  constructor
  case placed =>
    refine placed_iff.mpr fun item => ?_
    have hcount := placed_iff.mp h.placed item
    have hback : (s.requests.map fun request =>
        LineReply.mk request.2 (.error (.timeout message))).map LineReply.item =
          s.requests.map Prod.snd := by
      rw [List.map_map]
      rfl
    rw [count_places] at hcount ⊢
    simp only [List.map_nil, List.count_nil, List.map_append, List.count_append, hback]
    omega
  case numbers => exact List.nodup_nil
  case tasks => exact h.tasks.filter _
  case waits =>
    intro request hrequest
    cases hrequest
  case sent_placed =>
    intro sent hsent
    have hplaced := h.sent_placed sent hsent
    simp only [List.map_append, List.map_nil, List.nil_append, List.map_map]
    exact (List.perm_append_comm.subset hplaced)
  case sent_once => exact h.sent_once
  case asked =>
    intro w hw
    exact h.asked w (List.mem_of_mem_filter hw)
  case came =>
    intro w hw result hresult
    obtain ⟨outcome, hmem, hcame⟩ := h.came w (List.mem_of_mem_filter hw) result hresult
    exact ⟨outcome, List.mem_append_left _ hmem, hcame⟩
  case own =>
    intro reply hreply
    rcases List.mem_append.mp hreply with hreply | hreply
    · exact (h.own reply hreply).mono (List.subset_append_left _ _)
    · obtain ⟨request, hrequest, rfl⟩ := List.mem_map.mp hreply
      exact ⟨.silent message, List.mem_append_right _ (List.mem_map_of_mem hrequest), rfl⟩

omit [DecidableEq A] in
/-- More may be written down about what became of the requests. -/
theorem Kept.noted (h : Kept value s) (noted : Nat × Outcome) :
    Kept value { s with outcomes := noted :: s.outcomes } :=
  { h with
    came := fun w hw result hresult => by
      obtain ⟨outcome, hmem, hcame⟩ := h.came w hw result hresult
      exact ⟨outcome, List.mem_cons_of_mem _ hmem, hcame⟩
    own := fun reply hreply => (h.own reply hreply).mono (List.subset_cons_self _ _) }

omit [DecidableEq A] in
theorem mem_resolve {w w' : Waiting} {result : Except SdkError Pack}
    (hw' : w' ∈ (s.resolve w result).waiting) :
    (w' ∈ s.waiting ∧ w' ≠ w) ∨ (w ∈ s.waiting ∧ w' = { w with result := some result }) := by
  obtain ⟨other, hother, rfl⟩ := List.mem_map.mp hw'
  by_cases hsame : other = w
  · exact .inr ⟨hsame ▸ hother, if_pos hsame⟩
  · simp only [if_neg hsame]
    exact .inl ⟨hother, hsame⟩

omit [DecidableEq A] in
/-- A task whose wait is over has what came of its own request. -/
theorem Kept.resolve (h : Kept value s) {w : Waiting} {result : Except SdkError Pack}
    (hcame : w ∈ s.waiting → ∃ outcome, (w.position, outcome) ∈ s.outcomes ∧ result.bind (expectAck
      value w.pack) = outcome.result value) : Kept value (s.resolve w result) := by
  refine { h with
    tasks := ?tasks
    waits := ?waits
    asked := ?asked
    came := ?came }
  case tasks =>
    have hseq : (s.resolve w result).waiting.map Waiting.seq = s.waiting.map Waiting.seq := by
      simp only [Line.resolve, List.map_map]
      refine List.map_congr_left fun other _ => ?_
      by_cases hsame : other = w <;> simp [hsame]
    rw [Table.Keyed, hseq]
    exact h.tasks
  case waits =>
    intro request hrequest
    obtain ⟨w', hw', hwait⟩ := h.waits request hrequest
    refine ⟨_, List.mem_map_of_mem hw', ?_⟩
    by_cases hsame : w' = w
    · simpa [hsame] using hsame ▸ hwait
    · simpa [hsame] using hwait
  case asked =>
    intro w' hw'
    rcases mem_resolve hw' with ⟨hw', _⟩ | ⟨hw, rfl⟩
    · exact h.asked w' hw'
    · exact h.asked w hw
  case came =>
    intro w' hw' result' hresult
    rcases mem_resolve hw' with ⟨hw', _⟩ | ⟨hw, rfl⟩
    · exact h.came w' hw' result' hresult
    · cases hresult
      exact hcame hw

omit [DecidableEq A] in
/-- The one who asked is found by the key, and its request is the one that was
answered. -/
theorem Kept.answer (h : Kept value s) {sent : Sent A} (hsent : sent ∈ s.sent)
    (hproper : ∀ w ∈ s.waiting, w.result = none → w.key = sent.key → w.position = sent.item.2)
    (response : Pack) : Kept value (s.answer sent response) := by
  have hnoted := h.noted (sent.item.2, .replied sent.pack response)
  rw [Line.answer]
  cases hfind : s.waiting.find? fun w => w.result.isNone ∧ w.key = sent.key with
  | none => simpa only using hnoted
  | some w =>
    have hw := List.mem_of_find?_eq_some hfind
    have hkey := List.find?_some hfind
    simp only [Option.isNone_iff_eq_none, decide_eq_true_eq] at hkey
    have hposition := hproper w hw hkey.1 hkey.2
    obtain ⟨asked, hasked, hat, hpack⟩ := h.asked w hw
    -- both were sent under one position, so they are one
    have hitem : asked.item = sent.item :=
      h.placed.eq_of_position (h.mem_places hasked) (h.mem_places hsent) (hat.trans hposition)
    obtain rfl : asked = sent := List.inj_on_of_nodup_map h.sent_once hasked hsent hitem
    refine hnoted.resolve fun _ => ⟨.replied asked.pack response, ?_, ?_⟩
    · rw [hposition]
      exact List.mem_cons_self
    · rw [← hpack]
      rfl

omit [DecidableEq A] in
theorem Kept.fail (h : Kept value s) (w : Waiting) (message : String) :
    Kept value (s.fail w message) := by
  rw [Line.fail]
  split_ifs with hfails
  · exact (h.noted (w.position, .lost message)).resolve fun _ =>
      ⟨.lost message, List.mem_cons_self, rfl⟩
  · exact h

/-- A task takes out the action it was started for. -/
theorem Kept.handBack (h : Kept value s) {w : Waiting} (hw : w ∈ s.waiting)
    {result : Except SdkError Pack} (hresult : w.result = some result) :
    Kept value (s.handBack value w result) := by
  rw [Line.handBack]
  simp only
  cases hfind : Table.find Prod.fst s.requests w.seq with
  | none =>
    refine { h with
      tasks := h.tasks.filter _
      waits := ?waits
      asked := fun w' hw' => h.asked w' (List.mem_of_mem_filter hw')
      came := fun w' hw' => h.came w' (List.mem_of_mem_filter hw') }
    intro request hrequest
    obtain ⟨w', hw', hseq, hposition⟩ := h.waits request hrequest
    refine ⟨w', List.mem_filter.mpr ⟨hw', decide_eq_true ?_⟩, hseq, hposition⟩
    rintro rfl
    exact Table.find_eq_none_iff.mp hfind request hrequest hseq.symm
  | some request =>
    obtain ⟨hrequest, hseq⟩ := Table.mem_of_find hfind
    obtain ⟨w', hw', hseq', hposition⟩ := h.waits request hrequest
    obtain rfl : w' = w := h.tasks.eq_of_key hw' hw (hseq'.trans hseq)
    have hperm : (s.requests.map Prod.snd).Perm
        (request.2 :: (s.requests.filter fun other => other.1 ≠ w'.seq).map Prod.snd) := by
      rw [← hseq]
      exact (h.numbers.perm_cons_filter hrequest).map Prod.snd
    constructor
    case placed =>
      refine placed_iff.mpr fun item => ?_
      have hcount := placed_iff.mp h.placed item
      have htaken := hperm.count_eq item
      rw [count_places] at hcount ⊢
      rw [List.count_cons] at htaken
      simp only [List.map_append, List.count_append, List.map_singleton, List.count_singleton]
      omega
    case numbers => exact h.numbers.filter _
    case tasks => exact h.tasks.filter _
    case waits =>
      intro other hother
      obtain ⟨hmem, hne⟩ := List.mem_filter.mp hother
      obtain ⟨task, htask, hat, hfor⟩ := h.waits other hmem
      refine ⟨task, List.mem_filter.mpr ⟨htask, decide_eq_true ?_⟩, hat, hfor⟩
      rintro rfl
      exact of_decide_eq_true hne hat.symm
    case sent_placed =>
      intro sent hsent
      have hplaced := (hperm.append_right _).subset (h.sent_placed sent hsent)
      simp only [List.map_append, List.map_singleton, List.mem_append, List.mem_cons,
        List.not_mem_nil, or_false] at hplaced ⊢
      tauto
    case sent_once => exact h.sent_once
    case asked => exact fun w hw => h.asked w (List.mem_of_mem_filter hw)
    case came => exact fun w hw => h.came w (List.mem_of_mem_filter hw)
    case own =>
      intro reply hreply
      rcases List.mem_append.mp hreply with hreply | hreply
      · exact h.own reply hreply
      · rw [List.mem_singleton.mp hreply]
        obtain ⟨outcome, hmem, hcame⟩ := h.came w' hw result hresult
        exact ⟨outcome, hposition ▸ hmem, hcame⟩

theorem Kept.not_withdrawn (h : Kept value s) {sent : Sent A} (hsent : sent ∈ s.sent) :
    sent.item ∉ s.withdrawn := by
  intro hwithdrawn
  have hplaced := List.count_pos_iff.mpr (h.sent_placed sent hsent)
  have htaken := List.count_pos_iff.mpr hwithdrawn
  have honce := List.nodup_iff_count_le_one.mp h.placed.nodup sent.item
  rw [List.count_append] at hplaced
  rw [count_places] at honce
  omega

theorem Kept.step (h : Kept value s) {action : Action A} (hproper : s.Proper toPack action) :
    Kept value (s.step toPack value silence action) := by
  cases action with
  | pushBack action => exact h.pushBack action
  | pushFront action => exact h.pushFront action
  | withdraw action => exact h.withdraw action
  | timeOutIfSilent running =>
    simp only [Line.step]
    cases s.sender with
    | idle => exact h.timeOutIfSilent _ running
    | holding | sending => exact h
  | popFront =>
    simp only [Line.step]
    cases hsender : s.sender with
    | idle => exact h.popFront hsender
    | holding | sending => exact h
  | findLink found =>
    simp only [Line.step]
    cases hsender : s.sender with
    | holding item => exact h.findLink hsender found
    | idle | sending => exact h
  | sendRequest result =>
    simp only [Line.step]
    cases hsender : s.sender with
    | sending item link seq => exact h.sendRequest hsender hproper
    | idle | holding => exact h
  | answer position response =>
    simp only [Line.step]
    cases hfind : s.sent.find? fun sent => sent.item.2 = position with
    | none => exact h
    | some sent =>
      have hsent := List.mem_of_find?_eq_some hfind
      have hposition : sent.item.2 = position := by simpa using List.find?_some hfind
      refine h.answer hsent (fun w hw hwaits hkey => ?_) response
      rw [hposition]
      exact hproper sent hsent hposition w hw hwaits hkey
  | close link | nextSeq link => exact { h with }
  | fail w message => exact h.fail w message
  | handBack w =>
    simp only [Line.step]
    split_ifs with hw
    · cases hresult : w.result with
      | none => exact h
      | some result => exact h.handBack hw hresult
    · exact h

theorem run_kept {actions : List (Action A)}
    (hproper : Runs.Along (step toPack value silence) (Proper toPack) (.start A) actions) :
    Kept value (Runs.run (step toPack value silence) (.start A) actions) :=
  Runs.run_invariant_along (Kept value) (fun _ _ hstep h => h.step hstep) actions _ hproper
    (kept_start value)

/-- In every run in which a request goes on the wire only under a number that no task of
an earlier request has, and an answer finds nobody but the one who asked: every action is
in exactly one place, what is handed back with it is what came of its own request, and
what was withdrawn is never sent. -/
theorem run_handsBack (toPack : A → UInt32 → Pack) (value : List UInt8 → Except String Json)
    (silence : String) (actions : List (Action A))
    (hproper : Runs.Along (step toPack value silence) (Proper toPack) (.start A) actions) :
    let s := Runs.run (step toPack value silence) (.start A) actions
    (s.queued ++ s.sender.items ++ s.requests.map Prod.snd ++ s.replies.map LineReply.item ++
      s.withdrawn).Perm s.pushed.zipIdx ∧
    (∀ reply ∈ s.replies, Own value s reply) ∧
    ∀ sent ∈ s.sent, sent.item ∉ s.withdrawn := by
  intro s
  have h := run_kept hproper
  exact ⟨h.placed, h.own, fun sent hsent => h.not_withdrawn hsent⟩

/-- A request that has nothing but its number. -/
def exampleToPack (_ : Nat) (seq : UInt32) : Pack :=
  { kind := .download, subtype := 1, flags := 0, id := 0, seq := seq, «meta» := [], data := [] }

def exampleAck : Pack :=
  { kind := .control, subtype := control.ack, flags := flags.isResponse, id := 0,
    seq := firstLineSeq, «meta» := [], data := [] }

/-- The task of the first request of a link. -/
def exampleWaiting (link : Nat) (result : Option (Except SdkError Pack)) : Waiting :=
  { position := link, link := link, seq := firstLineSeq, pack := exampleToPack 0 firstLineSeq,
    result := result }

theorem run_handsBack_one :
    let actions : List (Action Nat) :=
      [.pushBack 7, .popFront, .findLink (some 0), .sendRequest .ok, .answer 0 exampleAck,
        .handBack (exampleWaiting 0 (some (.ok exampleAck)))]
    let s := Runs.run (step exampleToPack (fun _ => .error "") "60s") (.start Nat) actions
    (s.queued ++ s.sender.items ++ s.requests.map Prod.snd ++ s.replies.map LineReply.item ++
      s.withdrawn).Perm s.pushed.zipIdx ∧
    (∀ reply ∈ s.replies, Own (fun _ => .error "") s reply) ∧
    ∀ sent ∈ s.sent, sent.item ∉ s.withdrawn := by
  refine run_handsBack exampleToPack (fun _ => .error "") "60s" _
    ⟨trivial, trivial, trivial, ?_, ?_, trivial, trivial⟩
  · intro _ w hw
    cases hw
  · intro sent _ hposition w hw _ _
    cases hw with
    | head => rfl
    | tail _ hw => cases hw

/-- The link is lost and another one numbers its first request as the lost one did. The
second request is written over the first, and the task of the first hands the second one
back. -/
theorem overwritten_handsBack :
    let actions : List (Action Nat) :=
      [.pushBack 7, .popFront, .findLink (some 0), .sendRequest .ok, .close 0,
        .pushBack 8, .popFront, .findLink (some 1), .sendRequest .ok,
        .fail (exampleWaiting 0 none) "closed",
        .handBack (exampleWaiting 0 (some (.error (.network "closed"))))]
    let s := Runs.run (step exampleToPack (fun _ => .error "") "60s") (.start Nat) actions
    ¬(s.queued ++ s.sender.items ++ s.requests.map Prod.snd ++ s.replies.map LineReply.item ++
      s.withdrawn).Perm s.pushed.zipIdx ∧
    ∃ reply ∈ s.replies, ¬Own (fun _ => .error "") s reply := by
  intro actions s
  have hreplies : s.replies = [{ item := (8, 1), result := .error (.network "closed") }] := by
    decide +kernel
  have houtcomes : s.outcomes = [(0, .lost "closed")] := by decide +kernel
  refine ⟨by decide +kernel, _, hreplies ▸ List.mem_singleton_self _, ?_⟩
  rintro ⟨outcome, hmem, _⟩
  rw [houtcomes] at hmem
  cases hmem with
  | tail _ hmem => cases hmem

end Line

end RequestLine
end WbfMatrixClient
