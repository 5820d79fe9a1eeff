import WbfMatrixClient.RecentMarks

/-!
# The mark over runs of calls

A call may find that another one, which was answered later and has seen newer events,
has written the mark already, and nothing compares the two marks. The marks grow as
long as the calls write them in the order in which their first windows were answered.
What lies between two marks is in the cache then, or a call has said that it is not.
-/

namespace WbfMatrixClient
namespace RecentMarks

open EventHistory

/-- The event has a room and what else it takes to be stored. -/
def Storable (raw : Json) : Prop :=
  ∃ room identity, raw.text "room_id" = some room ∧
    Cache.storable room (.fromWsJson raw) = some identity

/-- The event is in the cache. -/
def InCache (cache : Cache) (raw : Json) : Prop :=
  ∃ room eventId sender, raw.text "room_id" = some room ∧
    Cache.storable room (.fromWsJson raw) = some (eventId, sender) ∧
    (findEvent cache.events room eventId).isSome

theorem InCache.later {a b : Cache} {raw : Json} (h : InCache a raw) (hlater : Later a b) :
    InCache b raw := by
  obtain ⟨room, eventId, sender, hroom, hstorable, hfound⟩ := h
  obtain ⟨row, hrow⟩ := Option.isSome_iff_exists.mp hfound
  obtain ⟨row', hrow', _⟩ := hlater.events room eventId row hrow
  exact ⟨room, eventId, sender, hroom, hstorable, by rw [hrow']; rfl⟩

section Storing

variable {packages : ContentPackages} {me room : String}

variable {cache : Cache}

theorem processEvent_finds {eventId : String} {processed : Cache}
    (h : Cache.processEvent packages room eventId cache = some processed)
    (hfound : (findEvent cache.events room eventId).isSome) :
    (findEvent processed.events room eventId).isSome := by
  obtain ⟨row, hrow⟩ := Option.isSome_iff_exists.mp hfound
  obtain ⟨row', hrow', _⟩ := (processEvent_later packages h).events room eventId row hrow
  rw [hrow']
  rfl

theorem storeEvent_finds {eventId sender : String} {incoming : IncomingEvent} {stored : Cache}
    (h : Cache.storeEvent packages room eventId sender incoming cache = some stored) :
    (findEvent stored.events room eventId).isSome := by
  obtain ⟨_, _, hprocess⟩ | ⟨row, hfind, _⟩ := Cache.storeEvent_cases h
  · refine processEvent_finds hprocess ?_
    have hkey : (Cache.newRow room eventId sender incoming).key = (room, eventId) := rfl
    rw [findEvent, Table.find_append, if_pos hkey]
    cases Table.find EventRow.key cache.events (room, eventId) <;> rfl
  · obtain ⟨row', hrow', _⟩ := (storeEvent_later packages h).events room eventId row hfind
    rw [hrow']
    rfl

/-- What happened to one event: it is in the cache, or it counts as one that cannot be
stored. -/
def Settled (room : String) (incoming : IncomingEvent) (cache : Cache) (unstorable : Nat) : Prop :=
  match Cache.storable room incoming with
  | none => 0 < unstorable
  | some (eventId, _) => (findEvent cache.events room eventId).isSome

theorem Settled.later {incoming : IncomingEvent} {a b : Cache} {n m : Nat}
    (h : Settled room incoming a n) (hlater : Later a b) (hle : n ≤ m) :
    Settled room incoming b m := by
  rw [Settled] at h ⊢
  cases hstorable : Cache.storable room incoming with
  | none =>
    simp only [hstorable] at h
    exact Nat.lt_of_lt_of_le h hle
  | some identity =>
    simp only [hstorable] at h
    obtain ⟨row, hrow⟩ := Option.isSome_iff_exists.mp h
    obtain ⟨row', hrow', _⟩ := hlater.events room identity.1 row hrow
    simp only [hrow', Option.isSome_some]

theorem upsertAll_settled (events : List IncomingEvent) {result : Cache × Nat × Nat}
    (h : Cache.upsertAll packages me room events cache = some result) :
    ∀ incoming ∈ events, Settled room incoming result.1 result.2.2 := by
  induction events generalizing cache result with
  | nil =>
    intro incoming hincoming
    cases hincoming
  | cons first events ih =>
    obtain ⟨one, rest, hone, hrest, hresult, hcount⟩ := Cache.upsertAll_cons h
    have hlater := upsertAll_later packages events hrest
    have hmore : rest.2.2 ≤ result.2.2 := by
      rw [hcount]
      split_ifs
      · exact Nat.le_refl _
      · exact Nat.le_succ _
    intro incoming hincoming
    rw [hresult]
    rcases List.mem_cons.mp hincoming with rfl | hincoming
    · rw [Settled]
      obtain ⟨hstorable, rfl⟩ | ⟨eventId, sender, stored, hstorable, hstored, rfl⟩ :=
        Cache.upsertEvent_cases hone
      · simp only [hstorable, hcount]
        exact Nat.succ_pos _
      · have hfound := storeEvent_finds hstored
        obtain ⟨row, hrow⟩ := Option.isSome_iff_exists.mp hfound
        obtain ⟨row', hrow', _⟩ := (((markEncrypted_later stored room incoming).trans
          (logSynced_later _ me room eventId)).trans hlater).events room eventId row hrow
        simp only [hstorable, hrow', Option.isSome_some]
    · exact (ih hrest incoming hincoming).later (Later.refl _) hmore

theorem storeRooms_later (rooms : ByRoom IncomingEvent) (cache : Cache) :
    Later cache (storeRooms packages me rooms cache).cache := by
  induction rooms generalizing cache with
  | nil => exact Later.refl cache
  | cons first rooms ih =>
    obtain ⟨room, events⟩ := first
    rw [storeRooms]
    cases hall : cache.upsertEventsCounted packages me room events with
    | none => exact Later.refl cache
    | some result =>
      exact ((userRowId_later cache me).trans ((roomRowId_later _ room).trans
        (upsertAll_later packages events hall))).trans (ih result.1)

theorem storeRooms_settled (rooms : ByRoom IncomingEvent) (cache : Cache)
    (hok : (storeRooms packages me rooms cache).ok = true) :
    ∀ group ∈ rooms, ∀ incoming ∈ group.2, Settled group.1 incoming
      (storeRooms packages me rooms cache).cache
      (storeRooms packages me rooms cache).unstorable := by
  induction rooms generalizing cache with
  | nil =>
    intro group hgroup
    cases hgroup
  | cons first rooms ih =>
    obtain ⟨room, events⟩ := first
    rw [storeRooms] at hok ⊢
    cases hall : cache.upsertEventsCounted packages me room events with
    | none =>
      rw [hall] at hok
      cases hok
    | some result =>
      simp only [hall] at hok ⊢
      intro group hgroup incoming hincoming
      rcases List.mem_cons.mp hgroup with rfl | hgroup
      · exact (upsertAll_settled events hall incoming hincoming).later
          (storeRooms_later rooms result.1) (Nat.le_add_right _ _)
      · exact (ih result.1 hok group hgroup incoming hincoming).later (Later.refl _)
          (Nat.le_add_left _ _)

/-- Nothing is lost from the groups, and the event is in the group of its room. -/
theorem mem_addToRoom {α : Type} (room : String) (x : α) (rooms : ByRoom α) :
    (∃ group ∈ addToRoom room x rooms, group.1 = room ∧ x ∈ group.2) ∧
      ∀ group ∈ rooms, ∃ group' ∈ addToRoom room x rooms,
        group'.1 = group.1 ∧ group.2 ⊆ group'.2 := by
  induction rooms with
  | nil => simp [addToRoom]
  | cons first rooms ih =>
    obtain ⟨other, events⟩ := first
    rw [addToRoom]
    split_ifs with hsame hless
    · subst hsame
      refine ⟨⟨_, List.mem_cons_self, rfl, by simp⟩, fun group hgroup => ?_⟩
      rcases List.mem_cons.mp hgroup with rfl | hgroup
      · exact ⟨_, List.mem_cons_self, rfl, List.subset_append_left _ _⟩
      · exact ⟨group, List.mem_cons_of_mem _ hgroup, rfl, List.Subset.refl _⟩
    · exact ⟨⟨_, List.mem_cons_self, rfl, List.mem_singleton_self _⟩, fun group hgroup =>
        ⟨group, List.mem_cons_of_mem _ hgroup, rfl, List.Subset.refl _⟩⟩
    · obtain ⟨⟨group, hgroup, hin⟩, hkept⟩ := ih
      refine ⟨⟨group, List.mem_cons_of_mem _ hgroup, hin⟩, fun old hold => ?_⟩
      rcases List.mem_cons.mp hold with rfl | hold
      · exact ⟨_, List.mem_cons_self, rfl, List.Subset.refl _⟩
      · obtain ⟨group', hgroup', hsame⟩ := hkept old hold
        exact ⟨group', List.mem_cons_of_mem _ hgroup', hsame⟩

theorem mem_groupByRoom (raws : List Json) (rooms : ByRoom IncomingEvent) :
    (∀ raw ∈ raws, ∀ room, raw.text "room_id" = some room →
      ∃ group ∈ raws.foldl addByRoom rooms,
        group.1 = room ∧ IncomingEvent.fromWsJson raw ∈ group.2) ∧
    ∀ group ∈ rooms, ∃ group' ∈ raws.foldl addByRoom rooms,
      group'.1 = group.1 ∧ group.2 ⊆ group'.2 := by
  induction raws generalizing rooms with
  | nil =>
    refine ⟨fun raw hraw => absurd hraw List.not_mem_nil, fun group hgroup => ?_⟩
    exact ⟨group, hgroup, rfl, List.Subset.refl _⟩
  | cons first raws ih =>
    obtain ⟨hlater, hkept⟩ := ih (addByRoom rooms first)
    have hfirst : ∀ group ∈ rooms, ∃ group' ∈ addByRoom rooms first,
        group'.1 = group.1 ∧ group.2 ⊆ group'.2 := by
      intro group hgroup
      rw [addByRoom]
      cases first.text "room_id" with
      | none => exact ⟨group, hgroup, rfl, List.Subset.refl _⟩
      | some room => exact (mem_addToRoom room (IncomingEvent.fromWsJson first) rooms).2 group hgroup
    constructor
    · intro raw hraw room hroom
      rcases List.mem_cons.mp hraw with rfl | hraw
      · obtain ⟨group, hgroup, hgroupRoom, hin⟩ :=
          (mem_addToRoom room (IncomingEvent.fromWsJson raw) rooms).1
        have hadded : group ∈ addByRoom rooms raw := by
          rw [addByRoom, hroom]
          exact hgroup
        obtain ⟨group', hgroup', hsame, hsub⟩ := hkept group hadded
        exact ⟨group', hgroup', hsame.trans hgroupRoom, hsub hin⟩
      · exact hlater raw hraw room hroom
    · intro group hgroup
      obtain ⟨group', hgroup', hsame, hsub⟩ := hfirst group hgroup
      obtain ⟨group'', hgroup'', hsame', hsub'⟩ := hkept group' hgroup'
      exact ⟨group'', hgroup'', hsame'.trans hsame, fun _ h => hsub' (hsub h)⟩

/-- The event is in the cache, or it cannot be stored and was counted. -/
def Handed (cache : Cache) (unstorable : Nat) (e : LogEvent) : Prop :=
  InCache cache e.event ∨ (¬Storable e.event ∧ 0 < unstorable)

theorem Handed.later {a b : Cache} {n m : Nat} {e : LogEvent} (h : Handed a n e)
    (hlater : Later a b) (hle : n ≤ m) : Handed b m e := by
  rcases h with h | ⟨hnot, hpos⟩
  · exact .inl (h.later hlater)
  · exact .inr ⟨hnot, Nat.lt_of_lt_of_le hpos hle⟩

theorem storeBatch_later (cache : Cache) (raws : List Json) :
    Later cache (storeBatch packages me cache raws).cache := storeRooms_later _ cache

theorem storeBatch_handed (cache : Cache) (batch : List LogEvent)
    (hok : (storeBatch packages me cache (batch.map LogEvent.event)).ok = true) :
    ∀ e ∈ batch, Handed (storeBatch packages me cache (batch.map LogEvent.event)).cache
      (storeBatch packages me cache (batch.map LogEvent.event)).unstorable e := by
  intro e he
  have hraw : e.event ∈ batch.map LogEvent.event := List.mem_map_of_mem he
  cases hroom : e.event.text "room_id" with
  | none =>
    refine .inr ⟨?_, ?_⟩
    · rintro ⟨room, _, hnamed, _⟩
      rw [hroom] at hnamed
      cases hnamed
    · refine Nat.add_pos_left (List.length_pos_of_mem (List.mem_filter.mpr ⟨hraw, ?_⟩)) _
      rw [hroom]
      rfl
  | some room =>
    obtain ⟨group, hgroup, rfl, hin⟩ := (mem_groupByRoom (batch.map LogEvent.event) []).1
      e.event hraw room hroom
    have hsettled := storeRooms_settled _ cache hok group hgroup _ hin
    rw [Settled] at hsettled
    cases hstorable : Cache.storable group.1 (.fromWsJson e.event) with
    | none =>
      simp only [hstorable] at hsettled
      refine .inr ⟨?_, Nat.add_pos_right _ hsettled⟩
      rintro ⟨room, identity, hnamed, hidentity⟩
      rw [hroom] at hnamed
      cases hnamed
      rw [hstorable] at hidentity
      cases hidentity
    | some identity =>
      simp only [hstorable] at hsettled
      exact .inl ⟨group.1, identity.1, identity.2, hroom, hstorable, hsettled⟩

theorem storeBatches_later (batches : List (List LogEvent)) (cache : Cache) :
    Later cache (storeBatches packages me batches cache).cache := by
  induction batches generalizing cache with
  | nil => exact Later.refl cache
  | cons batch batches ih =>
    rw [storeBatches]
    simp only
    split_ifs
    · exact (storeBatch_later cache _).trans (ih _)
    · exact storeBatch_later cache _

theorem storeBatches_handed (batches : List (List LogEvent)) (cache : Cache)
    (hok : (storeBatches packages me batches cache).ok = true) :
    ∀ e ∈ batches.flatten, Handed (storeBatches packages me batches cache).cache
      (storeBatches packages me batches cache).unstorable e := by
  induction batches generalizing cache with
  | nil =>
    intro e he
    cases he
  | cons batch batches ih =>
    intro e he
    rw [storeBatches] at hok ⊢
    simp only at hok ⊢
    split_ifs at hok ⊢ with hfirst
    · rcases List.mem_append.mp (List.flatten_cons ▸ he) with he | he
      · exact (storeBatch_handed cache batch hfirst e he).later (storeBatches_later batches _)
          (Nat.le_add_right _ _)
      · exact (ih _ hok e he).later (Later.refl _) (Nat.le_add_left _ _)
    · exact absurd hok hfirst

end Storing

namespace State

variable {packages : CachePackages} {me : String} {client : RecentClient}

/-- A mark is written after every mark of a call whose first window was answered
earlier, nobody starts above the mark, and the windows of a call can be counted. -/
def Proper (s : State) : Action → Prop
  | .write operation => operation.forgets = false
  | .begin _ since fromScratch _ =>
      ∀ seq, fromScratch = false → since = some seq → ∃ mark, s.cgSeq = some mark ∧ seq ≤ mark
  | .window id _ _ =>
      ∀ pull, s.calls id = some (.windows pull) → pull.summary.windows + 1 ≠ 0
  | .finish id =>
      ∀ pull, s.calls id = some (.pulled pull) → pull.summary.newCgSeq.isSome →
        s.lastSeen ≤ pull.seen
  | _ => True

/-- The event is in the cache, or a call has said that it could not be stored, or that
it stopped above it. -/
def Accounted (s : State) (e : LogEvent) : Prop :=
  InCache s.cache e.event ∨
    (¬Storable e.event ∧ ∃ count, 0 < count ∧ .unstorable count ∈ s.reports) ∨
    ∃ events below, .stoppedAtLimit events (some below) ∈ s.reports ∧ e.seq < below

/-- Every event between two numbers. -/
def Covered (s : State) (low high : Int) : Prop :=
  ∀ e ∈ s.log, low < e.seq → e.seq ≤ high → s.Accounted e

/-- The newest number of the log when it was so long. -/
def newestOf (log : List LogEvent) (length : Nat) : Option Int :=
  (log.take length).getLast?.map LogEvent.seq

/-- What a call has seen and handed over so far. -/
structure Pulls (s : State) (pull : Pull) : Prop where
  seen_le : pull.seen ≤ s.log.length
  start : ∀ seq, pull.cgSeq = some seq → (∃ e ∈ s.log, seq ≤ e.seq) ∧
    ∃ first, s.marks.head? = some first ∧ s.Covered first seq
  handed : ∀ last, pull.summary.lastLs = some last → ∀ e ∈ s.log.take pull.seen,
    (∀ seq, pull.cgSeq = some seq → seq < e.seq) → last ≤ e.seq →
      Handed s.cache pull.skipped e
  head : ∀ newCgSeq, pull.summary.newCgSeq = some newCgSeq →
    newestOf s.log pull.seen = some newCgSeq ∧ pull.summary.lastLs.isSome

/-- Between two windows. -/
structure Pulling (s : State) (pull : Pull) : Prop extends Pulls s pull where
  from_start : pull.request.cgSeq = pull.cgSeq.filter fun seq => 0 < seq
  below : pull.request.before = pull.summary.lastLs
  none_yet : pull.summary.windows = 0 → pull.summary.lastLs = none
  not_caughtUp : pull.summary.caughtUp = false

/-- After the last window. -/
structure Pulled (s : State) (pull : Pull) : Prop extends Pulls s pull where
  whole : pull.summary.caughtUp = true → ∀ e ∈ s.log.take pull.seen,
    (∀ seq, pull.cgSeq = some seq → seq < e.seq) → Handed s.cache pull.skipped e

structure Kept (s : State) : Prop where
  growing : Growing s.log
  mark_eq : s.cgSeq = s.marks.getLast?
  marks_grow : s.marks.Pairwise (· ≤ ·)
  newest : ∀ mark, s.cgSeq = some mark → newestOf s.log s.lastSeen = some mark
  lastSeen_le : s.lastSeen ≤ s.log.length
  covered : ∀ first mark, s.marks.head? = some first → s.cgSeq = some mark →
    s.Covered first mark
  pulling : ∀ id pull, s.calls id = some (.windows pull) → s.Pulling pull
  pulled : ∀ id pull, s.calls id = some (.pulled pull) → s.Pulled pull

theorem kept_start : Kept .start where
  growing := List.Pairwise.nil
  mark_eq := rfl
  marks_grow := List.Pairwise.nil
  newest := by simp [start]
  lastSeen_le := Nat.le_refl _
  covered := by simp [start]
  pulling := by simp [start]
  pulled := by simp [start]

variable {s s' : State}

variable {e : LogEvent}

theorem Accounted.mono (h : s.Accounted e) (hcache : Later s.cache s'.cache)
    (hreports : s.reports ⊆ s'.reports) : s'.Accounted e := by
  rcases h with h | ⟨hnot, count, hpos, hsaid⟩ | ⟨events, below, hsaid, hless⟩
  · exact .inl (h.later hcache)
  · exact .inr (.inl ⟨hnot, count, hpos, hreports hsaid⟩)
  · exact .inr (.inr ⟨events, below, hreports hsaid, hless⟩)

/-- More is in the cache, and more was said. The log and the first mark are as they
were. -/
structure Extends (s s' : State) : Prop where
  log : s'.log = s.log
  first : ∀ first, s.marks.head? = some first → s'.marks.head? = some first
  cache : Later s.cache s'.cache
  reports : s.reports ⊆ s'.reports

theorem Extends.covered (h : Extends s s') {low high : Int} (hcovered : s.Covered low high) :
    s'.Covered low high := by
  intro e he hlow hhigh
  rw [h.log] at he
  exact (hcovered e he hlow hhigh).mono h.cache h.reports

theorem Pulls.extends {pull : Pull} (hpulls : s.Pulls pull) (h : Extends s s') :
    s'.Pulls pull where
  seen_le := by
    rw [h.log]
    exact hpulls.seen_le
  start := by
    intro seq hseq
    obtain ⟨hreached, first, hfirst, hcovered⟩ := hpulls.start seq hseq
    rw [h.log]
    exact ⟨hreached, first, h.first first hfirst, h.covered hcovered⟩
  handed := by
    intro last hlast e he hstart hle
    rw [h.log] at he
    exact (hpulls.handed last hlast e he hstart hle).later h.cache (Nat.le_refl _)
  head := by
    rw [h.log]
    exact hpulls.head

theorem Pulling.extends {pull : Pull} (hpulling : s.Pulling pull) (h : Extends s s') :
    s'.Pulling pull := { hpulling with toPulls := hpulling.toPulls.extends h }

theorem Pulled.extends {pull : Pull} (hpulled : s.Pulled pull) (h : Extends s s') :
    s'.Pulled pull where
  toPulls := hpulled.toPulls.extends h
  whole := by
    intro hcaught e he hstart
    rw [h.log] at he
    exact (hpulled.whole hcaught e he hstart).later h.cache (Nat.le_refl _)

/-- A step that writes no mark, after which one call stands where it may. -/
theorem Kept.extends (h : Kept s) (hextends : Extends s s') (hmarks : s'.marks = s.marks)
    (hmark : s'.cgSeq = s.cgSeq) (hseen : s'.lastSeen = s.lastSeen)
    (hpulling : ∀ id pull, s'.calls id = some (.windows pull) → s.calls id = some (.windows pull) ∨
      s'.Pulling pull)
    (hpulled : ∀ id pull, s'.calls id = some (.pulled pull) → s.calls id = some (.pulled pull) ∨
      s'.Pulled pull) :
    Kept s' where
  growing := by
    rw [hextends.log]
    exact h.growing
  mark_eq := by
    rw [hmark, hmarks]
    exact h.mark_eq
  marks_grow := by
    rw [hmarks]
    exact h.marks_grow
  newest := by
    rw [hmark, hseen, hextends.log]
    exact h.newest
  lastSeen_le := by
    rw [hseen, hextends.log]
    exact h.lastSeen_le
  covered := by
    intro first mark hfirst hcgSeq
    rw [hmarks] at hfirst
    rw [hmark] at hcgSeq
    exact hextends.covered (h.covered first mark hfirst hcgSeq)
  pulling := by
    intro id pull hcall
    rcases hpulling id pull hcall with hcall | hnow
    · exact (h.pulling id pull hcall).extends hextends
    · exact hnow
  pulled := by
    intro id pull hcall
    rcases hpulled id pull hcall with hcall | hnow
    · exact (h.pulled id pull hcall).extends hextends
    · exact hnow

theorem calls_setCall {id other : Nat} {call found : Call}
    (h : (s.setCall id call).calls other = some found) :
    found = call ∨ s.calls other = some found := by
  change Function.update s.calls id (some call) other = some found at h
  by_cases hsame : other = id
  · subst hsame
    rw [Function.update_self] at h
    exact .inl (Option.some.inj h).symm
  · rw [Function.update_of_ne hsame] at h
    exact .inr h

theorem Kept.setCall (h : Kept s) (id : Nat) {call : Call}
    (hpulling : ∀ pull, call = .windows pull → s.Pulling pull)
    (hpulled : ∀ pull, call = .pulled pull → s.Pulled pull) : Kept (s.setCall id call) := by
  have hextends : Extends s (s.setCall id call) :=
    ⟨rfl, fun _ hfirst => hfirst, Later.refl _, List.Subset.refl _⟩
  refine h.extends hextends rfl rfl rfl ?_ ?_
  · intro other pull hcall
    rcases calls_setCall hcall with hnow | hbefore
    · exact .inr ((hpulling pull hnow.symm).extends hextends)
    · exact .inl hbefore
  · intro other pull hcall
    rcases calls_setCall hcall with hnow | hbefore
    · exact .inr ((hpulled pull hnow.symm).extends hextends)
    · exact .inl hbefore

theorem extends_write (s : State) {cache : Cache} (hlater : Later s.cache cache) :
    Extends s { s with cache := cache } := ⟨rfl, fun _ hfirst => hfirst, hlater, List.Subset.refl _⟩

theorem Kept.write (h : Kept s) {cache : Cache} (hlater : Later s.cache cache) :
    Kept { s with cache := cache } :=
  h.extends (extends_write s hlater) rfl rfl rfl
    (fun _ _ hcall => .inl hcall) (fun _ _ hcall => .inl hcall)

variable {log : List LogEvent} {length : Nat}

theorem newestOf_append (hle : length ≤ log.length) (e : LogEvent) :
    newestOf (log ++ [e]) length = newestOf log length := by
  rw [newestOf, newestOf, List.take_append_of_le_length hle]

variable {newest : Int}

theorem exists_of_newestOf (h : newestOf log length = some newest) :
    ∃ e ∈ log.take length, e.seq = newest := by
  rw [newestOf, Option.map_eq_some_iff] at h
  obtain ⟨e, he, hseq⟩ := h
  exact ⟨e, List.mem_of_getLast? he, hseq⟩

/-- Nothing in a growing log is newer than its end. -/
theorem le_newestOf (hlog : Growing log) (h : newestOf log length = some newest)
    (he : e ∈ log.take length) : e.seq ≤ newest := by
  have hpart : Growing (log.take length) := List.Pairwise.sublist (List.take_sublist _ _) hlog
  rw [newestOf, Option.map_eq_some_iff] at h
  obtain ⟨last, hlast, rfl⟩ := h
  obtain ⟨before, hsplit⟩ := List.getLast?_eq_some_iff.mp hlast
  rw [hsplit] at he hpart
  rcases List.mem_append.mp he with he | he
  · exact Int.le_of_lt ((List.pairwise_append.mp hpart).2.2 e he last (List.mem_singleton_self _))
  · rw [List.mem_singleton.mp he]

/-- What is not newer than the end of a part of the log is in this part. -/
theorem mem_take_of_le (hlog : Growing log) (h : newestOf log length = some newest) (he : e ∈ log)
    (hle : e.seq ≤ newest) : e ∈ log.take length := by
  obtain ⟨last, hlast, rfl⟩ := exists_of_newestOf h
  have hsplit := List.take_append_drop length log
  rw [← hsplit] at he hlog
  rcases List.mem_append.mp he with he | he
  · exact he
  · have hlater := (List.pairwise_append.mp hlog).2.2 last hlast e he
    omega

theorem newestOf_mono (hlog : Growing log) {length' : Nat} (hle : length ≤ length') {newest' : Int}
    (h : newestOf log length = some newest) (h' : newestOf log length' = some newest') :
    newest ≤ newest' := by
  obtain ⟨e, he, rfl⟩ := exists_of_newestOf h
  exact le_newestOf hlog h' (List.take_subset_take_left log hle he)

theorem Kept.arrive (h : Kept s) (hnew : ∀ old ∈ s.log, old.seq < e.seq) :
    Kept { s with log := s.log ++ [e] } := by
  have hpulls : ∀ {pull : Pull}, s.Pulls pull →
      State.Pulls { s with log := s.log ++ [e] } pull := by
    intro pull hpulls
    constructor
    · exact Nat.le_trans hpulls.seen_le (by simp)
    · intro seq hseq
      obtain ⟨⟨old, hold, hle⟩, first, hfirst, hcovered⟩ := hpulls.start seq hseq
      refine ⟨⟨old, List.mem_append_left _ hold, hle⟩, first, hfirst, ?_⟩
      intro found hfound hlow hhigh
      rcases List.mem_append.mp hfound with hfound | hfound
      · exact hcovered found hfound hlow hhigh
      · rw [List.mem_singleton.mp hfound] at hhigh
        have hafter := hnew old hold
        omega
    · intro last hlast found hfound
      rw [List.take_append_of_le_length hpulls.seen_le] at hfound
      exact hpulls.handed last hlast found hfound
    · intro newCgSeq hnewCgSeq
      rw [newestOf_append hpulls.seen_le]
      exact hpulls.head newCgSeq hnewCgSeq
  constructor
  case growing =>
    refine List.pairwise_append.mpr ⟨h.growing, List.pairwise_singleton _ _, ?_⟩
    intro old hold found hfound
    rw [List.mem_singleton.mp hfound]
    exact hnew old hold
  case mark_eq => exact h.mark_eq
  case marks_grow => exact h.marks_grow
  case newest =>
    intro mark hmark
    rw [newestOf_append h.lastSeen_le]
    exact h.newest mark hmark
  case lastSeen_le => exact Nat.le_trans h.lastSeen_le (by simp)
  case covered =>
    intro first mark hfirst hmark found hfound hlow hhigh
    rcases List.mem_append.mp hfound with hfound | hfound
    · exact h.covered first mark hfirst hmark found hfound hlow hhigh
    · obtain ⟨old, hold, hseq⟩ := exists_of_newestOf (h.newest mark hmark)
      have hafter := hnew old (List.mem_of_mem_take hold)
      rw [List.mem_singleton.mp hfound] at hhigh
      omega
  case pulling =>
    intro id pull hcall
    have hpulling := h.pulling id pull hcall
    exact { hpulling with toPulls := hpulls hpulling.toPulls }
  case pulled =>
    intro id pull hcall
    have hpulled := h.pulled id pull hcall
    refine { toPulls := hpulls hpulled.toPulls, whole := fun hcaught found hfound => ?_ }
    rw [List.take_append_of_le_length hpulled.seen_le] at hfound
    exact hpulled.whole hcaught found hfound

theorem Kept.begin (h : Kept s) (id : Nat) {since : Option Int} {fromScratch : Bool}
    (plan : RecentPlan)
    (hproper : ∀ seq, fromScratch = false → since = some seq → ∃ mark, s.cgSeq = some mark ∧ seq ≤
      mark) : Kept (s.begin client id since fromScratch plan) := by
  rw [State.begin]
  refine h.setCall id ?_ fun _ hcall => by cases hcall
  intro pull hcall
  cases hcall
  refine ⟨⟨Nat.zero_le _, ?_, ?_, ?_⟩, rfl, rfl, fun _ => rfl, rfl⟩
  · intro seq hseq
    have hmark : ∃ mark, s.cgSeq = some mark ∧ seq ≤ mark := by
      cases fromScratch with
      | true => cases hseq
      | false =>
        cases since with
        | none => exact ⟨seq, hseq, Int.le_refl _⟩
        | some since =>
          cases hseq
          exact hproper seq rfl rfl
    obtain ⟨mark, hmark, hle⟩ := hmark
    obtain ⟨e, he, hseq⟩ := exists_of_newestOf (h.newest mark hmark)
    refine ⟨⟨e, List.mem_of_mem_take he, by omega⟩, ?_⟩
    cases hmarks : s.marks with
    | nil =>
      rw [h.mark_eq, hmarks] at hmark
      cases hmark
    | cons first rest =>
      refine ⟨first, rfl, fun found hfound hlow hhigh => ?_⟩
      exact h.covered first mark (by rw [hmarks]; rfl) hmark found hfound hlow
        (Int.le_trans hhigh hle)
  · intro last hlast
    cases hlast
  · intro newCgSeq hnewCgSeq
    cases hnewCgSeq

theorem flatten_splitLengths {α : Type} :
    ∀ (sizes : List Nat) (l : List α), l.length ≤ sizes.sum →
      (sizes.splitLengths l).flatten = l := by
  intro sizes
  induction sizes with
  | nil =>
    intro l hle
    rw [List.length_eq_zero_iff.mp (Nat.le_zero.mp hle)]
    rfl
  | cons size sizes ih =>
    intro l hle
    rw [List.splitLengths_cons, List.flatten_cons, ih _ (by simp at hle ⊢; omega),
      List.take_append_drop]

/-- The start of a list that goes down holds what is not below its end. -/
theorem mem_take_of_newest {events : List LogEvent} (hnewest : NewestFirst events) {size : Nat}
    {last : LogEvent} (hlast : (events.take size).getLast? = some last) (he : e ∈ events)
    (hle : last.seq ≤ e.seq) : e ∈ events.take size := by
  have hin := List.mem_of_getLast? hlast
  have hsplit := List.take_append_drop size events
  rw [← hsplit] at he hnewest
  rcases List.mem_append.mp he with he | he
  · exact he
  · have hbelow := (List.pairwise_append.mp hnewest).2.2 last hin e he
    omega

/-- The first of a range without an upper end is the newest of the log. -/
theorem head_range (hlog : Growing log) {request : RecentRequest} (hbefore : request.before = none)
    {first : LogEvent} (h : (request.range log).head? = some first) :
    newestOf log log.length = some first.seq := by
  obtain ⟨hfirst, hwants⟩ := RecentRequest.mem_range.mp (List.mem_of_mem_head? h)
  rw [newestOf, List.take_length]
  cases hlast : log.getLast? with
  | none =>
    rw [List.getLast?_eq_none_iff.mp hlast] at hfirst
    cases hfirst
  | some last =>
    obtain ⟨before, rfl⟩ := List.getLast?_eq_some_iff.mp hlast
    have hnewest : ∀ e ∈ before ++ [last], e.seq ≤ last.seq := by
      intro e he
      rcases List.mem_append.mp he with he | he
      · exact Int.le_of_lt
          ((List.pairwise_append.mp hlog).2.2 e he last (List.mem_singleton_self _))
      · rw [List.mem_singleton.mp he]
    have hlastWants : request.Wants last :=
      ⟨fun seq hseq => Int.lt_of_lt_of_le (hwants.1 seq hseq) (hnewest first hfirst),
        fun seq hseq => by rw [hbefore] at hseq; cases hseq⟩
    rw [RecentRequest.range, List.filter_append,
      List.filter_cons_of_pos (by simpa using hlastWants), List.filter_nil, List.reverse_append,
      List.reverse_singleton, List.singleton_append, List.head?_cons, Option.some.injEq] at h
    rw [h]
    rfl

section Window

variable {pull : Pull}

/-- What the call still wants is in the range of its next window. -/
theorem Pulling.mem_range (h : s.Pulling pull) {e : LogEvent} (he : e ∈ s.log)
    (hstart : ∀ seq, pull.cgSeq = some seq → seq < e.seq)
    (hbelow : ∀ last, pull.summary.lastLs = some last → e.seq < last) :
    e ∈ (windowRequest pull).range s.log := by
  refine RecentRequest.mem_range.mpr ⟨he, fun seq hseq => ?_, fun seq hseq => ?_⟩
  · change pull.request.cgSeq = some seq at hseq
    rw [h.from_start] at hseq
    exact hstart seq (Option.filter_eq_some_iff.mp hseq).1
  · change pull.request.before = some seq at hseq
    rw [h.below] at hseq
    exact hbelow seq hseq

variable {events : List LogEvent} {more : Bool} {unstorable : Nat} {cache : Cache}

/-- What was handed over, before this window or with it. -/
theorem Pulling.handed_now (h : s.Pulling pull) (hlater : Later s.cache cache)
    (hstored : ∀ e ∈ events, Handed cache unstorable e) {e : LogEvent}
    (he : e ∈ s.log.take (if pull.summary.windows = 0 then s.log.length else pull.seen))
    (hstart : ∀ seq, pull.cgSeq = some seq → seq < e.seq)
    (hevents : e ∈ (windowRequest pull).range s.log → e ∈ events) :
    Handed cache (pull.skipped + unstorable) e := by
  by_cases hbelow : ∀ last, pull.summary.lastLs = some last → e.seq < last
  · exact (hstored e (hevents (h.mem_range (List.mem_of_mem_take he) hstart hbelow))).later
      (Later.refl _) (Nat.le_add_left _ _)
  · push Not at hbelow
    obtain ⟨last, hlast, hle⟩ := hbelow
    have hwindows : pull.summary.windows ≠ 0 := by
      intro hnone
      rw [h.none_yet hnone] at hlast
      cases hlast
    rw [if_neg hwindows] at he
    exact (h.handed last hlast e he hstart hle).later hlater (Nat.le_add_right _ _)

theorem Kept.endWindow (h : Kept s) (hpulling : s.Pulling pull) (id : Nat) {size : Nat}
    (hsize : IsSize s.log (windowRequest pull) size more)
    (hevents : events = ((windowRequest pull).range s.log).take size) (hlater : Later s.cache cache)
    (hstored : ∀ e ∈ events, Handed cache unstorable e) (hcounts : pull.summary.windows + 1 ≠ 0) :
    Kept (State.endWindow { s with cache := cache } id pull events more unstorable) := by
  have hwritten := h.write hlater
  have hnewest : NewestFirst ((windowRequest pull).range s.log) :=
    RecentRequest.newestFirst_range h.growing
  -- what holds of the call after the window, wherever it goes on
  have hpulls : ∀ (request : RecentRequest) (caughtUp : Bool),
      Pulls { s with cache := cache }
        { pull with
          request := request
          summary :=
            { newCgSeq :=
                if pull.summary.windows = 0 then events.head?.map LogEvent.seq
                else pull.summary.newCgSeq
              windows := pull.summary.windows + 1
              events := (pull.summary.events + events.length) % 2 ^ 64
              lastLs := (events.getLast?.map LogEvent.seq).or pull.summary.lastLs
              caughtUp := caughtUp }
          skipped := pull.skipped + unstorable
          seen := if pull.summary.windows = 0 then s.log.length else pull.seen } := by
    intro request caughtUp
    constructor
    · simp only
      split_ifs
      · exact Nat.le_refl _
      · exact hpulling.seen_le
    · intro seq hseq
      obtain ⟨hreached, first, hfirst, hcovered⟩ := hpulling.start seq hseq
      exact ⟨hreached, first, hfirst, (extends_write s hlater).covered hcovered⟩
    · intro last hlast e he hstart hle
      refine hpulling.handed_now hlater hstored he hstart fun hrange => ?_
      cases hend : events.getLast? with
      | none =>
        have hnil := List.getLast?_eq_none_iff.mp hend
        simp only [hend, Option.map_none, Option.none_or] at hlast
        rw [hevents] at hnil
        have hzero : size = 0 ∨ (windowRequest pull).range s.log = [] := by
          simpa [List.take_eq_nil_iff] using hnil
        rcases hzero with hzero | hempty
        · rw [List.length_eq_zero_iff.mp (hsize.2.2.1 hzero)] at hrange
          cases hrange
        · rw [hempty] at hrange
          cases hrange
      | some lowest =>
        simp only [hend, Option.map_some, Option.some_or, Option.some.injEq] at hlast
        rw [hevents] at hend ⊢
        exact mem_take_of_newest hnewest hend hrange (by omega)
    · intro newCgSeq hnewCgSeq
      simp only at hnewCgSeq ⊢
      split_ifs at hnewCgSeq ⊢ with hfirst
      · obtain ⟨first, hhead, rfl⟩ := Option.map_eq_some_iff.mp hnewCgSeq
        refine ⟨?_, ?_⟩
        · refine @head_range _ h.growing (windowRequest pull) ?_ _ ?_
          · exact hpulling.below.trans (hpulling.none_yet hfirst)
          · rw [hevents] at hhead
            have hsizePos : size ≠ 0 := by
              rintro rfl
              cases hhead
            rwa [List.head?_take, if_neg hsizePos] at hhead
        · cases hend : events.getLast? with
          | none =>
            rw [List.getLast?_eq_none_iff.mp hend] at hhead
            cases hhead
          | some last => rfl
      · obtain ⟨hnewestOf, hlastLs⟩ := hpulling.head newCgSeq hnewCgSeq
        refine ⟨hnewestOf, ?_⟩
        rw [Option.isSome_or, hlastLs, Bool.or_true]
  rw [State.endWindow]
  by_cases hends : more = false ∨ events = []
  · simp only [if_pos hends]
    refine hwritten.setCall id (fun _ hcall => by cases hcall) ?_
    intro pulled hcall
    cases hcall
    refine ⟨hpulls _ true, fun _ e he hstart => ?_⟩
    refine hpulling.handed_now hlater hstored he hstart fun hrange => ?_
    rcases hends with hall | hnil
    · rw [hevents, List.take_of_length_le (hsize.2.2.2 hall)]
      exact hrange
    · have hzero : size = 0 ∨ (windowRequest pull).range s.log = [] := by
        rw [hevents] at hnil
        simpa [List.take_eq_nil_iff] using hnil
      rcases hzero with hzero | hempty
      · rw [List.length_eq_zero_iff.mp (hsize.2.2.1 hzero)] at hrange
        cases hrange
      · rw [hempty] at hrange
        cases hrange
  · simp only [if_neg hends]
    refine hwritten.setCall id ?_ fun _ hcall => by cases hcall
    intro next hcall
    cases hcall
    refine ⟨hpulls _ _, hpulling.from_start, ?_, fun hzero => absurd hzero hcounts,
      hpulling.not_caughtUp⟩
    cases hend : events.getLast? with
    | none => exact absurd (.inr (List.getLast?_eq_none_iff.mp hend)) hends
    | some last => simp

theorem Kept.window (h : Kept s) (hpulling : s.Pulling pull) (id : Nat) (sizes : List Nat)
    (more : Bool) (hcounts : pull.summary.windows + 1 ≠ 0) :
    Kept (s.window packages me id pull sizes more) := by
  rw [State.window]
  split_ifs with hlimit hsize
  · refine h.setCall id (fun _ hcall => by cases hcall) ?_
    intro pulled hcall
    cases hcall
    refine ⟨hpulling.toPulls, fun hcaught => ?_⟩
    rw [hpulling.not_caughtUp] at hcaught
    cases hcaught
  · generalize hbatches : sizes.splitLengths
      (((windowRequest pull).range s.log).take sizes.sum) = batches
    have hlater : Later s.cache (storeBatches packages.content me batches s.cache).cache :=
      storeBatches_later batches s.cache
    by_cases hok : (storeBatches packages.content me batches s.cache).ok = true
    · have hstored := storeBatches_handed batches s.cache hok
      rw [← hbatches, flatten_splitLengths _ _ (List.length_take_le _ _), hbatches] at hstored
      simp only [hbatches, if_pos hok]
      exact h.endWindow hpulling id hsize rfl hlater hstored hcounts
    · simp only [hbatches, if_neg hok]
      exact (h.write hlater).setCall id (fun _ hcall => by cases hcall)
        fun _ hcall => by cases hcall
  · exact h

theorem Kept.fail (h : Kept s) (id : Nat) (pull : Pull) (sizes : List Nat) :
    Kept (s.fail packages me id pull sizes) :=
  (h.write (storeBatches_later _ s.cache)).setCall id (fun _ hcall => by cases hcall)
    fun _ hcall => by cases hcall

end Window

theorem le_getLast {marks : List Int} (hgrow : marks.Pairwise (· ≤ ·)) {last : Int}
    (hlast : marks.getLast? = some last) {mark : Int} (hmark : mark ∈ marks) : mark ≤ last := by
  obtain ⟨before, rfl⟩ := List.getLast?_eq_some_iff.mp hlast
  rcases List.mem_append.mp hmark with hmark | hmark
  · exact (List.pairwise_append.mp hgrow).2.2 mark hmark last (List.mem_singleton_self _)
  · rw [List.mem_singleton.mp hmark]

/-- What a call says about what it leaves out. -/
def saying (pull : Pull) : List Report :=
  (if pull.summary.caughtUp then []
    else [.stoppedAtLimit pull.summary.events pull.summary.lastLs]) ++
  (if 0 < pull.skipped then [.unstorable pull.skipped] else [])

/-- The end of a call, with what it says and the mark it writes side by side. -/
theorem finish_eq (s : State) (id : Nat) (pull : Pull) :
    s.finish id pull =
      { s with
        reports := saying pull ++ s.reports
        cgSeq := pull.summary.newCgSeq.or s.cgSeq
        marks := s.marks ++ pull.summary.newCgSeq.toList
        lastSeen := if pull.summary.newCgSeq.isSome then pull.seen else s.lastSeen
        calls := Function.update s.calls id (some .returned) } := by
  rw [finish, saying]
  cases pull.summary.newCgSeq <;> cases pull.summary.caughtUp <;>
    by_cases hskipped : 0 < pull.skipped <;> simp [hskipped, State.setCall]

theorem Kept.finish (h : Kept s) (id : Nat) {pull : Pull} (hpulled : s.Pulled pull)
    (hproper : pull.summary.newCgSeq.isSome → s.lastSeen ≤ pull.seen) :
    Kept (s.finish id pull) := by
  have hextends : Extends s (s.finish id pull) := by
    rw [finish_eq]
    refine ⟨rfl, fun first hfirst => ?_, Later.refl _, List.subset_append_right _ _⟩
    simp only [List.head?_append, hfirst, Option.some_or]
  have hcalls : ∀ {other : Nat} {call : Call}, (s.finish id pull).calls other = some call →
      call = .returned ∨ s.calls other = some call := by
    intro other call hcall
    rw [finish_eq] at hcall
    exact calls_setCall hcall
  cases hwrites : pull.summary.newCgSeq with
  | none =>
    refine h.extends hextends ?_ ?_ ?_ (fun other found hcall => ?_) fun other found hcall => ?_
    · rw [finish_eq, hwrites]
      exact List.append_nil _
    · rw [finish_eq, hwrites]
      rfl
    · rw [finish_eq, hwrites]
      rfl
    · rcases hcalls hcall with hnow | hbefore
      · cases hnow
      · exact .inl hbefore
    · rcases hcalls hcall with hnow | hbefore
      · cases hnow
      · exact .inl hbefore
  | some newCgSeq =>
    obtain ⟨hnewest, hlastLs⟩ := hpulled.head newCgSeq hwrites
    obtain ⟨last, hlast⟩ := Option.isSome_iff_exists.mp hlastLs
    have hafter : ∀ mark ∈ s.marks, mark ≤ newCgSeq := by
      intro mark hmark
      obtain ⟨stored, hstored⟩ : ∃ stored, s.marks.getLast? = some stored :=
        Option.isSome_iff_exists.mp (by
          rw [List.getLast?_isSome]
          exact List.ne_nil_of_mem hmark)
      have hle := newestOf_mono h.growing (hproper (by rw [hwrites]; rfl))
        (h.newest stored (h.mark_eq.trans hstored)) hnewest
      exact Int.le_trans (le_getLast h.marks_grow hstored hmark) hle
    constructor
    case growing =>
      rw [finish_eq]
      exact h.growing
    case mark_eq =>
      rw [finish_eq, hwrites]
      simp
    case marks_grow =>
      rw [finish_eq, hwrites]
      refine List.pairwise_append.mpr ⟨h.marks_grow, List.pairwise_singleton _ _, ?_⟩
      intro mark hmark new hnew
      rw [List.mem_singleton.mp hnew]
      exact hafter mark hmark
    case newest =>
      intro mark hmark
      rw [finish_eq, hwrites] at hmark ⊢
      cases hmark
      exact hnewest
    case lastSeen_le =>
      rw [finish_eq, hwrites]
      exact hpulled.seen_le
    case covered =>
      intro first mark hfirst hmark e he hlow hhigh
      have hhigh' : e.seq ≤ newCgSeq := by
        rw [finish_eq, hwrites] at hmark
        cases hmark
        exact hhigh
      have hlog : e ∈ s.log := hextends.log ▸ he
      have hseen := mem_take_of_le h.growing hnewest hlog hhigh'
      have hsaid : saying pull ⊆ (s.finish id pull).reports := by
        rw [finish_eq]
        exact List.subset_append_left _ _
      -- what the call has in hand is accounted for by its end
      have hhanded : Handed s.cache pull.skipped e → (s.finish id pull).Accounted e := by
        intro hhanded
        rcases hhanded with hin | ⟨hnot, hpos⟩
        · exact .inl (hin.later hextends.cache)
        · refine .inr (.inl ⟨hnot, pull.skipped, hpos, hsaid ?_⟩)
          rw [saying, if_pos hpos]
          exact List.mem_append_right _ (List.mem_singleton_self _)
      by_cases hstart : ∀ seq, pull.cgSeq = some seq → seq < e.seq
      · cases hcaught : pull.summary.caughtUp with
        | true => exact hhanded (hpulled.whole hcaught e hseen hstart)
        | false =>
          by_cases hle : last ≤ e.seq
          · exact hhanded (hpulled.handed last hlast e hseen hstart hle)
          · refine .inr (.inr ⟨pull.summary.events, last, hsaid ?_, by omega⟩)
            rw [saying, hcaught, hlast]
            exact List.mem_append_left _ (List.mem_singleton_self _)
      · push Not at hstart
        obtain ⟨seq, hseq, hle⟩ := hstart
        obtain ⟨_, start, hhead, hcovered⟩ := hpulled.start seq hseq
        have hsame : start = first :=
          Option.some.inj ((hextends.first start hhead).symm.trans hfirst)
        exact (hcovered e hlog (by omega) hle).mono hextends.cache hextends.reports
    case pulling =>
      intro other found hcall
      rcases hcalls hcall with hnow | hbefore
      · cases hnow
      · exact (h.pulling other found hbefore).extends hextends
    case pulled =>
      intro other found hcall
      rcases hcalls hcall with hnow | hbefore
      · cases hnow
      · exact (h.pulled other found hbefore).extends hextends

theorem Kept.step (h : Kept s) {action : Action} (hproper : s.Proper action) :
    Kept (s.step packages me client action) := by
  cases action with
  | arrive e =>
    simp only [State.step]
    split_ifs with hnew
    · exact h.arrive hnew
    · exact h
  | write operation => exact h.write (step_later packages s.cache hproper)
  | begin id since fromScratch plan =>
    simp only [State.step]
    cases s.calls id with
    | none => exact h.begin id plan fun seq hscratch hsince => hproper seq hscratch hsince
    | some _ => exact h
  | window id sizes more =>
    simp only [State.step]
    cases hcall : s.calls id with
    | none => exact h
    | some call =>
      cases call with
      | windows pull => exact h.window (h.pulling id pull hcall) id sizes more (hproper pull hcall)
      | pulled | returned => exact h
  | fail id sizes =>
    simp only [State.step]
    cases s.calls id with
    | none => exact h
    | some call =>
      cases call with
      | windows pull => exact h.fail id pull sizes
      | pulled | returned => exact h
  | finish id =>
    simp only [State.step]
    cases hcall : s.calls id with
    | none => exact h
    | some call =>
      cases call with
      | pulled pull => exact h.finish id (h.pulled id pull hcall) (hproper pull hcall)
      | windows | returned => exact h

/-- In every run in which the calls write their marks in the order in which their first
windows were answered, the mark never moves back, and every event between the first mark
and the last is in the cache, or a call has said why it is not. -/
theorem marks_neverMoveBack (packages : CachePackages) (me : String) (client : RecentClient)
    (actions : List Action) (hproper : Runs.Along (step packages me client) Proper .start actions) :
    let s := Runs.run (step packages me client) .start actions
    s.cgSeq = s.marks.getLast? ∧ s.marks.Pairwise (· ≤ ·) ∧
      ∀ first last, s.marks.head? = some first → s.cgSeq = some last →
        ∀ e ∈ s.log, first < e.seq → e.seq ≤ last → s.Accounted e := by
  intro s
  have h : Kept s :=
    Runs.run_invariant_along Kept (fun _ _ hstep h => h.step hstep) actions _ hproper kept_start
  exact ⟨h.mark_eq, h.marks_grow, h.covered⟩

def examplePackages : CachePackages where
  content := { blockFromJson := fun _ => .error "", quoted := id }
  number := { parseU64 := fun _ => none, parseI64 := fun _ => none }

/-- An event that names no room, so that nothing of it is stored. -/
def exampleEvent (seq : Int) : LogEvent := { seq := seq, event := .null }

def examplePlan : RecentPlan := { maxEvents := none, window := 10, batch := none }

/-- One call after the other. -/
def exampleActions : List Action :=
  [.arrive (exampleEvent 1), .begin 0 none false examplePlan, .window 0 [1] false, .finish 0,
    .arrive (exampleEvent 2), .begin 1 none false examplePlan, .window 1 [1] false, .finish 1]

theorem marks_neverMoveBack_two :
    let s := Runs.run (step examplePackages "" RecentClient.exampleRecentClient) .start exampleActions
    s.cgSeq = s.marks.getLast? ∧ s.marks.Pairwise (· ≤ ·) ∧
      ∀ first last, s.marks.head? = some first → s.cgSeq = some last →
        ∀ e ∈ s.log, first < e.seq → e.seq ≤ last → s.Accounted e := by
  refine marks_neverMoveBack examplePackages "" RecentClient.exampleRecentClient exampleActions
    ⟨trivial, ?_, ?_, ?_, trivial, ?_, ?_, ?_, trivial⟩
  · intro seq _ hseq
    cases hseq
  · intro pull hcall
    cases hcall
    decide
  · intro pull hcall _
    cases hcall
    decide
  · intro seq _ hseq
    cases hseq
  · intro pull hcall
    cases hcall
    decide
  · intro pull hcall _
    cases hcall
    decide

/-- Two calls start from the same mark, a new event is seen by the second one only, and
the first one writes last. -/
theorem marks_move_back :
    ¬(Runs.run (step examplePackages "" RecentClient.exampleRecentClient) .start
      [.arrive (exampleEvent 1), .begin 0 none false examplePlan, .window 0 [1] false,
        .arrive (exampleEvent 2), .begin 1 none false examplePlan, .window 1 [2] false,
        .finish 1, .finish 0]).marks.Pairwise (· ≤ ·) := by decide +kernel

end State

end RecentMarks
end WbfMatrixClient
