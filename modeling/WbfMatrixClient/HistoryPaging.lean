import WbfMatrixClient.EventNumbers
import WbfMatrixClient.Lib.Paging
import WbfMatrixClient.MessageView

/-!
# Paging through the local history

A page is selected from the rows of the cache, the newest first, and the rows that show no message
are dropped after the selection. The page is followed by the one before the last message that is
left on it.
-/

namespace WbfMatrixClient

namespace Cache

variable (packages : ContentPackages) (cache : Cache) (user room : String)

/-- The order of the rows of a page: the numbered ones first, the newest first. -/
def listsFirst (a b : EventRow) : Bool :=
  match a.rSeq, b.rSeq with
  | some x, some y => y < x ∨ x = y ∧ b.originServerTs ≤ a.originServerTs
  | some _, none => true
  | none, some _ => false
  | none, none => b.originServerTs ≤ a.originServerTs

/-- A row of the account that is not hidden and is shown for itself. -/
def isListed (row : EventRow) : Bool :=
  row.room = room ∧ cache.readerHidden user row = some false ∧
    (row.eventClass = .msg ∨ row.eventClass = .general)

def isBefore (beforeRSeq : Option Int) (row : EventRow) : Bool :=
  beforeRSeq.all fun before => row.rSeq.any fun rSeq => rSeq < before

def showsFile (row : EventRow) : Bool :=
  row.eventClass = .msg ∧ row.isRedacted = false ∧
    (row.contentJson.bind fun content => content.text "msgtype") = some fileMsgtype

def selectMessages (beforeRSeq : Option Int) (limit : UInt32) (onlyFiles : Bool) : List Message :=
  (((cache.events.filter fun row => cache.isListed user room row ∧ isBefore beforeRSeq row ∧
    (onlyFiles → showsFile row)).mergeSort listsFirst).take limit.toNat).filterMap
      (cache.toMessage packages user)

def history (beforeRSeq : Option Int) (limit : UInt32) : List Message :=
  cache.selectMessages packages user room beforeRSeq limit false

structure EventPosition where
  rSeq : Option Int
  gSeq : Option Int

/-- Where an event is in the room, if the account has synced it. -/
def findEventPosition (eventId : String) : Option EventPosition :=
  (cache.events.find? fun row =>
    row.room = room ∧ row.eventId = eventId ∧ cache.hasSynced user row).map fun row =>
      { rSeq := row.rSeq, gSeq := row.gSeq }

end Cache

namespace HistoryPaging

/-- What is answered to a request that cannot be. -/
structure UsageError where
  message : String

structure HistoryPage where
  events : List Message
  next : Option String

def refuseLocalPagingWithoutRSeq (room : String) : UsageError :=
  { message := room ++ " has no r_seq (a plain Matrix server), so its history is never answered " ++
    "from the local cache alone; use sync=both" }

section Pages

variable (packages : ContentPackages) (cache : Cache) (user room : String)

/-- The page of the rows before a number. -/
def pageBefore (limit : UInt32) (beforeRSeq : Option Int) : Except UsageError HistoryPage :=
  let messages := cache.history packages user room beforeRSeq limit
  if messages.any fun message => message.rSeq.isNone then
    .error (refuseLocalPagingWithoutRSeq room)
  else
    .ok { events := messages, next := messages.getLast?.map Message.id }

def cachedPageOf (limit : UInt32) : Option String → Except UsageError HistoryPage
  | none => pageBefore packages cache user room limit none
  | some eventId =>
      match cache.findEventPosition user room eventId with
      | some { rSeq := some rSeq, .. } => pageBefore packages cache user room limit (some rSeq)
      | some { rSeq := none, .. } => .error (refuseLocalPagingWithoutRSeq room)
      | none => .error { message := eventId ++ " is not in the local cache for this account, so " ++
          "there is nothing to page back from; use sync=both" }

/-- A page that is answered from the cache alone. -/
def localPageOf (limit : UInt32) (before : Option String) : Except UsageError HistoryPage :=
  if limit = 0 then
    .error { message := "limit must be at least 1: an empty page means \"no older messages\", so " ++
      "asking for zero would say that falsely" }
  else
    cachedPageOf packages cache user room limit before

/-- All messages of the pages from one on, each page asked for with the `next` of that before. -/
def followPages (limit : UInt32) : Nat → Option String → Option (List Message)
  | 0, _ => none
  | fuel + 1, before =>
      match localPageOf packages cache user room limit before with
      | .error _ => none
      | .ok { events, next := none } => some events
      | .ok { events, next := some eventId } =>
          (followPages limit fuel (some eventId)).map fun later => events ++ later

end Pages

section Rows

variable (cache : Cache) (user room : String)

/-- The rows that are listed for the account, from the newest to the oldest. -/
def listedRows : List EventRow :=
  (cache.events.filter (cache.isListed user room)).mergeSort Cache.listsFirst

/-- An event has one row, and the rows of the account have numbers of their own. -/
structure Numbered : Prop where
  keys : (cache.events.map EventRow.key).Nodup
  numbered : ∀ row ∈ cache.events, cache.isListed user room row = true → row.rSeq.isSome = true
  distinct : ∀ a ∈ cache.events, ∀ b ∈ cache.events, cache.isListed user room a = true →
    cache.isListed user room b = true → a.rSeq = b.rSeq → a = b

/-- The number of one is above that of the other. -/
def Newer (a b : EventRow) : Prop :=
  ∃ x y, a.rSeq = some x ∧ b.rSeq = some y ∧ y < x

variable {cache user room}

theorem listsFirst_trans (a b c : EventRow) (hab : Cache.listsFirst a b = true)
    (hbc : Cache.listsFirst b c = true) : Cache.listsFirst a c = true := by
  unfold Cache.listsFirst at *
  cases ha : a.rSeq <;> cases hb : b.rSeq <;> cases hc : c.rSeq <;>
    simp only [ha, hb, hc, decide_eq_true_eq, Bool.false_eq_true] at * <;> omega

theorem listsFirst_total (a b : EventRow) :
    (Cache.listsFirst a b || Cache.listsFirst b a) = true := by
  unfold Cache.listsFirst
  cases a.rSeq <;> cases b.rSeq <;> simp <;> omega

theorem mem_listedRows {row : EventRow} :
    row ∈ listedRows cache user room ↔ row ∈ cache.events ∧ cache.isListed user room row = true := by
  rw [listedRows, List.mem_mergeSort, List.mem_filter]

section

variable (h : Numbered cache user room)

include h

/-- Of two listed rows the one that comes first is the same or newer. -/
theorem eq_or_newer {a b : EventRow} (ha : a ∈ listedRows cache user room)
    (hb : b ∈ listedRows cache user room) (hab : Cache.listsFirst a b = true) :
    a = b ∨ Newer a b := by
  obtain ⟨hain, halisted⟩ := mem_listedRows.mp ha
  obtain ⟨hbin, hblisted⟩ := mem_listedRows.mp hb
  obtain ⟨x, hx⟩ := Option.isSome_iff_exists.mp (h.numbered a hain halisted)
  obtain ⟨y, hy⟩ := Option.isSome_iff_exists.mp (h.numbered b hbin hblisted)
  simp only [Cache.listsFirst, hx, hy, decide_eq_true_eq] at hab
  rcases hab with hlt | ⟨rfl, _⟩
  · exact .inr ⟨x, y, hx, hy, hlt⟩
  · exact .inl (h.distinct a hain b hbin halisted hblisted (hx.trans hy.symm))

theorem eq_of_listsFirst {a b : EventRow} (ha : a ∈ listedRows cache user room)
    (hb : b ∈ listedRows cache user room) (hab : Cache.listsFirst a b = true)
    (hba : Cache.listsFirst b a = true) : a = b := by
  rcases eq_or_newer h ha hb hab with heq | ⟨x, y, hx, hy, hlt⟩
  · exact heq
  · rcases eq_or_newer h hb ha hba with heq | ⟨y', x', hy', hx', hgt⟩
    · exact heq.symm
    · rw [hx] at hx'
      rw [hy] at hy'
      cases hx'
      cases hy'
      omega

theorem listedRows_pairwise : (listedRows cache user room).Pairwise Newer := by
  have hsorted := List.pairwise_mergeSort listsFirst_trans listsFirst_total
    (cache.events.filter (cache.isListed user room))
  have hnodup : (listedRows cache user room).Nodup :=
    (List.mergeSort_perm _ _).nodup_iff.mpr ((List.Nodup.of_map _ h.keys).filter _)
  exact (hsorted.and hnodup).imp_of_mem fun ha hb hab =>
    (eq_or_newer h ha hb hab.1).resolve_left hab.2

/-- The rows with a number below that of a listed one are the ones behind it. -/
theorem rows_before {above rest : List EventRow} {row : EventRow} {rSeq : Int}
    (hrows : listedRows cache user room = above ++ row :: rest) (hrow : row.rSeq = some rSeq) :
    (cache.events.filter fun row => cache.isListed user room row ∧
      Cache.isBefore (some rSeq) row ∧ (false = true → Cache.showsFile row)).mergeSort
        Cache.listsFirst = rest := by
  have hpairs := listedRows_pairwise h
  rw [hrows, List.pairwise_append, List.pairwise_cons] at hpairs
  obtain ⟨_, ⟨hbehind, _⟩, hacross⟩ := hpairs
  have hrest : (listedRows cache user room).filter (Cache.isBefore (some rSeq)) = rest := by
    have habove : ∀ other ∈ above, Cache.isBefore (some rSeq) other = false := by
      intro other hother
      obtain ⟨x, y, hx, hy, hlt⟩ := hacross other hother row List.mem_cons_self
      rw [hrow] at hy
      cases hy
      simp only [Cache.isBefore, Option.all_some, hx, Option.any_some, decide_eq_false_iff_not]
      omega
    have hself : Cache.isBefore (some rSeq) row = false := by simp [Cache.isBefore, hrow]
    have hbelow : ∀ other ∈ rest, Cache.isBefore (some rSeq) other = true := by
      intro other hother
      obtain ⟨x, y, hx, hy, hlt⟩ := hbehind other hother
      rw [hrow] at hx
      cases hx
      simpa [Cache.isBefore, hy] using hlt
    rw [hrows, List.filter_append, List.filter_cons_of_neg (by rw [hself]; decide),
      List.filter_eq_nil_iff.mpr fun other hother => by rw [habove other hother]; decide,
      List.filter_eq_self.mpr hbelow, List.nil_append]
  -- both are sorted, and they have the same rows
  have hperm : ((cache.events.filter fun row => cache.isListed user room row ∧
      Cache.isBefore (some rSeq) row ∧ (false = true → Cache.showsFile row)).mergeSort
        Cache.listsFirst).Perm rest := by
    rw [← hrest]
    refine (List.mergeSort_perm _ _).trans ?_
    have hsplit : (cache.events.filter fun row => cache.isListed user room row ∧
        Cache.isBefore (some rSeq) row ∧ (false = true → Cache.showsFile row)) =
          (cache.events.filter (cache.isListed user room)).filter
            (Cache.isBefore (some rSeq)) := by
      rw [List.filter_filter]
      congr 1
      funext other
      simp [Bool.and_comm]
    rw [hsplit]
    exact (List.mergeSort_perm _ _).symm.filter _
  have hsub : rest.Sublist (listedRows cache user room) := by
    rw [hrows]
    exact (List.sublist_cons_self row rest).trans (List.sublist_append_right above _)
  have hsorted : (listedRows cache user room).Pairwise fun a b => Cache.listsFirst a b = true :=
    List.pairwise_mergeSort listsFirst_trans listsFirst_total _
  refine hperm.eq_of_pairwise (fun a b ha hb hab hba => ?_)
    (List.pairwise_mergeSort listsFirst_trans listsFirst_total _) (hsorted.sublist hsub)
  exact eq_of_listsFirst h (hsub.mem (hperm.mem_iff.mp ha)) (hsub.mem hb) hab hba

end

end Rows

section Following

variable {packages : ContentPackages} {cache : Cache} {user room : String} {limit : UInt32}

/-- A message is that of its row. -/
theorem toMessage_eq {row : EventRow} {message : Message}
    (h : cache.toMessage packages user row = some message) :
    message.id = row.eventId ∧ message.rSeq = row.rSeq := by
  unfold Cache.toMessage at h
  split_ifs at h
  · cases h
    exact ⟨rfl, rfl⟩
  · cases h
    exact ⟨rfl, rfl⟩
  · split at h
    · split at h <;> cases h <;> exact ⟨rfl, rfl⟩
    · cases h

/-- The rows that come next are all of them, or those behind the row that the page is asked for
before. -/
inductive At (cache : Cache) (user room : String) : Option String → List EventRow → Prop where
  | top : At cache user room none (listedRows cache user room)
  | before {above rest : List EventRow} {row : EventRow}
      (hrows : listedRows cache user room = above ++ row :: rest) :
      At cache user room (some row.eventId) rest

section

variable (h : Numbered cache user room)

include h

theorem findEventPosition_of_listed {row : EventRow} (hrow : row ∈ listedRows cache user room) :
    cache.findEventPosition user room row.eventId = some { rSeq := row.rSeq, gSeq := row.gSeq } := by
  obtain ⟨hin, hlisted⟩ := mem_listedRows.mp hrow
  obtain ⟨hroom, hshown, _⟩ := of_decide_eq_true hlisted
  have hsynced : cache.hasSynced user row = true := by
    rw [Cache.hasSynced, hshown]
    rfl
  rw [Cache.findEventPosition]
  cases hfind : cache.events.find? fun row' =>
      row'.room = room ∧ row'.eventId = row.eventId ∧ cache.hasSynced user row' with
  | none =>
    have hno := List.find?_eq_none.mp hfind row hin
    exact absurd (decide_eq_true ⟨hroom, rfl, hsynced⟩) hno
  | some found =>
    obtain ⟨hfroom, hfid, _⟩ := of_decide_eq_true (List.find?_some hfind :)
    have hkey : found.key = row.key := Prod.ext (hfroom.trans hroom.symm) hfid
    rw [List.inj_on_of_nodup_map h.keys (List.mem_of_find?_eq_some hfind) hin hkey]
    rfl

/-- The page is cut from the rows that come next. -/
theorem localPageOf_eq (hlimit : 0 < limit) {before : Option String} {rows : List EventRow}
    (hat : At cache user room before rows) :
    localPageOf packages cache user room limit before =
      .ok { events := (rows.take limit.toNat).filterMap (cache.toMessage packages user)
            next := ((rows.take limit.toNat).filterMap
              (cache.toMessage packages user)).getLast?.map Message.id } := by
  have hpage : ∀ beforeRSeq,
      (cache.events.filter fun row => cache.isListed user room row ∧
        Cache.isBefore beforeRSeq row ∧ (false = true → Cache.showsFile row)).mergeSort
          Cache.listsFirst = rows →
      (∀ row ∈ rows, row ∈ listedRows cache user room) →
      pageBefore packages cache user room limit beforeRSeq =
        .ok { events := (rows.take limit.toNat).filterMap (cache.toMessage packages user)
              next := ((rows.take limit.toNat).filterMap
                (cache.toMessage packages user)).getLast?.map Message.id } := by
    intro beforeRSeq hrows hlisted
    have hmessages : cache.history packages user room beforeRSeq limit =
        (rows.take limit.toNat).filterMap (cache.toMessage packages user) := by
      rw [Cache.history, Cache.selectMessages, hrows]
    rw [pageBefore, hmessages]
    refine if_neg ?_
    rw [Bool.not_eq_true, List.any_eq_false]
    intro message hmessage
    obtain ⟨row, hrow, hshown⟩ := List.mem_filterMap.mp hmessage
    obtain ⟨hin, hrowListed⟩ := mem_listedRows.mp (hlisted row (List.mem_of_mem_take hrow))
    rw [(toMessage_eq hshown).2, Option.isNone_eq_false_iff.mpr (h.numbered row hin hrowListed)]
    decide
  rw [localPageOf, if_neg (by rintro rfl; exact absurd hlimit (by decide))]
  cases hat with
  | top =>
    refine hpage none ?_ fun _ hrow => hrow
    rw [listedRows]
    congr 2
    funext row
    simp [Cache.isBefore]
  | @before above rest row hrows =>
    have hrow : row ∈ listedRows cache user room := by
      rw [hrows]
      exact List.mem_append_right _ List.mem_cons_self
    obtain ⟨hin, hlisted⟩ := mem_listedRows.mp hrow
    obtain ⟨rSeq, hrSeq⟩ := Option.isSome_iff_exists.mp (h.numbered row hin hlisted)
    rw [cachedPageOf, findEventPosition_of_listed h hrow, hrSeq]
    refine hpage (some rSeq) (rows_before h hrows hrSeq) fun other hother => ?_
    rw [hrows]
    exact List.mem_append_right _ (List.mem_cons_of_mem _ hother)

/-- Following `next` goes through the rows page by page. -/
theorem followPages_eq (hlimit : 0 < limit) :
    ∀ (fuel : Nat) {before : Option String} {rows : List EventRow},
      At cache user room before rows →
      followPages packages cache user room limit fuel before =
        Paging.pages (cache.toMessage packages user) limit.toNat fuel rows := by
  intro fuel
  induction fuel with
  | zero =>
    intro before rows _
    rfl
  | succ fuel ih =>
    intro before rows hat
    rw [followPages, localPageOf_eq h hlimit hat, Paging.pages]
    cases hrest : Paging.restAfter (cache.toMessage packages user) limit.toNat rows with
    | none =>
      rw [List.filterMap_eq_nil_iff.mpr (Paging.restAfter_eq_none hrest)]
      rfl
    | some rest =>
      obtain ⟨above, last, shown, hparts⟩ := Paging.restAfter_eq_some hrest
      have hlast : ((rows.take limit.toNat).filterMap
          (cache.toMessage packages user)).getLast?.map Message.id = some last.eventId := by
        rw [hparts.page, List.getLast?_append, List.getLast?_singleton, Option.some_or,
          Option.map_some, (toMessage_eq hparts.kept).1]
      rw [hlast]
      have hnext : At cache user room (some last.eventId) rest := by
        cases hat with
        | top => exact .before hparts.rows_eq
        | @before higher _ row hrows =>
          rw [hparts.rows_eq, ← List.cons_append, ← List.append_assoc] at hrows
          exact .before hrows
      dsimp only
      rw [ih hnext]

theorem followPages_all_iff (hlimit : 0 < limit) :
    (∃ fuel, followPages packages cache user room limit fuel none =
        some ((listedRows cache user room).filterMap (cache.toMessage packages user))) ↔
      Paging.NoGap (cache.toMessage packages user) limit.toNat (listedRows cache user room) := by
  constructor
  · rintro ⟨fuel, hfollow⟩
    rw [followPages_eq h hlimit fuel .top] at hfollow
    exact (Paging.visited_all_iff hfollow).mp rfl
  · intro hno
    obtain ⟨visited, _, hpages, _⟩ := Paging.pages_end (cache.toMessage packages user) limit.toNat
      ((listedRows cache user room).length + 1) (listedRows cache user room) (Nat.lt_succ_self _)
    refine ⟨(listedRows cache user room).length + 1, ?_⟩
    rw [followPages_eq h hlimit _ .top, hpages, (Paging.visited_all_iff hpages).mpr hno]

end

end Following

/-- Following `next` ends, and visits the newest messages in their order, each once. It visits all
that the account can see if and only if no rows as many as a page, that all show nothing, have a
message behind them. -/
theorem local_paging_complete_iff (packages : ContentPackages) (cache : Cache) (user room : String)
    (limit : UInt32) (hlimit : 0 < limit) (h : Numbered cache user room) :
    (∃ fuel visited missed, followPages packages cache user room limit fuel none = some visited ∧
      (listedRows cache user room).filterMap (cache.toMessage packages user) =
        visited ++ missed) ∧
    ((∃ fuel, followPages packages cache user room limit fuel none =
        some ((listedRows cache user room).filterMap (cache.toMessage packages user))) ↔
      Paging.NoGap (cache.toMessage packages user) limit.toNat (listedRows cache user room)) := by
  refine ⟨?_, followPages_all_iff h hlimit⟩
  obtain ⟨visited, missed, hpages, hall⟩ := Paging.pages_end (cache.toMessage packages user)
    limit.toNat _ (listedRows cache user room) (Nat.lt_succ_self _)
  exact ⟨_, visited, missed, (followPages_eq h hlimit _ .top).trans hpages, hall⟩

/-- After any operations, if the server has numbered what is listed, following `next` ends, and the
numbers of what is visited fall. -/
theorem paging_falls (packages : CachePackages) (operations : List Operation) (user room : String)
    (limit : UInt32) (hlimit : 0 < limit)
    (hsome : ∀ row ∈ (Runs.run (Cache.step packages) Cache.empty operations).events,
      (Runs.run (Cache.step packages) Cache.empty operations).isListed user room row = true →
        row.rSeq.isSome = true) :
    ∃ fuel visited, followPages packages.content
        (Runs.run (Cache.step packages) Cache.empty operations) user room limit fuel none =
          some visited ∧
      visited.Pairwise fun message later =>
        ∃ x y, message.rSeq = some x ∧ later.rSeq = some y ∧ y < x := by
  have hrun := EventNumbers.run_numbered packages operations
  generalize Runs.run (Cache.step packages) Cache.empty operations = cache at hsome hrun ⊢
  have h : Numbered cache user room := by
    refine ⟨hrun.keyed, hsome, fun a ha b hb halisted hblisted hsame => ?_⟩
    refine hrun.eq_of_rSeq ha hb ?_ (hsome a ha halisted) hsame
    simp only [Cache.isListed, decide_eq_true_eq] at halisted hblisted
    exact halisted.1.trans hblisted.1.symm
  obtain ⟨visited, missed, hpages, hall⟩ := Paging.pages_end (cache.toMessage packages.content user)
    limit.toNat _ (listedRows cache user room) (Nat.lt_succ_self _)
  refine ⟨_, visited, (followPages_eq h hlimit _ .top).trans hpages, ?_⟩
  have hfalls := (listedRows_pairwise h).filterMap (cache.toMessage packages.content user)
    (S := fun message later => ∃ x y, message.rSeq = some x ∧ later.rSeq = some y ∧ y < x) (by
      rintro row later ⟨x, y, hx, hy, hlt⟩ message hmessage other hother
      exact ⟨x, y, (toMessage_eq hmessage).2.trans hx, (toMessage_eq hother).2.trans hy, hlt⟩)
  rw [hall] at hfalls
  exact (List.pairwise_append.mp hfalls).1

def examplePackages : ContentPackages :=
  { blockFromJson := fun _ => .error "", quoted := id }

def exampleRow (eventId : String) (rSeq : Int) : EventRow :=
  { room := "!r", eventId := eventId, sender := "@b", rSeq := some rSeq, gSeq := none,
    originServerTs := rSeq, decrypted := none, rawEvent := none,
    eventType := some "m.room.message", contentJson := some (.object [("body", .string eventId)]),
    isProcessed := true, isRedacted := false, eventClass := .msg, refEventId := none,
    modifiedTimestamp := 0, isState := false }

def exampleEdited : EventRow :=
  { exampleRow "$edited" 2 with refEventId := some "$edit" }

/-- Of two messages the account hides the edit of the newer one. -/
def exampleCache : Cache :=
  { Cache.empty with
    events := [exampleEdited,
      { exampleRow "$edit" 3 with eventClass := .edit, refEventId := some "$edited" },
      exampleRow "$old" 1]
    syncedLog := [{ room := "!r", eventId := "$edited", user := "@a", hidden := false },
      { room := "!r", eventId := "$edit", user := "@a", hidden := true },
      { room := "!r", eventId := "$old", user := "@a", hidden := false }] }

theorem exampleCache_listed :
    listedRows exampleCache "@a" "!r" = [exampleEdited, exampleRow "$old" 1] := by
  have hfilter : exampleCache.events.filter (exampleCache.isListed "@a" "!r") =
      [exampleEdited, exampleRow "$old" 1] := rfl
  rw [listedRows, hfilter]
  refine List.mergeSort_of_pairwise ?_
  simp [exampleEdited, exampleRow, Cache.listsFirst]

theorem exampleCache_numbered : Numbered exampleCache "@a" "!r" := by
  have hcases : ∀ row ∈ exampleCache.events, exampleCache.isListed "@a" "!r" row = true →
      row = exampleEdited ∨ row = exampleRow "$old" 1 := by
    intro row hrow hlisted
    have hin := mem_listedRows.mpr ⟨hrow, hlisted⟩
    rw [exampleCache_listed] at hin
    simpa using hin
  refine ⟨by decide, fun row hrow hlisted => ?_, fun a ha b hb halisted hblisted hsame => ?_⟩
  · rcases hcases row hrow hlisted with rfl | rfl <;> rfl
  · rcases hcases a ha halisted with rfl | rfl <;> rcases hcases b hb hblisted with rfl | rfl
    · rfl
    · exact absurd hsame (by decide)
    · exact absurd hsame (by decide)
    · rfl

theorem exampleCache_shown :
    exampleCache.toMessage examplePackages "@a" exampleEdited = none ∧
      (exampleCache.toMessage examplePackages "@a" (exampleRow "$old" 1)).isSome = true := by
  exact ⟨rfl, rfl⟩

/-- With pages of two the older message is visited. -/
theorem local_paging_complete_of_two :
    ∃ fuel, followPages examplePackages exampleCache "@a" "!r" 2 fuel none =
      some ((listedRows exampleCache "@a" "!r").filterMap
        (exampleCache.toMessage examplePackages "@a")) := by
  refine (local_paging_complete_iff examplePackages exampleCache "@a" "!r" 2 (by decide)
    exampleCache_numbered).2.mpr (Paging.noGap_of_length_le ?_)
  rw [exampleCache_listed]
  decide

def exampleOperations : List Operation :=
  [.upsertEvents "@a" "!r" [.plain (.object [("event_id", .string "$m"), ("sender", .string "@b"),
    ("unsigned", .object [("org.wbftw.wbfuwunel.r_seq", .number 1)])])]]

theorem paging_falls_of_one :
    ∃ fuel visited, followPages examplePackages
        (Runs.run (Cache.step ⟨examplePackages, ⟨fun _ => none, fun _ => none⟩⟩) Cache.empty
          exampleOperations) "@a" "!r" 2 fuel none = some visited ∧
      visited.Pairwise fun message later =>
        ∃ x y, message.rSeq = some x ∧ later.rSeq = some y ∧ y < x :=
  paging_falls ⟨examplePackages, ⟨fun _ => none, fun _ => none⟩⟩ exampleOperations
    "@a" "!r" 2 (by decide) (by decide +kernel)

/-- With pages of one it is not: the first page is empty. -/
theorem local_paging_stops_at_hidden :
    Numbered exampleCache "@a" "!r" ∧
      ¬∃ fuel, followPages examplePackages exampleCache "@a" "!r" 1 fuel none =
        some ((listedRows exampleCache "@a" "!r").filterMap
          (exampleCache.toMessage examplePackages "@a")) := by
  refine ⟨exampleCache_numbered, fun hall => ?_⟩
  have hno := (followPages_all_iff exampleCache_numbered (by decide)).mp hall
  have hold := hno [] [exampleEdited] [exampleRow "$old" 1] exampleCache_listed rfl
    (fun row hrow => by rw [List.mem_singleton.mp hrow]; exact exampleCache_shown.1)
    (exampleRow "$old" 1) List.mem_cons_self
  have hshown := exampleCache_shown.2
  rw [hold] at hshown
  cases hshown

end HistoryPaging
end WbfMatrixClient
