import WbfMatrixClient.RecentSync

/-!
# What a sync delivers

The server keeps a log whose numbers grow, and new events may be added to it at any
time. A window is what the log has in the range that is asked for, the newest event
first, cut off somewhere; its last batch says whether there is more.

Whatever the windows and the batches are cut like, the events handed over are the
newest ones of the log at the first request, without a gap.
-/

namespace WbfMatrixClient

/-- An event in the log of the server. -/
structure LogEvent where
  seq : Int
  event : Json

namespace RecentRequest

/-- The event is in the range that is asked for. -/
def Wants (request : RecentRequest) (e : LogEvent) : Prop :=
  (∀ seq, request.cgSeq = some seq → seq < e.seq) ∧
    ∀ seq, request.before = some seq → e.seq < seq

instance (request : RecentRequest) (e : LogEvent) : Decidable (request.Wants e) :=
  inferInstanceAs (Decidable (_ ∧ _))

/-- The events of a log in the range that is asked for, the newest first. -/
def range (request : RecentRequest) (log : List LogEvent) : List LogEvent :=
  (log.filter fun e => request.Wants e).reverse

end RecentRequest

/-- The numbers of a log grow. -/
def Growing (log : List LogEvent) : Prop :=
  log.Pairwise fun e e' => e.seq < e'.seq

/-- The newest event comes first. -/
def NewestFirst (events : List LogEvent) : Prop :=
  events.Pairwise fun e e' => e'.seq < e.seq

namespace RecentRequest

variable {request : RecentRequest} {log log' : List LogEvent}

theorem newestFirst_range (hlog : Growing log) : NewestFirst (request.range log) := by
  rw [NewestFirst, range, List.pairwise_reverse]
  exact List.Pairwise.filter _ hlog

variable {e : LogEvent}

theorem mem_range : e ∈ request.range log ↔ e ∈ log ∧ request.Wants e := by
  rw [range, List.mem_reverse, List.mem_filter, decide_eq_true_iff]

/-- What is below one of the events is what comes after it. -/
theorem filter_below {newer older : List LogEvent} (h : NewestFirst (newer ++ e :: older)) :
    (newer ++ e :: older).filter (fun e' => e'.seq < e.seq) = older := by
  obtain ⟨_, htail, hcross⟩ := List.pairwise_append.mp h
  have hnewer : newer.filter (fun e' => e'.seq < e.seq) = [] := by
    rw [List.filter_eq_nil_iff]
    intro e' he'
    have hlt := hcross e' he' e List.mem_cons_self
    rw [decide_eq_true_iff]
    omega
  have holder : older.filter (fun e' => e'.seq < e.seq) = older := by
    rw [List.filter_eq_self]
    intro e' he'
    rw [decide_eq_true_iff]
    exact (List.pairwise_cons.mp htail).1 e' he'
  rw [List.filter_append, hnewer, List.nil_append,
    List.filter_cons_of_neg (by rw [decide_eq_true_iff]; exact lt_irrefl _), holder]

/-- Below an event that was in the range, a log that has grown has what the log had
before: what is new is newer. -/
theorem range_before {newer older : List LogEvent} (hgrown : log <+: log') (hlog : Growing log')
    (hrange : request.range log = newer ++ e :: older) :
    range { request with before := some e.seq } log' = older := by
  obtain ⟨added, rfl⟩ := hgrown
  obtain ⟨hold, _, hcross⟩ := List.pairwise_append.mp hlog
  have he : e ∈ log ∧ request.Wants e := by
    rw [← mem_range, hrange]
    exact List.mem_append_right newer List.mem_cons_self
  have hadded : added.filter
      (fun e' => ({ request with before := some e.seq } : RecentRequest).Wants e') = [] := by
    rw [List.filter_eq_nil_iff]
    intro e' he'
    rw [decide_eq_true_iff]
    intro hwants
    have hnewer := hcross e he.1 e' he'
    have hbelow := hwants.2 e.seq rfl
    omega
  have hsame : log.filter
      (fun e' => ({ request with before := some e.seq } : RecentRequest).Wants e') =
      (log.filter fun e' => request.Wants e').filter (fun e' => e'.seq < e.seq) := by
    rw [List.filter_filter]
    refine List.filter_congr fun e' _ => ?_
    rw [Bool.eq_iff_iff, Bool.and_eq_true, decide_eq_true_iff, decide_eq_true_iff,
      decide_eq_true_iff]
    constructor
    · intro hwants
      have hbelow := hwants.2 e.seq rfl
      refine ⟨hbelow, hwants.1, fun seq hseq => ?_⟩
      have := he.2.2 seq hseq
      omega
    · rintro ⟨hbelow, hwants⟩
      refine ⟨hwants.1, fun seq hseq => ?_⟩
      cases hseq
      exact hbelow
  have hfirst : NewestFirst (request.range log) := newestFirst_range hold
  rw [hrange] at hfirst
  rw [range, List.filter_append, hadded, List.append_nil, hsame, ← List.filter_reverse]
  exact (congrArg (List.filter fun e' => e'.seq < e.seq) hrange).trans (filter_below hfirst)

end RecentRequest

section Answers

variable (packages : RecentPackages)

/-- A pack that holds some events of a window of so many, with so many still to
come. -/
structure Encodes (id : UInt64) (total index : Nat) (batch : List LogEvent) (remaining : Nat)
    (more : Bool) (pack : Pack) : Prop where
  kind : pack.kind = .event
  subtype : pack.subtype = event.batch
  response : pack.flags &&& flags.isResponse ≠ 0
  id_eq : pack.id = id
  seq_eq : pack.seq = UInt32.ofNat index
  header : ∃ found, packages.batchMeta pack.meta = .ok found ∧
    found.tc = UInt32.ofNat total ∧ found.bc = UInt32.ofNat batch.length ∧
    found.r = UInt32.ofNat remaining ∧ (∀ e, batch.head? = some e → found.fs = e.seq) ∧
    (∀ e, batch.getLast? = some e → found.ls = e.seq) ∧ found.more = more
  items : ∃ items, splitLengthPrefixed pack.data = .ok items ∧
    items.map packages.value = batch.map fun e => .ok e.event

/-- The packs for the events of a window from some batch on, cut into batches in any
way. What the batches before the last say about more is not looked at. -/
inductive Batched (id : UInt64) (total : Nat) (more : Bool) :
    (index : Nat) → List LogEvent → List Pack → Prop
  | last
      {index : Nat}
      {batch : List LogEvent}
      {pack : Pack}
      (hpack : Encodes packages id total index batch 0 more pack) :
      Batched id total more index batch [pack]
  | cons
      {index : Nat}
      {batch rest : List LogEvent}
      {anyMore : Bool}
      {pack : Pack}
      {packs : List Pack}
      (hrest : rest ≠ [])
      (hpack : Encodes packages id total index batch rest.length anyMore pack)
      (hpacks : Batched id total more (index + 1) rest packs) :
      Batched id total more index (batch ++ rest) (pack :: packs)

/-- An error of the server in place of a batch. -/
def IsErrorPack (pack : Pack) : Prop :=
  pack.kind = .control ∧ pack.subtype = control.error

/-- What comes for a request: a window of the log, which holds the newest event of the
range when there is one. The line may fail, or the server give up, after any pack. -/
structure Answers (log : List LogEvent) (request : RecentRequest) (id : UInt64)
    (answer : List Pack × Except SdkError Unit) : Prop where
  window : ∃ (size : Nat) (more : Bool) (packs : List Pack),
    size ≤ request.limit.toNat ∧ (0 < request.limit.toNat → 0 < size) ∧
    (more = false → (request.range log).length ≤ size) ∧
    Batched packages id ((request.range log).take size).length more 0
      ((request.range log).take size) packs ∧
    ∃ came refused, answer.1 = came ++ refused ∧ came <+: packs ∧
      ∀ pack ∈ refused, IsErrorPack pack

end Answers

/-- The events that were handed over, in this order. -/
def delivered (calls : List RecentCall) : List Json :=
  calls.flatMap Prod.snd

/-- The caller refused none of the batches. -/
def Accepted (onBatch : OnRecentBatch) (calls : List RecentCall) : Prop :=
  ∀ before call, before ++ [call] <+: calls → onBatch before call = none

theorem accepted_nil (onBatch : OnRecentBatch) : Accepted onBatch [] := by
  intro before call h
  have hnil := List.prefix_nil.mp h
  cases before <;> cases hnil

theorem Accepted.snoc {onBatch : OnRecentBatch} {calls : List RecentCall} {call : RecentCall}
    (h : Accepted onBatch calls) (hcall : onBatch calls call = none) :
    Accepted onBatch (calls ++ [call]) := by
  intro before last hprefix
  rcases List.prefix_concat_iff.mp hprefix with heq | hearlier
  · obtain ⟨rfl, hlast⟩ := List.append_inj' heq rfl
    cases hlast
    exact hcall
  · exact h before last hearlier

theorem delivered_snoc (calls : List RecentCall) (call : RecentCall) :
    delivered (calls ++ [call]) = delivered calls ++ call.2 := by
  rw [delivered, List.flatMap_append, List.flatMap_singleton]
  rfl

section Packs

variable {packages : RecentPackages}

theorem parseEvents_ok {items : List (List UInt8)} {events : List Json}
    (h : items.map packages.value = events.map .ok) (position : Nat) :
    parseEvents packages position items = .ok events := by
  induction items generalizing events position with
  | nil =>
    cases events with
    | nil => rfl
    | cons event events => cases h
  | cons item items ih =>
    cases events with
    | nil => cases h
    | cons event events =>
      obtain ⟨hitem, hitems⟩ := List.cons.inj h
      rw [parseEvents, hitem]
      dsimp only
      rw [ih hitems]
      rfl

variable {id : UInt64} {total index remaining : Nat} {batch : List LogEvent} {more : Bool}
  {pack : Pack}

/-- A batch of the server passes the checks of its own data. -/
theorem Encodes.parseBatch (h : Encodes packages id total index batch remaining more pack)
    (hbatch : NewestFirst batch) (htotal : batch.length + remaining ≤ total)
    (hfits : total < 2 ^ 32) :
    ∃ found, parseBatch packages pack = .ok (found, batch.map LogEvent.event) ∧
      found.tc = UInt32.ofNat total ∧ found.bc = UInt32.ofNat batch.length ∧
      found.r = UInt32.ofNat remaining ∧ (∀ e, batch.getLast? = some e → found.ls = e.seq) ∧
      found.more = more := by
  obtain ⟨found, hmeta, htc, hbc, hr, hfs, hls, hmore⟩ := h.header
  obtain ⟨items, hsplit, hitems⟩ := h.items
  refine ⟨found, ?_, htc, hbc, hr, hls, hmore⟩
  have hcount : items.length = batch.length := by
    have hlength := congrArg List.length hitems
    rwa [List.length_map, List.length_map] at hlength
  have hsum : ¬ found.tc < saturatingAdd found.bc found.r := by
    rw [UInt32.lt_iff_toNat_lt, toNat_saturatingAdd, htc, hbc, hr, UInt32.toNat_ofNat',
      UInt32.toNat_ofNat', UInt32.toNat_ofNat', Nat.mod_eq_of_lt hfits,
      Nat.mod_eq_of_lt (by omega), Nat.mod_eq_of_lt (by omega)]
    omega
  have horder : ¬ (0 < found.bc ∧ found.fs < found.ls) := by
    rintro ⟨hpos, hlt⟩
    cases batch with
    | nil =>
      rw [hbc] at hpos
      cases hpos
    | cons first rest =>
      have hfirst := hfs first rfl
      cases hrest : rest.getLast? with
      | none =>
        have hlast := hls first (by rw [List.getLast?_cons, hrest]; rfl)
        omega
      | some last =>
        have hlast := hls last (by rw [List.getLast?_cons, hrest]; rfl)
        have hbelow := (List.pairwise_cons.mp hbatch).1 last (List.mem_of_getLast? hrest)
        omega
  have hvalues : items.map packages.value = (batch.map LogEvent.event).map .ok := by
    rw [hitems, List.map_map]
    rfl
  rw [WbfMatrixClient.parseBatch, hmeta]
  dsimp only
  rw [hsplit]
  dsimp only
  rw [if_neg (by rw [hcount, hbc]; exact fun h => h rfl), if_neg hsum, if_neg horder,
    parseEvents_ok hvalues]
  rfl

/-- What is kept while a window comes in says how much of it has come. -/
structure Tracks (total index : Nat) (start : List RecentCall) (got : List LogEvent)
    (s : RecentFetch) : Prop where
  seq_eq : s.expectedSeq = UInt32.ofNat index
  tc_eq : s.expectedSeq = 0 ∨ s.window.tc = UInt32.ofNat total
  sent_eq : s.sent = UInt32.ofNat got.length
  events_eq : s.window.events = got.length
  last_eq : s.window.lastLs = got.getLast?.map LogEvent.seq
  calls_eq : delivered s.calls = delivered start ++ got.map LogEvent.event

theorem tracks_start (total : Nat) (start : List RecentCall) :
    Tracks total 0 start [] (.start start) where
  seq_eq := rfl
  tc_eq := .inl rfl
  sent_eq := rfl
  events_eq := rfl
  last_eq := rfl
  calls_eq := (List.append_nil _).symm

variable {request : Pack} {onBatch : OnRecentBatch} {start : List RecentCall}
  {got : List LogEvent} {s : RecentFetch}

/-- A batch that is expected is handed over, and what is kept takes it in whether the
caller refuses it or not. -/
theorem onRecentPack_encodes
    (hpack : Encodes packages request.id total index batch remaining more pack)
    (hs : Tracks total index start got s) (hbatch : NewestFirst batch)
    (htotal : got.length + (batch.length + remaining) = total) (hfits : total < 2 ^ 32) :
    ∃ next, Tracks total (index + 1) start (got ++ batch) next ∧
      (next.finished = true ↔ remaining = 0) ∧ next.window.more = more ∧
      ((∃ e, onRecentPack packages request onBatch s pack = (.error e, next)) ∨
        onRecentPack packages request onBatch s pack = (.ok (decide (0 < remaining)), next) ∧
          (Accepted onBatch s.calls → Accepted onBatch next.calls)) := by
  obtain ⟨found, hparse, htc, hbc, hr, hls, hmore⟩ :=
    hpack.parseBatch hbatch (by omega) hfits
  have hexpect : expectBatch packages request pack s.expectedSeq = .ok pack := by
    rw [expectBatch, expectReply, if_neg (by rw [hpack.kind]; rintro ⟨h, _⟩; cases h), if_neg,
      if_neg (not_not.mpr hpack.id_eq), if_neg (not_not.mpr (hpack.seq_eq.trans hs.seq_eq.symm))]
    rintro (h | h | h)
    · exact h hpack.kind
    · exact h hpack.subtype
    · exact hpack.response h
  have hbcNat : found.bc.toNat = batch.length := by
    rw [hbc, UInt32.toNat_ofNat', Nat.mod_eq_of_lt (by omega)]
  have hrNat : found.r.toNat = remaining := by
    rw [hr, UInt32.toNat_ofNat', Nat.mod_eq_of_lt (by omega)]
  have hpos : 0 < found.bc ↔ batch ≠ [] := by
    rw [UInt32.lt_iff_toNat_lt, hbcNat, ← List.length_pos_iff]
    rfl
  have hsent : saturatingAdd s.sent found.bc = UInt32.ofNat (got ++ batch).length := by
    rw [← UInt32.toNat_inj, toNat_saturatingAdd, hs.sent_eq, hbcNat, UInt32.toNat_ofNat',
      UInt32.toNat_ofNat', List.length_append, Nat.mod_eq_of_lt (by omega),
      Nat.mod_eq_of_lt (by omega), min_eq_left]
    have hmax : maxU32 = 2 ^ 32 - 1 := rfl
    omega
  have hsum : found.tc = saturatingAdd (saturatingAdd s.sent found.bc) found.r := by
    rw [← UInt32.toNat_inj, toNat_saturatingAdd, hsent, hrNat, htc, UInt32.toNat_ofNat',
      UInt32.toNat_ofNat', List.length_append, Nat.mod_eq_of_lt hfits,
      Nat.mod_eq_of_lt (by omega)]
    have hmax : maxU32 = 2 ^ 32 - 1 := rfl
    omega
  -- The first batch sets the size of the window, and the others repeat it.
  have hsize : (if decide (s.expectedSeq = 0) = true then found.tc else s.window.tc) =
      found.tc := by
    split
    next => rfl
    next hfirst =>
      rw [hs.tc_eq.resolve_left (fun h => hfirst (decide_eq_true h)), htc]
  let next : RecentFetch :=
    { window :=
        { tc := found.tc
          batches := s.window.batches + 1
          events := (s.window.events + found.bc.toNat) % 2 ^ 64
          firstFs :=
            if decide (s.expectedSeq = 0) = true then (if 0 < found.bc then some found.fs else none)
            else s.window.firstFs
          lastLs := if 0 < found.bc then some found.ls else s.window.lastLs
          more := found.more }
      expectedSeq := s.expectedSeq + 1
      sent := saturatingAdd s.sent found.bc
      finished := found.r = 0
      calls := s.calls ++ [(found, batch.map LogEvent.event)] }
  have hresult : onRecentPack packages request onBatch s pack =
      (onBatch s.calls (found, batch.map LogEvent.event)).elim (.ok (0 < found.r), next)
        fun error => (.error error, next) := by
    rw [onRecentPack, hexpect]
    dsimp only
    rw [hparse]
    dsimp only
    rw [hsize, if_neg (not_not.mpr rfl), if_neg (not_not.mpr hsum)]
    cases onBatch s.calls (found, batch.map LogEvent.event) <;> rfl
  have hnext : Tracks total (index + 1) start (got ++ batch) next := by
    constructor
    · show s.expectedSeq + 1 = UInt32.ofNat (index + 1)
      exact (congrArg (· + 1) hs.seq_eq).trans (UInt32.ofNat_add index 1).symm
    · exact .inr htc
    · exact hsent
    · show (s.window.events + found.bc.toNat) % 2 ^ 64 = (got ++ batch).length
      rw [hs.events_eq, hbcNat, List.length_append, Nat.mod_eq_of_lt (by omega)]
    · show (if 0 < found.bc then some found.ls else s.window.lastLs) = _
      cases hlast : batch.getLast? with
      | none =>
        have hnil := List.getLast?_eq_none_iff.mp hlast
        rw [if_neg (by rw [hpos]; exact not_not.mpr hnil), hs.last_eq, hnil, List.append_nil]
      | some e =>
        have hne : batch ≠ [] := by
          rintro rfl
          cases hlast
        rw [if_pos (hpos.mpr hne), hls e hlast, List.getLast?_append, hlast]
        rfl
    · show delivered (s.calls ++ [(found, batch.map LogEvent.event)]) = _
      rw [delivered_snoc, hs.calls_eq, List.map_append, List.append_assoc]
  have hdone : found.r = 0 ↔ remaining = 0 := by
    rw [← UInt32.toNat_inj, hrNat]
    rfl
  refine ⟨next, hnext, decide_eq_true_iff.trans hdone, hmore, ?_⟩
  rw [hresult]
  cases hcall : onBatch s.calls (found, batch.map LogEvent.event) with
  | some e => exact .inl ⟨e, rfl⟩
  | none =>
    refine .inr ⟨?_, fun haccepted => haccepted.snoc hcall⟩
    have hrest : 0 < found.r ↔ 0 < remaining := by
      rw [UInt32.lt_iff_toNat_lt, hrNat]
      rfl
    rw [Option.elim_none, decide_eq_decide.mpr hrest]

/-- An error of the server changes nothing of what is kept. -/
theorem streamPacks_refused (packages : RecentPackages) (request : Pack) (onBatch : OnRecentBatch)
    {refused : List Pack} (hrefused : ∀ pack ∈ refused, IsErrorPack pack)
    (ending : Except SdkError Unit) (s : RecentFetch) :
    ∃ result, streamPacks (onRecentPack packages request onBatch) ending refused s =
      (result, s) := by
  cases refused with
  | nil => exact ⟨ending, rfl⟩
  | cons pack refused =>
    obtain ⟨hkind, hsubtype⟩ := hrefused pack List.mem_cons_self
    refine ⟨.error (serverError packages.value pack.meta), ?_⟩
    rw [streamPacks, onRecentPack, expectBatch, expectReply, if_pos ⟨hkind, hsubtype⟩]

/-- What comes of a window is handed over from its start, without a gap. When the last
batch has come it is the whole window. -/
theorem streamPacks_batched {rest : List LogEvent} {packs came refused : List Pack}
    (hpacks : Batched packages request.id total more index rest packs) (hcame : came <+: packs)
    (hrefused : ∀ pack ∈ refused, IsErrorPack pack) (ending : Except SdkError Unit)
    (hs : Tracks total index start got s) (hopen : s.finished = false)
    (haccepted : Accepted onBatch s.calls) (hnewest : NewestFirst rest)
    (htotal : got.length + rest.length = total) (hfits : total < 2 ^ 32) :
    ∃ result s' index' now,
      streamPacks (onRecentPack packages request onBatch) ending (came ++ refused) s =
        (result, s') ∧
      Tracks total index' start (got ++ now) s' ∧ now <+: rest ∧
      (result = .ok () → Accepted onBatch s'.calls ∧
        (s'.finished = true → now = rest ∧ s'.window.more = more)) := by
  -- When nothing more comes, it ends with what is kept.
  have hnone : ∀ {index : Nat} {got rest : List LogEvent} {s : RecentFetch},
      Tracks total index start got s → s.finished = false → Accepted onBatch s.calls →
      ∃ result s' index' now,
        streamPacks (onRecentPack packages request onBatch) ending ([] ++ refused) s =
          (result, s') ∧
        Tracks total index' start (got ++ now) s' ∧ now <+: rest ∧
        (result = .ok () → Accepted onBatch s'.calls ∧
          (s'.finished = true → now = rest ∧ s'.window.more = more)) := by
    intro index got rest s hs hopen haccepted
    obtain ⟨result, hresult⟩ := streamPacks_refused packages request onBatch hrefused ending s
    refine ⟨result, s, index, [], hresult, ?_, List.nil_prefix, ?_⟩
    · rw [List.append_nil]
      exact hs
    · intro _
      refine ⟨haccepted, fun hfinished => ?_⟩
      rw [hopen] at hfinished
      cases hfinished
  induction hpacks generalizing s got came with
  | @last index batch pack hpack =>
    rcases List.prefix_cons_iff.mp hcame with rfl | ⟨came, rfl, _⟩
    · exact hnone hs hopen haccepted
    obtain ⟨next, hnext, hfinished, hmore, hone⟩ :=
      onRecentPack_encodes hpack hs hnewest (by omega) hfits
    rcases hone with ⟨e, hone⟩ | ⟨hone, hkept⟩
    · refine ⟨.error e, next, index + 1, batch, ?_, hnext, List.prefix_rfl, fun h => by cases h⟩
      rw [List.cons_append, streamPacks, hone]
    · refine ⟨.ok (), next, index + 1, batch, ?_, hnext, List.prefix_rfl, fun _ =>
        ⟨hkept haccepted, fun _ => ⟨rfl, hmore⟩⟩⟩
      rw [List.cons_append, streamPacks, hone]
      rfl
  | @cons index batch rest anyMore pack packs hrest hpack hpacks ih =>
    rcases List.prefix_cons_iff.mp hcame with rfl | ⟨came, rfl, hcut⟩
    · exact hnone hs hopen haccepted
    obtain ⟨hbatch, hlater, _⟩ := List.pairwise_append.mp hnewest
    have hleft := List.length_pos_iff.mpr hrest
    rw [List.length_append] at htotal
    obtain ⟨next, hnext, hfinished, _, hone⟩ :=
      onRecentPack_encodes hpack hs hbatch htotal hfits
    rcases hone with ⟨e, hone⟩ | ⟨hone, hkept⟩
    · refine ⟨.error e, next, index + 1, batch, ?_, hnext, List.prefix_append _ _,
        fun h => by cases h⟩
      rw [List.cons_append, streamPacks, hone]
    · have hnot : next.finished = false := by
        rw [← Bool.not_eq_true, hfinished]
        omega
      obtain ⟨result, s', index', now, hrun, hs', hnow, hok⟩ :=
        ih hcut hnext hnot (hkept haccepted) hlater
          (by rw [List.length_append]; omega)
      refine ⟨result, s', index', batch ++ now, ?_, ?_, ?_, ?_⟩
      · rw [List.cons_append, streamPacks, hone, decide_eq_true hleft]
        exact hrun
      · rw [← List.append_assoc]
        exact hs'
      · exact (List.prefix_append_right_inj batch).mpr hnow
      · intro hresult
        obtain ⟨haccepted, hwhole⟩ := hok hresult
        refine ⟨haccepted, fun hfinished => ?_⟩
        obtain ⟨rfl, hmore⟩ := hwhole hfinished
        exact ⟨rfl, hmore⟩

/-- What is handed over of a window is its start. When the window is returned it is all
of it, and its last event and the word on more are known. -/
theorem recentWindow_answers (features : Option (List String)) (request : Pack)
    {asked : RecentRequest} {log : List LogEvent} {answer : List Pack × Except SdkError Unit}
    {calls : List RecentCall} (hanswer : Answers packages log asked request.id answer)
    (hlog : Growing log) (haccepted : Accepted onBatch calls) :
    ∃ found calls' size now,
      recentWindow packages features onBatch request answer calls = (found, calls') ∧
      delivered calls' = delivered calls ++ now.map LogEvent.event ∧
      now <+: (asked.range log).take size ∧ size ≤ asked.limit.toNat ∧
      ∀ window, found = .ok window → Accepted onBatch calls' ∧
        now = (asked.range log).take size ∧ (0 < asked.limit.toNat → 0 < size) ∧
        window.events = now.length ∧ window.lastLs = now.getLast?.map LogEvent.seq ∧
        (window.more = false → (asked.range log).length ≤ size) := by
  obtain ⟨size, more, packs, hsize, hfirst, hmore, hpacks, came, refused, hsplit, hcame,
    hrefused⟩ := hanswer.window
  rw [recentWindow]
  cases hfeature : requireFeature features "recent" with
  | error e =>
    refine ⟨.error e, calls, size, [], rfl, ?_, List.nil_prefix, hsize, fun _ h => by cases h⟩
    exact (List.append_nil _).symm
  | ok _ =>
    have hlimit : asked.limit.toNat < 2 ^ 32 := asked.limit.toNat_lt
    have hshort := List.length_take_le size (asked.range log)
    obtain ⟨result, s, index', now, hrun, hs, hnow, hok⟩ :=
      streamPacks_batched hpacks hcame hrefused answer.2
        (tracks_start _ calls) rfl haccepted
        ((RecentRequest.newestFirst_range hlog).sublist (List.take_sublist size _))
        (Nat.zero_add _) (by omega)
    dsimp only
    rw [hsplit, hrun]
    cases result with
    | error e =>
      exact ⟨.error e, s.calls, size, now, rfl, hs.calls_eq, hnow, hsize,
        fun _ h => by cases h⟩
    | ok _ =>
      obtain ⟨haccepted, hwhole⟩ := hok rfl
      cases hfinished : s.finished with
      | false =>
        dsimp only
        rw [hfinished, if_neg Bool.false_ne_true]
        exact ⟨_, s.calls, size, now, rfl, hs.calls_eq, hnow, hsize, fun _ h => by cases h⟩
      | true =>
        obtain ⟨heq, hlast⟩ := hwhole hfinished
        refine ⟨.ok s.window, s.calls, size, now, ?_, hs.calls_eq, hnow, hsize, ?_⟩
        · dsimp only
          rw [hfinished, if_pos rfl]
        · intro window h
          cases h
          refine ⟨haccepted, heq, hfirst, hs.events_eq, hs.last_eq, fun hno => ?_⟩
          exact hmore (hlast.symm.trans hno)

end Packs

/-- The events handed over are the newest ones of those that were wanted. When nothing
more is said to come they are all of them, and otherwise as many as were asked for. A
sync in which a window failed or a batch was refused has no summary. -/
structure Exact (onBatch : OnRecentBatch) (maxEvents : Option UInt64) (wanted : List LogEvent)
    (outcome : RecentOutcome) : Prop where
  newest : ∃ got, got <+: wanted ∧ delivered outcome.calls = got.map LogEvent.event ∧
    (∀ max, maxEvents = some max → got.length ≤ max.toNat) ∧
    ∀ summary, outcome.result = .ok summary →
      summary.lastLs = got.getLast?.map LogEvent.seq ∧
      (summary.caughtUp = true → got = wanted) ∧
      (summary.caughtUp = false → ∃ max, maxEvents = some max ∧ got.length = max.toNat)
  failed : ¬ Accepted onBatch outcome.calls ∨ (∃ e, .error e ∈ outcome.windows) →
    ∃ e, outcome.result = .error e

/-- What holds before every window, when these events have been handed over. -/
structure Underway (onBatch : OnRecentBatch) (maxEvents : Option UInt64) (got : List LogEvent)
    (summary : RecentSummary) (calls : List RecentCall)
    (windows : List (Except SdkError RecentWindow)) : Prop where
  calls_eq : delivered calls = got.map LogEvent.event
  accepted : Accepted onBatch calls
  windows_ok : ∀ e, .error e ∉ windows
  events_eq : ∀ max, maxEvents = some max →
    summary.events = got.length ∧ got.length ≤ max.toNat
  last_eq : summary.lastLs = got.getLast?.map LogEvent.seq
  notCaughtUp : summary.caughtUp = false

/-- A sync that ends well between two windows is exact. -/
theorem Underway.exact {onBatch : OnRecentBatch} {maxEvents : Option UInt64}
    {got wanted : List LogEvent} {summary last : RecentSummary} {calls : List RecentCall}
    {windows : List (Except SdkError RecentWindow)}
    (h : Underway onBatch maxEvents got summary calls windows) (hgot : got <+: wanted)
    (hlast : last.lastLs = summary.lastLs) (hcaught : last.caughtUp = true → got = wanted)
    (hnot : last.caughtUp = false → ∃ max, maxEvents = some max ∧ got.length = max.toNat) :
    Exact onBatch maxEvents wanted
      { result := .ok last, calls := calls, windows := windows } where
  newest := by
    refine ⟨got, hgot, h.calls_eq, fun max hmax => (h.events_eq max hmax).2, ?_⟩
    intro summary' hsummary
    cases hsummary
    exact ⟨hlast.trans h.last_eq, hcaught, hnot⟩
  failed := by
    rintro (hrefused | ⟨e, he⟩)
    · exact absurd h.accepted hrefused
    · exact absurd he (h.windows_ok e)

namespace RecentClient

theorem toNat_windowLimit (window : UInt32) (maxEvents : Option UInt64) (events : Nat) :
    (windowLimit window maxEvents events).toNat ≤ window.toNat ∧
      ∀ max, maxEvents = some max →
        (windowLimit window maxEvents events).toNat ≤ max.toNat - events := by
  cases maxEvents with
  | none => exact ⟨le_refl _, fun _ h => by cases h⟩
  | some max =>
    have hwindow := window.toNat_lt
    have hmax : maxU32 = 2 ^ 32 - 1 := rfl
    have heq : (windowLimit window (some max) events).toNat =
        min window.toNat (min (max.toNat - events) maxU32) := by
      rw [windowLimit, UInt32.toNat_ofNat', Nat.mod_eq_of_lt]
      omega
    rw [heq]
    refine ⟨by omega, ?_⟩
    rintro _ ⟨⟩
    omega

theorem windowLimit_pos {window : UInt32} {maxEvents : Option UInt64} {events : Nat}
    (hwindow : 0 < window.toNat) (hleft : ∀ max, maxEvents = some max → events < max.toNat) :
    0 < (windowLimit window maxEvents events).toNat := by
  cases maxEvents with
  | none => exact hwindow
  | some max =>
    have hlt := window.toNat_lt
    have hmax : maxU32 = 2 ^ 32 - 1 := rfl
    have hless := hleft max rfl
    rw [windowLimit, UInt32.toNat_ofNat', Nat.mod_eq_of_lt] <;> omega

variable {client : RecentClient} {channel : RecentChannel} {logs : Nat → List LogEvent}

/-- From one window to the next: what has come, and then the newest of what the log
holds below it. -/
theorem loop_exact {maxEvents : Option UInt64} {window : UInt32} (hgrowing : ∀ i, Growing (logs i))
    (hgrown : ∀ i, logs i <+: logs (i + 1))
    (hanswers : ∀ asked request, Answers client.packages (logs asked) request (client.sessionId
      asked) (channel asked request)) (hwindow : 0 < window.toNat) (fuel asked : Nat)
    (request : RecentRequest) (summary : RecentSummary) (calls : List RecentCall)
    (windows : List (Except SdkError RecentWindow)) (got : List LogEvent)
    (h : Underway client.onBatch maxEvents got summary calls windows)
    (hfuel : (request.range (logs asked)).length < fuel) :
    ∃ outcome,
      loop client channel maxEvents window fuel asked request summary calls windows =
        some outcome ∧
      Exact client.onBatch maxEvents (got ++ request.range (logs asked)) outcome := by
  induction fuel generalizing asked request summary calls windows got with
  | zero => exact absurd hfuel (Nat.not_lt_zero _)
  | succ fuel ih =>
    rw [loop]
    by_cases hstop : (maxEvents.any fun max => max.toNat - summary.events = 0) = true
    · rw [if_pos hstop]
      refine ⟨_, rfl, h.exact (List.prefix_append _ _) rfl ?_ ?_⟩
      · intro hcaught
        rw [h.notCaughtUp] at hcaught
        cases hcaught
      · intro _
        obtain ⟨max, hmax, hnone⟩ := (Option.any_eq_true _ _).mp hstop
        obtain ⟨hevents, hle⟩ := h.events_eq max hmax
        rw [decide_eq_true_iff] at hnone
        exact ⟨max, hmax, by omega⟩
    rw [if_neg hstop]
    have hleft : ∀ max, maxEvents = some max → summary.events < max.toNat := by
      intro max hmax
      have hnot : ¬ max.toNat - summary.events = 0 := fun hzero =>
        hstop ((Option.any_eq_true _ _).mpr ⟨max, hmax, decide_eq_true hzero⟩)
      omega
    have hsmall := toNat_windowLimit window maxEvents summary.events
    have hlimit := windowLimit_pos hwindow hleft
    generalize windowLimit window maxEvents summary.events = limit at hsmall hlimit
    obtain ⟨found, calls', size, now, hrun, hcalls, hnow, hsize, hok⟩ :=
      recentWindow_answers client.features
        (recent client.packages { request with limit := limit } (client.sessionId asked)
          (client.seq asked))
        (hanswers asked { request with limit := limit }) (hgrowing asked) h.accepted
    have hrange : ({ request with limit := limit } : RecentRequest).range (logs asked) =
        request.range (logs asked) := rfl
    rw [hrange] at hnow hok
    have hpart : now <+: request.range (logs asked) := hnow.trans (List.take_prefix _ _)
    have hbound : ∀ max, maxEvents = some max → got.length + now.length ≤ max.toNat := by
      intro max hmax
      have hle := hnow.length_le
      have htake := List.length_take_le size (request.range (logs asked))
      have hlast := hsmall.2 max hmax
      have hevents := h.events_eq max hmax
      have hasked : ({ request with limit := limit } : RecentRequest).limit.toNat =
        limit.toNat := rfl
      omega
    have hdelivered : delivered calls' = (got ++ now).map LogEvent.event := by
      rw [hcalls, h.calls_eq, List.map_append]
    have hwanted : got ++ now <+: got ++ request.range (logs asked) :=
      (List.prefix_append_right_inj got).mpr hpart
    dsimp only
    rw [hrun]
    cases found with
    | error e =>
      refine ⟨_, rfl, ?_, fun _ => ⟨e, rfl⟩⟩
      refine ⟨got ++ now, hwanted, hdelivered, ?_, fun _ h => by cases h⟩
      intro max hmax
      rw [List.length_append]
      exact hbound max hmax
    | ok found =>
      obtain ⟨haccepted, hall, hpos, hevents, hlast, hmore⟩ := hok found rfl
      have hnext : Underway client.onBatch maxEvents (got ++ now)
          { newCgSeq := if summary.windows = 0 then found.firstFs else summary.newCgSeq
            windows := summary.windows + 1
            events := (summary.events + found.events) % 2 ^ 64
            lastLs := found.lastLs.or summary.lastLs
            caughtUp := summary.caughtUp } calls' (windows ++ [.ok found]) := by
        constructor
        · exact hdelivered
        · exact haccepted
        · intro e he
          rcases List.mem_append.mp he with he | he
          · exact h.windows_ok e he
          · cases List.mem_singleton.mp he
        · intro max hmax
          have hle := hbound max hmax
          have hmaxlt := max.toNat_lt
          dsimp only
          rw [(h.events_eq max hmax).1, hevents, List.length_append,
            Nat.mod_eq_of_lt (by omega)]
          exact ⟨rfl, hle⟩
        · dsimp only
          rw [hlast, h.last_eq, List.getLast?_append]
          cases now.getLast? <;> rfl
        · exact h.notCaughtUp
      dsimp only
      by_cases hno : found.more = false
      · rw [if_pos hno]
        refine ⟨_, rfl, hnext.exact hwanted rfl ?_ fun h => by cases h⟩
        intro _
        rw [hall, List.take_of_length_le (hmore hno)]
      rw [if_neg hno]
      cases hls : found.lastLs with
      | none =>
        dsimp only
        rw [hls] at hnext
        refine ⟨_, rfl, hnext.exact hwanted rfl ?_ fun h => by cases h⟩
        intro _
        have hnil : now = [] := by
          rw [hls] at hlast
          cases hend : now.getLast? with
          | none => exact List.getLast?_eq_none_iff.mp hend
          | some e =>
            rw [hend] at hlast
            cases hlast
        rw [hnil] at hall ⊢
        rcases List.take_eq_nil_iff.mp hall.symm with hzero | hempty
        · have := hpos hlimit
          omega
        · rw [hempty]
      | some lastLs =>
        dsimp only
        rw [hls] at hnext hlast
        obtain ⟨e, hend, rfl⟩ := Option.map_eq_some_iff.mp hlast.symm
        obtain ⟨newer, hsplit⟩ := List.getLast?_eq_some_iff.mp hend
        have hcut : request.range (logs asked) =
            newer ++ e :: (request.range (logs asked)).drop size := by
          conv_lhs => rw [← List.take_append_drop size (request.range (logs asked)),
            ← hall, hsplit, List.append_assoc]
          rfl
        have hbelow := RecentRequest.range_before (hgrown asked) (hgrowing (asked + 1)) hcut
        have hrest : ({ request with limit := limit, before := some e.seq } :
            RecentRequest).range (logs (asked + 1)) =
            (request.range (logs asked)).drop size := hbelow
        have hshorter := congrArg List.length hcut
        rw [List.length_append, List.length_cons] at hshorter
        obtain ⟨outcome, hloop, hexact⟩ := ih (asked + 1)
          { request with limit := limit, before := some e.seq } _ calls' _ (got ++ now)
          hnext (by rw [hrest]; omega)
        refine ⟨outcome, hloop, ?_⟩
        rw [hrest, List.append_assoc, hall, List.take_append_drop] at hexact
        exact hexact

theorem maxLimit_pos (client : RecentClient) : 0 < client.maxLimit.toNat := by
  rw [maxLimit]
  cases hsaid : (client.hello.bind HelloLimits.recentMaxLimit).filter fun max => 0 < max with
  | none => exact Nat.zero_lt_succ _
  | some max =>
    have hpos := of_decide_eq_true (Option.filter_eq_some_iff.mp hsaid).2
    exact UInt32.lt_iff_toNat_lt.mp hpos

theorem clampU32_pos {value high : UInt32} (hhigh : 0 < high.toNat) :
    0 < (clampU32 value 1 high).toNat := by
  rw [clampU32]
  split_ifs with hlow hover
  · exact Nat.zero_lt_one
  · exact hhigh
  · rw [UInt32.lt_iff_toNat_lt] at hlow
    exact Nat.lt_of_lt_of_le Nat.zero_lt_one (Nat.le_of_not_lt hlow)

/-- A log with two events. -/
def exampleLog : List LogEvent :=
  [{ seq := 1, event := .number 1 }, { seq := 2, event := .number 2 }]

/-- An event is a byte, and the header of a batch has its number, how many there are and
whether there is more. -/
def exampleRecentPackages : RecentPackages where
  value
    | [byte] => .ok (.number byte.toNat)
    | _ => .error ""
  batchMeta
    | [seq, count, more] =>
        .ok { tc := count.toUInt32, bc := count.toUInt32, fs := seq.toNat, ls := seq.toNat,
              r := 0, more := more = 1 }
    | _ => .error ""
  recentMeta _ := []
  lossy _ := ""

def exampleRecentClient : RecentClient where
  packages := exampleRecentPackages
  features := some ["recent"]
  hello := none
  sessionId asked := UInt64.ofNat asked
  seq asked := UInt32.ofNat asked
  onBatch _ _ := none

/-- The batch of a window that has one event at most. -/
def exampleBatch (id : UInt64) (more : Bool) (window : List LogEvent) : Pack :=
  { kind := .event, subtype := event.batch, flags := flags.isResponse, id := id, seq := 0,
    «meta» := match window with
      | [] => [0, 0, if more then 1 else 0]
      | e :: _ => [UInt8.ofNat e.seq.toNat, 1, if more then 1 else 0],
    data := joinLengthPrefixed (window.map fun e => [UInt8.ofNat e.seq.toNat]) }

theorem exampleBatch_encodes (id : UInt64) (more : Bool) {window : List LogEvent}
    (hwindow : window = [] ∨ ∃ e ∈ exampleLog, window = [e]) :
    Encodes exampleRecentPackages id window.length 0 window 0 more
      (exampleBatch id more window) := by
  have hdata : splitLengthPrefixed (exampleBatch id more window).data =
      .ok (window.map fun e => [UInt8.ofNat e.seq.toNat]) := by
    refine splitLengthPrefixed_join _ fun item hitem => ?_
    obtain ⟨e, _, rfl⟩ := List.mem_map.mp hitem
    exact Nat.one_lt_two_pow (by decide)
  constructor
  · rfl
  · rfl
  · show flags.isResponse &&& flags.isResponse ≠ 0
    decide
  · rfl
  · rfl
  · rcases hwindow with rfl | ⟨e, he, rfl⟩
    · refine ⟨_, rfl, rfl, rfl, rfl, fun _ h => (by cases h), fun _ h => (by cases h), ?_⟩
      cases more <;> rfl
    · refine ⟨_, rfl, rfl, rfl, rfl, ?_, ?_, by cases more <;> rfl⟩
      all_goals
        rintro e' ⟨⟩
        rcases List.mem_cons.mp he with rfl | he
        · rfl
        · cases List.mem_singleton.mp he
          rfl
  · refine ⟨_, hdata, ?_⟩
    rcases hwindow with rfl | ⟨e, he, rfl⟩
    · rfl
    · rcases List.mem_cons.mp he with rfl | he
      · rfl
      · cases List.mem_singleton.mp he
        rfl

/-- The server gives one event at a time. -/
def exampleChannel : RecentChannel := fun asked request =>
  let size := min 1 request.limit.toNat
  let wanted := request.range exampleLog
  ([exampleBatch (UInt64.ofNat asked) (size < wanted.length) (wanted.take size)], .ok ())

theorem exampleChannel_answers (asked : Nat) (request : RecentRequest) :
    Answers exampleRecentPackages exampleLog request (UInt64.ofNat asked)
      (exampleChannel asked request) := by
  constructor
  refine ⟨min 1 request.limit.toNat,
    decide (min 1 request.limit.toNat < (request.range exampleLog).length),
    (exampleChannel asked request).1, by omega, by omega, ?_, ?_,
    (exampleChannel asked request).1, [], (List.append_nil _).symm, List.prefix_rfl,
    fun _ h => by cases h⟩
  · intro h
    exact Nat.le_of_not_lt (of_decide_eq_false h)
  · refine Batched.last (exampleBatch_encodes _ _ ?_)
    have hmem : ∀ e ∈ request.range exampleLog, e ∈ exampleLog := fun e he =>
      (RecentRequest.mem_range.mp he).1
    have hshort : min 1 request.limit.toNat ≤ 1 := min_le_left _ _
    generalize min 1 request.limit.toNat = size at hshort
    generalize request.range exampleLog = wanted at hmem
    cases wanted with
    | nil => exact .inl List.take_nil
    | cons e wanted =>
      rcases Nat.le_one_iff_eq_zero_or_eq_one.mp hshort with rfl | rfl
      · exact .inl rfl
      · exact .inr ⟨e, hmem e List.mem_cons_self, rfl⟩

end RecentClient

end WbfMatrixClient
