import WbfMatrixClient.RecentSyncRuns

/-!
# When a sync ends

The bound below which the next window begins is whatever the reply gives. Without a limit on the
events the sync goes on for as long as the replies are windows with events that say that there is
more, and nothing in it looks at whether the bound has moved. A server whose bounds fall brings it
to its end, because the numbers of events are bounded below.
-/

namespace WbfMatrixClient
namespace RecentClient

/-- What a request of a sync starts from. -/
structure Asking where
  request : RecentRequest
  calls : List RecentCall

section Asking

variable (client : RecentClient) (channel : RecentChannel)

/-- How the reply to a request is read. -/
def reply (asked : Nat) (a : Asking) : Except SdkError RecentWindow × List RecentCall :=
  recentWindow client.packages client.features client.onBatch
    (recent client.packages a.request (client.sessionId asked) (client.seq asked))
    (channel asked a.request) a.calls

/-- A window with events, that says that there is more. -/
def SaysMore (window : Except SdkError RecentWindow) : Prop :=
  ∃ found lastLs, window = .ok found ∧ found.more = true ∧ found.lastLs = some lastLs

/-- The next request, if the reply is to be followed by one. -/
def askNext (asked : Nat) (a : Asking) : Option Asking :=
  match client.reply channel asked a with
  | (.error _, _) => none
  | (.ok found, calls) =>
      if found.more = false then
        none
      else
        found.lastLs.map fun lastLs =>
          { request := { a.request with before := some lastLs }, calls := calls }

/-- The request with a number, if all replies before it say more. -/
def asking (cgSeq : Option Int) (plan : RecentPlan) : Nat → Option Asking
  | 0 => some { request := client.firstRequest cgSeq plan, calls := [] }
  | n + 1 => (asking cgSeq plan n).bind (client.askNext channel n)

/-- The sync returns after finitely many requests. -/
def SyncEnds (cgSeq : Option Int) (plan : RecentPlan) : Prop :=
  ∃ fuel outcome, client.recentSync channel cgSeq plan fuel = some outcome

end Asking

section Ends

variable {client : RecentClient} {channel : RecentChannel}
variable {cgSeq : Option Int} {plan : RecentPlan}

variable {a : Asking}

theorem askNext_eq_none_iff {asked : Nat} :
    client.askNext channel asked a = none ↔ ¬SaysMore (client.reply channel asked a).1 := by
  unfold askNext
  cases hreply : client.reply channel asked a with
  | mk result calls =>
    cases result with
    | error e =>
      refine ⟨fun _ => ?_, fun _ => rfl⟩
      rintro ⟨found, lastLs, heq, -⟩
      cases heq
    | ok found =>
      simp only
      by_cases hmore : found.more = false
      · rw [if_pos hmore]
        refine ⟨fun _ => ?_, fun _ => rfl⟩
        rintro ⟨found', lastLs, heq, htrue, -⟩
        cases heq
        rw [hmore] at htrue
        cases htrue
      · rw [if_neg hmore, Option.map_eq_none_iff]
        constructor
        · rintro hnone ⟨found', lastLs, heq, -, hsome⟩
          cases heq
          rw [hnone] at hsome
          cases hsome
        · intro hnot
          cases hls : found.lastLs with
          | none => rfl
          | some lastLs =>
            exact absurd ⟨found, lastLs, rfl, Bool.eq_true_of_not_eq_false hmore, hls⟩ hnot

variable {window : UInt32}

/-- One round of the loop: it returns, or it goes on with the next request. -/
theorem loop_succ (client : RecentClient) (channel : RecentChannel) {asked fuel : Nat}
    {summary : RecentSummary} {windows : List (Except SdkError RecentWindow)}
    (hlimit : a.request.limit = window) :
    (client.askNext channel asked a = none ∧ ∃ outcome, client.loop channel none window (fuel + 1)
        asked a.request summary a.calls windows = some outcome) ∨
      ∃ next summary' windows', client.askNext channel asked a = some next ∧
        next.request.limit = window ∧
        client.loop channel none window (fuel + 1) asked a.request summary a.calls windows =
          client.loop channel none window fuel (asked + 1) next.request summary' next.calls
            windows' := by
  subst hlimit
  have hsame : { a.request with limit := windowLimit a.request.limit none summary.events } =
      a.request := rfl
  rw [loop, if_neg (by simp)]
  simp only [hsame]
  unfold askNext
  rw [reply]
  cases recentWindow client.packages client.features client.onBatch
      (recent client.packages a.request (client.sessionId asked) (client.seq asked))
      (channel asked a.request) a.calls with
  | mk result calls =>
    cases result with
    | error e => exact .inl ⟨rfl, _, rfl⟩
    | ok found =>
      simp only
      by_cases hmore : found.more = false
      · rw [if_pos hmore, if_pos hmore]
        exact .inl ⟨rfl, _, rfl⟩
      · rw [if_neg hmore, if_neg hmore]
        cases found.lastLs with
        | none => exact .inl ⟨rfl, _, rfl⟩
        | some lastLs => exact .inr ⟨_, _, _, rfl, rfl, rfl⟩

/-- Requests do not stop before the reply that ends them. -/
theorem asking_succ {n : Nat} (h : client.asking channel cgSeq plan n = some a) :
    client.asking channel cgSeq plan (n + 1) = client.askNext channel n a := by
  rw [asking, h, Option.bind_some]

/-- A loop that returns has come to a reply after which no request is made. -/
theorem stops_of_loop (client : RecentClient) (cgSeq : Option Int) (plan : RecentPlan) :
    ∀ (fuel asked : Nat) (a : Asking) (summary : RecentSummary)
      (windows : List (Except SdkError RecentWindow)) (outcome : RecentOutcome),
      a.request.limit = window →
      client.asking channel cgSeq plan asked = some a →
      client.loop channel none window fuel asked a.request summary a.calls windows = some outcome →
      ∃ n last, client.asking channel cgSeq plan n = some last ∧
        client.askNext channel n last = none := by
  intro fuel
  induction fuel with
  | zero =>
    intro asked a summary windows outcome _ _ h
    cases h
  | succ fuel ih =>
    intro asked a summary windows outcome hlimit hasking h
    rcases loop_succ client channel hlimit with
      ⟨hnone, -⟩ | ⟨next, summary', windows', hnext, hlimit', hloop⟩
    · exact ⟨asked, a, hasking, hnone⟩
    · rw [hloop] at h
      exact ih (asked + 1) next summary' windows' outcome hlimit'
        ((asking_succ hasking).trans hnext) h

/-- With the reply still to come after which no request is made, the loop returns. -/
theorem loop_of_stops {n : Nat} {last : Asking}
    (hlast : client.asking channel cgSeq plan n = some last)
    (hnone : client.askNext channel n last = none) :
    ∀ (left asked : Nat) (a : Asking) (summary : RecentSummary)
      (windows : List (Except SdkError RecentWindow)),
      asked + left = n →
      a.request.limit = window →
      client.asking channel cgSeq plan asked = some a →
      ∃ outcome, client.loop channel none window (left + 1) asked a.request summary a.calls
        windows = some outcome := by
  intro left
  induction left with
  | zero =>
    intro asked a summary windows hn hlimit hasking
    rw [Nat.add_zero] at hn
    subst hn
    rw [hasking] at hlast
    cases hlast
    rcases loop_succ client channel hlimit with
      ⟨-, hreturns⟩ | ⟨next, -, -, hnext, -⟩
    · exact hreturns
    · rw [hnone] at hnext
      cases hnext
  | succ left ih =>
    intro asked a summary windows hn hlimit hasking
    rcases loop_succ client channel hlimit with
      ⟨-, hreturns⟩ | ⟨next, summary', windows', hnext, hlimit', hloop⟩
    · exact hreturns
    · rw [hloop]
      exact ih (asked + 1) next summary' windows' (by omega) hlimit'
        ((asking_succ hasking).trans hnext)

theorem syncEnds_iff (hunlimited : plan.maxEvents = none) :
    client.SyncEnds channel cgSeq plan ↔
      ∃ n a, client.asking channel cgSeq plan n = some a ∧ client.askNext channel n a = none := by
  simp only [SyncEnds, recentSync, hunlimited]
  constructor
  · rintro ⟨fuel, outcome, h⟩
    exact stops_of_loop client cgSeq plan fuel 0 { request := client.firstRequest cgSeq plan, calls := [] } _ _
      outcome rfl rfl h
  · rintro ⟨n, last, hlast, hnone⟩
    exact ⟨n + 1, loop_of_stops hlast hnone n 0
      { request := client.firstRequest cgSeq plan, calls := [] } _ _ (Nat.zero_add n) rfl rfl⟩

end Ends

/-- A server that gives the same event for every request, and says that there is more. -/
def sameEventChannel : RecentChannel := fun asked _ =>
  ([exampleBatch (UInt64.ofNat asked) true [{ seq := 2, event := .number 2 }]], .ok ())

theorem reply_sameEvent (asked : Nat) (a : Asking) :
    SaysMore (exampleRecentClient.reply sameEventChannel asked a).1 := by
  have hpack : Encodes exampleRecentPackages (UInt64.ofNat asked) 1 0
      [{ seq := 2, event := .number 2 }] 0 true
      (exampleBatch (UInt64.ofNat asked) true [{ seq := 2, event := .number 2 }]) :=
    exampleBatch_encodes (UInt64.ofNat asked) true
      (.inr ⟨_, List.mem_cons_of_mem _ List.mem_cons_self, rfl⟩)
  have hexpect : ∀ request : Pack, request.id = UInt64.ofNat asked →
      expectBatch exampleRecentClient.packages request
        (exampleBatch (UInt64.ofNat asked) true [{ seq := 2, event := .number 2 }]) 0 =
      .ok (exampleBatch (UInt64.ofNat asked) true [{ seq := 2, event := .number 2 }]) := by
    intro request hid
    have hseq : (exampleBatch (UInt64.ofNat asked) true
        [{ seq := 2, event := .number 2 }]).seq = 0 := hpack.seq_eq
    rw [expectBatch, expectReply, if_neg (by rw [hpack.kind]; rintro ⟨h, _⟩; cases h), if_neg,
      if_neg (not_not.mpr (hpack.id_eq.trans hid.symm)), if_neg (not_not.mpr hseq)]
    rintro (h | h | h)
    · exact h hpack.kind
    · exact h hpack.subtype
    · exact hpack.response h
  obtain ⟨found, hparse, htc, hbc, hr, hls, hmore⟩ :=
    hpack.parseBatch (List.pairwise_singleton _ _) (by decide) (by decide)
  have hclient : parseBatch exampleRecentClient.packages (exampleBatch (UInt64.ofNat asked) true
      [{ seq := 2, event := .number 2 }]) = _ := hparse
  have htotal : found.tc = 1 := htc
  have hcount : found.bc = 1 := hbc
  have hrest : found.r = 0 := hr
  refine ⟨{ tc := 1, batches := 1, events := 1, firstFs := some found.fs,
            lastLs := some found.ls, more := true }, found.ls, ?_, rfl, rfl⟩
  rw [reply, recentWindow]
  simp only [sameEventChannel, streamPacks, onRecentPack, RecentFetch.start]
  rw [hexpect _ rfl]
  simp only [hclient, htotal, hcount, hrest, hmore]
  rfl

end RecentClient
end WbfMatrixClient
