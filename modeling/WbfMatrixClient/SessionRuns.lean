import Mathlib.Data.Nat.ModEq
import WbfMatrixClient.Sessions

/-!
# Runs of the session table

The table together with the consumers' ends of its channels. A step is one of
the table's operations, or a consumer taking a pack, reading its gap mark or
end reason, or dropping its receiver. The invariant says that the entries hold
unused senders of distinct channels, and the run lemmas account for every
dispatched pack and for every generation.
-/

namespace WbfMatrixClient
namespace SessionRuns

open Function

/-- The table, all channels made so far, and how many registrations succeeded.
The last number is not in the program, where only its value modulo 2^64 is
kept as the generation. -/
structure World where
  table : SessionTable
  channels : Channels
  nextSlot : Nat
  registered : Nat

def World.start (connectionId : UInt64) : World :=
  { table := .new connectionId, channels := fun _ => .fresh, nextSlot := 0, registered := 0 }

/-- A new sink together with its channel, for one of the three kinds. -/
inductive SinkKind where
  | oneshot
  | stream
  | subscription

def SinkKind.sink : SinkKind → PackSink
  | .oneshot => .oneshot .new
  | .stream => .stream .new
  | .subscription => .subscription .new

inductive Op where
  | register (key : SessionKey) (kind : SinkKind)
  | dispatch (pack : Pack)
  | removeIf (key : SessionKey) (generation : UInt64)
  | failAll (reason : String)
  | setOrphanSink (capacity : Nat)
  | take (slot : Nat)
  | takeGap (slot : Nat)
  | takeEndReason (slot : Nat)
  | dropReceiver (slot : Nat)

namespace World

/-- A new sink and its registration. A refused sink is dropped at once. -/
def register (w : World) (key : SessionKey) (kind : SinkKind) :
    World × Except SdkError UInt64 :=
  let w' := { w with
    channels := update w.channels w.nextSlot .fresh
    nextSlot := w.nextSlot + 1 }
  match w.table.register key w.nextSlot kind.sink with
  | .ok (table, generation) =>
      ({ w' with table := table, registered := w.registered + 1 }, .ok generation)
  | .error error => (w', .error error)

def dispatch (w : World) (pack : Pack) : World :=
  let (table, channels) := w.table.dispatch w.channels pack
  { w with table := table, channels := channels }

def removeIf (w : World) (key : SessionKey) (generation : UInt64) : World :=
  { w with table := (w.table.removeIf key generation).1 }

def failAll (w : World) (reason : String) : World :=
  let (table, channels) := w.table.failAll w.channels reason
  { w with table := table, channels := channels }

/-- A consumer's own change of its channel. -/
def modifyChannel (w : World) (slot : Nat) (f : Channel → Channel) : World :=
  { w with channels := update w.channels slot (f (w.channels slot)) }

def step (w : World) : Op → World
  | .register key kind => (w.register key kind).1
  | .dispatch pack => w.dispatch pack
  | .removeIf key generation => w.removeIf key generation
  | .failAll reason => w.failAll reason
  | .setOrphanSink capacity =>
      { w with table := { w.table with orphans := some ⟨capacity, []⟩ } }
  | .take slot => w.modifyChannel slot fun c => { c with queue := c.queue.tail }
  | .takeGap slot => w.modifyChannel slot fun c => { c with gap := false }
  | .takeEndReason slot => w.modifyChannel slot fun c => { c with endReason := none }
  | .dropReceiver slot => w.modifyChannel slot fun c => { c with receiverAlive := false }

/-- The entry under a key. -/
def entry (w : World) (key : SessionKey) : Option Entry :=
  w.table.entries.lookup key

end World

/-- What every run keeps: an entry owns an unused sender of a channel of its
own, a channel has carried at most one oneshot result and none while its
sender is still in the table, and generations count registrations. -/
structure Wellformed (w : World) : Prop where
  slot_lt : ∀ key e, w.entry key = some e → e.slot < w.nextSlot
  slot_inj : ∀ key key' e e', w.entry key = some e → w.entry key' = some e' →
    e.slot = e'.slot → key = key'
  has_sender : ∀ key e, w.entry key = some e → e.sink.hasSender = true
  unsent : ∀ key e, w.entry key = some e → (w.channels e.slot).results = []
  results_le : ∀ slot, (w.channels slot).results.length ≤ 1
  generation : w.table.nextGeneration = UInt64.ofNat w.registered

/-- The key is one the pack may be handed to. -/
def Matches (key : SessionKey) (pack : Pack) : Prop :=
  match key with
  | .session id => id = pack.id
  | .reply id seq =>
      (id = pack.id ∧ seq = pack.seq) ∨
        (id = 0 ∧ seq = pack.seq ∧ SessionTable.isControlResponse pack = true)

/-- The pack went into the channel, as the waiter's result or at the end of
the queue. -/
inductive Accepted (pack : Pack) (c : Channel) : Channel → Prop where
  | result : Accepted pack c { c with results := c.results ++ [.ok pack] }
  | queued : Accepted pack c { c with queue := c.queue ++ [pack] }

/-- What a live sink does with a pack: the channel after the call and whether
the entry stays. -/
inductive Delivered (pack : Pack) (c : Channel) : Channel → Delivery → Prop where
  | accepted {c' : Channel} {delivery : Delivery}
      (haccepted : Accepted pack c c')
      (hresults : delivery = .kept → c'.results = c.results) :
      Delivered pack c c' delivery
  | gap : Delivered pack c { c with gap := true } .kept
  | ended {c' : Channel}
      (hresults : c'.results = c.results)
      (hqueue : c'.queue = c.queue)
      (hreason : c'.endReason.isSome = true) :
      Delivered pack c c' .finished
  | gone (hgone : c.receiverAlive = false) : Delivered pack c c .finished

theorem oneshot_deliver (sink : OneshotSink) (c : Channel) (pack : Pack)
    (hsender : sink.sender = true) :
    Delivered pack c (sink.deliver c pack).2.1 (sink.deliver c pack).2.2 := by
  by_cases halive : c.receiverAlive
  · have h : (sink.deliver c pack).2.1 = { c with results := c.results ++ [.ok pack] } := by
      simp [OneshotSink.deliver, Channel.sendOnce, hsender, halive]
    rw [h]
    refine .accepted .result ?_
    intro hkept
    simp [OneshotSink.deliver] at hkept
  · have h : (sink.deliver c pack).2.1 = c := by
      simp [OneshotSink.deliver, Channel.sendOnce, hsender, halive]
    rw [h]
    exact .gone (by simpa using halive)

variable {c c' : Channel} {pack : Pack}

theorem trySend_ok {capacity : Nat} (h : c.trySend capacity pack = .ok c') :
    c' = { c with queue := c.queue ++ [pack] } := by
  unfold Channel.trySend at h
  split_ifs at h
  injection h with h
  exact h.symm

theorem trySend_closed {capacity : Nat} (h : c.trySend capacity pack = .error .closed) :
    c.receiverAlive = false := by
  unfold Channel.trySend at h
  split_ifs at h with halive hroom
  · simp at h
  · simpa using halive

theorem stream_deliver (sink : StreamSink) (c : Channel) (pack : Pack)
    (hsender : sink.sender = true) :
    Delivered pack c (sink.deliver c pack).2.1 (sink.deliver c pack).2.2 := by
  unfold StreamSink.deliver
  rw [if_pos hsender]
  rcases hsend : c.trySend streamQueuePacks pack with ⟨_ | _⟩ | c'
  · exact .ended (by simp) (by simp) (by simp)
  · exact .gone (trySend_closed hsend)
  · have hc' := trySend_ok hsend
    subst hc'
    exact .accepted .queued (fun _ => rfl)

theorem subscription_deliver (sink : SubscriptionSink) (c : Channel) (pack : Pack)
    (hsender : sink.sender = true) :
    Delivered pack c (sink.deliver c pack).2.1 (sink.deliver c pack).2.2 := by
  unfold SubscriptionSink.deliver
  rw [if_pos hsender]
  rcases hsend : c.trySend subscriptionQueuePacks pack with ⟨_ | _⟩ | c'
  · dsimp only
    split_ifs
    · exact .ended (by simp) (by simp) (by simp)
    · exact .gap
  · exact .gone (trySend_closed hsend)
  · have hc' := trySend_ok hsend
    subst hc'
    exact .accepted .queued (fun _ => rfl)

/-- Every kind of sink accounts for the pack it is given. -/
theorem deliver_spec (sink : PackSink) (c : Channel) (pack : Pack)
    (hsender : sink.hasSender = true) :
    Delivered pack c (sink.deliver c pack).2.1 (sink.deliver c pack).2.2 := by
  cases sink with
  | oneshot s => exact oneshot_deliver s c pack hsender
  | stream s => exact stream_deliver s c pack hsender
  | subscription s => exact subscription_deliver s c pack hsender

/-- A sink that stays in the table still holds its sender. -/
theorem deliver_keeps_sender (sink : PackSink) (c : Channel) (pack : Pack)
    (hsender : sink.hasSender = true) (hkept : (sink.deliver c pack).2.2 = .kept) :
    (sink.deliver c pack).1.hasSender = true := by
  cases sink with
  | oneshot s => simp [PackSink.deliver, OneshotSink.deliver] at hkept
  | stream s =>
    have hs : s.sender = true := hsender
    simp only [PackSink.deliver, StreamSink.deliver, hs, if_true] at hkept ⊢
    rcases hsend : c.trySend streamQueuePacks pack with ⟨_ | _⟩ | c'
    · simp [hsend] at hkept
    · simp [hsend] at hkept
    · simpa [PackSink.hasSender] using hs
  | subscription s =>
    have hs : s.sender = true := hsender
    simp only [PackSink.deliver, SubscriptionSink.deliver, hs, if_true]
    rcases hsend : c.trySend subscriptionQueuePacks pack with ⟨_ | _⟩ | c'
    · dsimp only
      split_ifs <;> simpa [PackSink.hasSender] using hs
    · simpa [PackSink.hasSender] using hs
    · simpa [PackSink.hasSender] using hs

theorem Delivered.results_le {delivery : Delivery} (h : Delivered pack c c' delivery)
    (hc : c.results = []) : c'.results.length ≤ 1 := by
  cases h with
  | accepted haccepted _ => cases haccepted <;> simp [hc]
  | gap | gone _ => simp [hc]
  | ended hresults _ _ => simp [hresults, hc]

theorem Delivered.results_of_kept (h : Delivered pack c c' .kept) : c'.results = c.results := by
  cases h with
  | accepted _ hresults => exact hresults rfl
  | gap => rfl

variable {key : SessionKey}

theorem findKey_some {t : SessionTable} (h : t.findKey pack = some key) :
    key ∈ t.entries ∧ Matches key pack := by
  unfold SessionTable.findKey at h
  split_ifs at h with hnamed hexact hcreate
  · cases h
    exact ⟨hnamed.2, rfl⟩
  · cases h
    exact ⟨hexact, .inl ⟨rfl, rfl⟩⟩
  · cases h
    exact ⟨hcreate.2, .inr ⟨rfl, rfl, hcreate.1⟩⟩

variable {entries : AList (fun _ : SessionKey => Entry)} {key' : SessionKey} {e : Entry}

theorem lookup_insert_cases {new : Entry} (h : (entries.insert key new).lookup key' = some e) :
    (key' = key ∧ e = new) ∨ (key' ≠ key ∧ entries.lookup key' = some e) := by
  by_cases hkey : key' = key
  · subst hkey
    rw [AList.lookup_insert] at h
    exact .inl ⟨rfl, (Option.some.inj h).symm⟩
  · rw [AList.lookup_insert_ne hkey] at h
    exact .inr ⟨hkey, h⟩

theorem lookup_erase_cases (h : (entries.erase key).lookup key' = some e) :
    key' ≠ key ∧ entries.lookup key' = some e := by
  by_cases hkey : key' = key
  · subst hkey
    rw [AList.lookup_erase] at h
    simp at h
  · rw [AList.lookup_erase_ne hkey] at h
    exact ⟨hkey, h⟩

theorem lookup_of_mem (h : key ∈ entries) : ∃ e, entries.lookup key = some e := by
  exact Option.isSome_iff_exists.mp (AList.lookup_isSome.mpr h)

theorem wellformed_start (connectionId : UInt64) : Wellformed (World.start connectionId) := by
  refine ⟨?_, ?_, ?_, ?_, ?_, rfl⟩
  · intro key e h
    simp [World.entry, World.start, SessionTable.new] at h
  · intro key key' e e' h
    simp [World.entry, World.start, SessionTable.new] at h
  · intro key e h
    simp [World.entry, World.start, SessionTable.new] at h
  · intro key e h
    simp [World.entry, World.start, SessionTable.new] at h
  · intro slot
    simp [World.start, Channel.fresh]

variable {w : World}

/-- Fewer entries over channels with the same results. -/
theorem Wellformed.of_subset {w' : World} (h : Wellformed w)
    (hentry : ∀ key e, w'.entry key = some e → w.entry key = some e)
    (hresults : ∀ slot, (w'.channels slot).results = (w.channels slot).results)
    (hslot : w'.nextSlot = w.nextSlot) (hregistered : w'.registered = w.registered)
    (hgeneration : w'.table.nextGeneration = w.table.nextGeneration) : Wellformed w' := by
  refine ⟨?_, ?_, ?_, ?_, ?_, ?_⟩
  · intro key e he
    rw [hslot]
    exact h.slot_lt key e (hentry key e he)
  · intro key key' e e' he he'
    exact h.slot_inj key key' e e' (hentry key e he) (hentry key' e' he')
  · intro key e he
    exact h.has_sender key e (hentry key e he)
  · intro key e he
    rw [hresults]
    exact h.unsent key e (hentry key e he)
  · intro slot
    rw [hresults]
    exact h.results_le slot
  · rw [hgeneration, hregistered]
    exact h.generation

theorem Wellformed.modifyChannel {w : World} (h : Wellformed w) (slot : Nat) (f : Channel → Channel)
    (hf : ∀ c, (f c).results = c.results) : Wellformed (w.modifyChannel slot f) := by
  refine h.of_subset (fun _ _ he => he) ?_ rfl rfl rfl
  intro s
  by_cases hs : s = slot
  · subst hs
    simp [World.modifyChannel, hf]
  · simp [World.modifyChannel, update_of_ne hs]

/-- What a registration does: refused with a spare channel, or a new entry of
the next generation under a key that was free. -/
theorem register_cases (w : World) (key : SessionKey) (kind : SinkKind) :
    (key ∈ w.table.entries ∧ (w.register key kind).1.table = w.table ∧
        (w.register key kind).1.registered = w.registered ∧
        ∃ error, (w.register key kind).2 = .error error) ∨
      (key ∉ w.table.entries ∧
        (w.register key kind).1.table =
          { w.table with
            nextGeneration := w.table.nextGeneration + 1
            entries := w.table.entries.insert key
              ⟨w.table.nextGeneration + 1, w.nextSlot, kind.sink⟩ } ∧
        (w.register key kind).1.registered = w.registered + 1 ∧
        (w.register key kind).2 = .ok (w.table.nextGeneration + 1)) := by
  by_cases hkey : key ∈ w.table.entries
  · left
    simp [World.register, SessionTable.register, hkey]
  · right
    simp [World.register, SessionTable.register, hkey]

@[simp] theorem register_nextSlot (w : World) (key : SessionKey) (kind : SinkKind) :
    (w.register key kind).1.nextSlot = w.nextSlot + 1 := by
  unfold World.register
  cases w.table.register key w.nextSlot kind.sink <;> rfl

@[simp] theorem register_channels (w : World) (key : SessionKey) (kind : SinkKind) :
    (w.register key kind).1.channels =
      update w.channels w.nextSlot .fresh := by
  unfold World.register
  cases w.table.register key w.nextSlot kind.sink <;> rfl

theorem sink_hasSender (kind : SinkKind) : kind.sink.hasSender = true := by cases kind <;> rfl

variable {kind : SinkKind}

/-- The entries after a registration: the old ones, or the new one in the
first free slot. -/
theorem register_entry (h : (w.register key kind).1.entry key' = some e) :
    w.entry key' = some e ∨
      (key' = key ∧ key ∉ w.table.entries ∧
        e = ⟨w.table.nextGeneration + 1, w.nextSlot, kind.sink⟩) := by
  unfold World.entry at h
  rcases register_cases w key kind with ⟨_, htable, _⟩ | ⟨hfree, htable, _⟩
  · rw [htable] at h
    exact .inl h
  · rw [htable] at h
    rcases lookup_insert_cases h with ⟨hkey, he⟩ | ⟨_, he⟩
    · exact .inr ⟨hkey, hfree, he⟩
    · exact .inl he

theorem Wellformed.register {w : World} (h : Wellformed w) (key : SessionKey) (kind : SinkKind) :
    Wellformed (w.register key kind).1 := by
  refine ⟨?_, ?_, ?_, ?_, ?_, ?_⟩
  · intro key' e he
    rw [register_nextSlot]
    rcases register_entry he with he | ⟨_, _, he⟩
    · exact Nat.lt_succ_of_lt (h.slot_lt key' e he)
    · simp [he]
  · intro key₁ key₂ e₁ e₂ he₁ he₂ hslot
    rcases register_entry he₁ with he₁ | ⟨hk₁, _, he₁⟩ <;>
      rcases register_entry he₂ with he₂ | ⟨hk₂, _, he₂⟩
    · exact h.slot_inj key₁ key₂ e₁ e₂ he₁ he₂ hslot
    · have hlt := h.slot_lt key₁ e₁ he₁
      rw [hslot, he₂] at hlt
      exact absurd hlt (lt_irrefl _)
    · have hlt := h.slot_lt key₂ e₂ he₂
      rw [← hslot, he₁] at hlt
      exact absurd hlt (lt_irrefl _)
    · rw [hk₁, hk₂]
  · intro key' e he
    rcases register_entry he with he | ⟨_, _, he⟩
    · exact h.has_sender key' e he
    · rw [he]
      exact sink_hasSender kind
  · intro key' e he
    rw [register_channels]
    rcases register_entry he with he | ⟨_, _, he⟩
    · have hne : e.slot ≠ w.nextSlot := Nat.ne_of_lt (h.slot_lt key' e he)
      rw [update_of_ne hne]
      exact h.unsent key' e he
    · simp [he, Channel.fresh]
  · intro slot
    rw [register_channels]
    by_cases hslot : slot = w.nextSlot
    · simp [hslot, Channel.fresh]
    · rw [update_of_ne hslot]
      exact h.results_le slot
  · rcases register_cases w key kind with
      ⟨_, htable, hcount, _⟩ | ⟨_, htable, hcount, _⟩
    · rw [htable, hcount]
      exact h.generation
    · rw [htable, hcount]
      simp [h.generation]

theorem Wellformed.removeIf {w : World} (h : Wellformed w) (key : SessionKey)
    (generation : UInt64) : Wellformed (w.removeIf key generation) := by
  unfold World.removeIf SessionTable.removeIf
  rcases w.table.entries.lookup key with _ | e
  · exact h
  · dsimp only
    split_ifs
    · exact h.of_subset (fun _ _ he => (lookup_erase_cases he).2) (fun _ => rfl) rfl rfl rfl
    · exact h

/-- The two ways of a dispatch: no entry is found and the pack is counted, or
the sink of the entry found gets it. -/
theorem dispatch_cases (w : World) (pack : Pack) :
    (w.table.findKey pack = none ∧
        w.dispatch pack =
          { w with table := { w.table with
            unmatched := saturatingSucc w.table.unmatched
            orphans := w.table.orphans.map fun inbox => inbox.trySend pack } }) ∨
      ∃ key e, w.table.findKey pack = some key ∧ w.entry key = some e ∧
        w.dispatch pack =
          { w with
            table := { w.table with
              entries := match (e.sink.deliver (w.channels e.slot) pack).2.2 with
                | .finished => w.table.entries.erase key
                | .kept => w.table.entries.insert key
                    { e with sink := (e.sink.deliver (w.channels e.slot) pack).1 } }
            channels := update w.channels e.slot
              (e.sink.deliver (w.channels e.slot) pack).2.1 } := by
  rcases hfind : w.table.findKey pack with _ | key
  · left
    simp [World.dispatch, SessionTable.dispatch, hfind]
  · right
    obtain ⟨e, he⟩ := lookup_of_mem (findKey_some hfind).1
    refine ⟨key, e, rfl, he, ?_⟩
    cases hdelivered : (e.sink.deliver (w.channels e.slot) pack).2.2 with
    | finished | kept => simp only [World.dispatch, SessionTable.dispatch, hfind, he, hdelivered]

theorem Wellformed.dispatch {w : World} (h : Wellformed w) (pack : Pack) :
    Wellformed (w.dispatch pack) := by
  rcases dispatch_cases w pack with ⟨_, heq⟩ | ⟨key, e, _, he, heq⟩
  · rw [heq]
    exact h.of_subset (fun _ _ he => he) (fun _ => rfl) rfl rfl rfl
  · have hsender := h.has_sender key e he
    have hunsent := h.unsent key e he
    have hspec := deliver_spec e.sink (w.channels e.slot) pack hsender
    have hother : ∀ key' e', w.entry key' = some e' → key' ≠ key → e'.slot ≠ e.slot :=
      fun key' e' he' hkey hslot => hkey (h.slot_inj key' key e' e he' he hslot)
    have hentry : ∀ key' e', (w.dispatch pack).entry key' = some e' →
        (key' = key ∧ (e.sink.deliver (w.channels e.slot) pack).2.2 = .kept ∧
          e' = { e with sink := (e.sink.deliver (w.channels e.slot) pack).1 }) ∨
        (key' ≠ key ∧ w.entry key' = some e') := by
      intro key' e' he'
      rw [heq] at he'
      unfold World.entry at he'
      cases hdelivery : (e.sink.deliver (w.channels e.slot) pack).2.2 with
      | kept =>
        simp only [hdelivery] at he'
        rcases lookup_insert_cases he' with ⟨hkey, hnew⟩ | hold
        · exact .inl ⟨hkey, rfl, hnew⟩
        · exact .inr hold
      | finished =>
        simp only [hdelivery] at he'
        exact .inr (lookup_erase_cases he')
    have hchannels : (w.dispatch pack).channels =
        update w.channels e.slot
          (e.sink.deliver (w.channels e.slot) pack).2.1 := by
      rw [heq]
    refine ⟨?_, ?_, ?_, ?_, ?_, ?_⟩
    · intro key' e' he'
      have hslot : (w.dispatch pack).nextSlot = w.nextSlot := by rw [heq]
      rw [hslot]
      rcases hentry key' e' he' with ⟨_, _, rfl⟩ | ⟨_, he'⟩
      · exact h.slot_lt key e he
      · exact h.slot_lt key' e' he'
    · intro key₁ key₂ e₁ e₂ he₁ he₂ hslot
      rcases hentry key₁ e₁ he₁ with ⟨hk₁, _, rfl⟩ | ⟨hk₁, he₁⟩ <;>
        rcases hentry key₂ e₂ he₂ with ⟨hk₂, _, rfl⟩ | ⟨hk₂, he₂⟩
      · rw [hk₁, hk₂]
      · exact absurd hslot.symm (hother key₂ e₂ he₂ hk₂)
      · exact absurd hslot (hother key₁ e₁ he₁ hk₁)
      · exact h.slot_inj key₁ key₂ e₁ e₂ he₁ he₂ hslot
    · intro key' e' he'
      rcases hentry key' e' he' with ⟨_, hkept, rfl⟩ | ⟨_, he'⟩
      · exact deliver_keeps_sender e.sink _ pack hsender hkept
      · exact h.has_sender key' e' he'
    · intro key' e' he'
      rw [hchannels]
      rcases hentry key' e' he' with ⟨_, hkept, rfl⟩ | ⟨hkey, he'⟩
      · rw [hkept] at hspec
        simpa [hspec.results_of_kept] using hunsent
      · rw [update_of_ne (hother key' e' he' hkey)]
        exact h.unsent key' e' he'
    · intro slot
      rw [hchannels]
      by_cases hslot : slot = e.slot
      · subst hslot
        simpa using hspec.results_le hunsent
      · rw [update_of_ne hslot]
        exact h.results_le slot
    · rw [heq]
      exact h.generation

/-- The channels after every sink of a list of entries has failed. -/
def failEntries
    (t : SessionTable) (reason : String)
    (entries : List (Sigma fun _ : SessionKey => Entry)) (channels : Channels) : Channels :=
  entries.foldl
    (fun channels ⟨key, entry⟩ =>
      update channels entry.slot
        (entry.sink.fail (channels entry.slot) (t.closedBy reason key)))
    channels

theorem failEntries_of_not_mem (t : SessionTable) (reason : String) (slot : Nat) :
    ∀ (entries : List (Sigma fun _ : SessionKey => Entry)) (channels : Channels),
      (∀ x ∈ entries, x.2.slot ≠ slot) →
      failEntries t reason entries channels slot = channels slot := by
  intro entries
  induction entries with
  | nil =>
    intro channels _
    rfl
  | cons x entries ih =>
    intro channels h
    have hx : x.2.slot ≠ slot := h x (by simp)
    have hrest := ih (update channels x.2.slot
      (x.2.sink.fail (channels x.2.slot) (t.closedBy reason x.1)))
      (fun y hy => h y (by simp [hy]))
    rw [update_of_ne hx.symm] at hrest
    exact hrest

/-- With one entry per slot, the channel of an entry is failed exactly once. -/
theorem failEntries_of_mem (t : SessionTable) (reason : String) (key : SessionKey) (e : Entry) :
    ∀ (entries : List (Sigma fun _ : SessionKey => Entry)) (channels : Channels),
      (entries.map fun x => x.2.slot).Nodup →
      ⟨key, e⟩ ∈ entries →
      failEntries t reason entries channels e.slot =
        e.sink.fail (channels e.slot) (t.closedBy reason key) := by
  intro entries
  induction entries with
  | nil =>
    intro channels _ hmem
    simp at hmem
  | cons x entries ih =>
    intro channels hnodup hmem
    rw [List.map_cons, List.nodup_cons] at hnodup
    rcases List.mem_cons.mp hmem with rfl | hmem
    · have hrest : ∀ y ∈ entries, y.2.slot ≠ e.slot := by
        intro y hy hslot
        exact hnodup.1 (List.mem_map.mpr ⟨y, hy, hslot⟩)
      have htail := failEntries_of_not_mem t reason e.slot entries
        (update channels e.slot
          (e.sink.fail (channels e.slot) (t.closedBy reason key))) hrest
      rw [update_self] at htail
      exact htail
    · have hne : e.slot ≠ x.2.slot := by
        intro hslot
        exact hnodup.1 (List.mem_map.mpr ⟨⟨key, e⟩, hmem, hslot⟩)
      have htail := ih (update channels x.2.slot
        (x.2.sink.fail (channels x.2.slot) (t.closedBy reason x.1))) hnodup.2 hmem
      rw [update_of_ne hne] at htail
      exact htail

theorem Wellformed.slots_nodup (h : Wellformed w) :
    (w.table.entries.entries.map fun x => x.2.slot).Nodup := by
  refine List.Nodup.map_on ?_ w.table.entries.nodupKeys.nodup
  rintro ⟨key, e⟩ hx ⟨key', e'⟩ hx' hslot
  have he : w.entry key = some e := AList.mem_lookup_iff.mpr hx
  have he' : w.entry key' = some e' := AList.mem_lookup_iff.mpr hx'
  have hkey := h.slot_inj key key' e e' he he' hslot
  subst hkey
  rw [he] at he'
  cases he'
  rfl

theorem failAll_entry (h : Wellformed w) (he : w.entry key = some e) (reason : String) :
    (w.failAll reason).channels e.slot =
      e.sink.fail (w.channels e.slot) (w.table.closedBy reason key) :=
  failEntries_of_mem w.table reason key e w.table.entries.entries w.channels
    h.slots_nodup (AList.mem_lookup_iff.mp he)

theorem failAll_other {slot : Nat} (hslot : ∀ key e, w.entry key = some e → e.slot ≠ slot)
    (reason : String) :
    (w.failAll reason).channels slot = w.channels slot :=
  failEntries_of_not_mem w.table reason slot w.table.entries.entries w.channels
    (fun x hx => hslot x.1 x.2 (AList.mem_lookup_iff.mpr hx))

@[simp] theorem failAll_no_entry (w : World) (reason : String) (key : SessionKey) :
    (w.failAll reason).entry key = none := by
  simp [World.failAll, SessionTable.failAll, World.entry]

theorem fail_results_le (sink : PackSink) (c : Channel) (reason : SdkError) (hc : c.results = []) :
    (sink.fail c reason).results.length ≤ 1 := by
  cases sink with
  | oneshot s =>
    simp only [PackSink.fail, OneshotSink.fail, Channel.sendOnce]
    split_ifs <;> simp [hc]
  | stream s => simp [PackSink.fail, StreamSink.fail, hc]
  | subscription s => simp [PackSink.fail, SubscriptionSink.fail, hc]

theorem Wellformed.failAll {w : World} (h : Wellformed w) (reason : String) :
    Wellformed (w.failAll reason) := by
  refine ⟨?_, ?_, ?_, ?_, ?_, h.generation⟩
  · intro key e he
    simp at he
  · intro key key' e e' he
    simp at he
  · intro key e he
    simp at he
  · intro key e he
    simp at he
  · intro slot
    by_cases hslot : ∃ key e, w.entry key = some e ∧ e.slot = slot
    · obtain ⟨key, e, he, rfl⟩ := hslot
      rw [failAll_entry h he]
      exact fail_results_le e.sink _ _ (h.unsent key e he)
    · have hother : ∀ key e, w.entry key = some e → e.slot ≠ slot :=
        fun key e he heq => hslot ⟨key, e, he, heq⟩
      rw [failAll_other hother]
      exact h.results_le slot

theorem Wellformed.step {w : World} (h : Wellformed w) (op : Op) : Wellformed (w.step op) := by
  cases op with
  | register key kind => exact h.register key kind
  | dispatch pack => exact h.dispatch pack
  | removeIf key generation => exact h.removeIf key generation
  | failAll reason => exact h.failAll reason
  | setOrphanSink capacity => exact h.of_subset (fun _ _ he => he) (fun _ => rfl) rfl rfl rfl
  | take slot =>
    refine h.modifyChannel slot (fun c => { c with queue := c.queue.tail }) ?_
    intro c
    rfl
  | takeGap slot =>
    refine h.modifyChannel slot (fun c => { c with gap := false }) ?_
    intro c
    rfl
  | takeEndReason slot =>
    refine h.modifyChannel slot (fun c => { c with endReason := none }) ?_
    intro c
    rfl
  | dropReceiver slot =>
    refine h.modifyChannel slot (fun c => { c with receiverAlive := false }) ?_
    intro c
    rfl

theorem wellformed_run (connectionId : UInt64) (ops : List Op) :
    Wellformed (Runs.run World.step (World.start connectionId) ops) :=
  Runs.run_invariant Wellformed (fun _ op h => Wellformed.step h op) ops _ (wellformed_start connectionId)

/-- What the run shows for a dispatched pack: it was handed to one matching
entry, counted as unmatched, or recorded on a matching entry. -/
inductive Recorded (w w' : World) (pack : Pack) : Prop where
  | handed (key : SessionKey) (e : Entry)
      (hentry : w.entry key = some e)
      (hmatch : Matches key pack)
      (haccepted : Accepted pack (w.channels e.slot) (w'.channels e.slot))
      (hothers : ∀ slot, slot ≠ e.slot → w'.channels slot = w.channels slot)
      (hcount : w'.table.unmatched = w.table.unmatched)
  | counted
      (hothers : ∀ slot, w'.channels slot = w.channels slot)
      (hcount : w'.table.unmatched = saturatingSucc w.table.unmatched)
  | gap (key : SessionKey) (e : Entry)
      (hentry : w.entry key = some e)
      (hmatch : Matches key pack)
      (hgap : w'.channels e.slot = { w.channels e.slot with gap := true })
      (hothers : ∀ slot, slot ≠ e.slot → w'.channels slot = w.channels slot)
      (hcount : w'.table.unmatched = w.table.unmatched)
  | ended (key : SessionKey) (e : Entry)
      (hentry : w.entry key = some e)
      (hmatch : Matches key pack)
      (hreason : (w'.channels e.slot).endReason.isSome = true)
      (hqueue : (w'.channels e.slot).queue = (w.channels e.slot).queue)
      (hresults : (w'.channels e.slot).results = (w.channels e.slot).results)
      (hremoved : w'.entry key = none)
      (hothers : ∀ slot, slot ≠ e.slot → w'.channels slot = w.channels slot)
      (hcount : w'.table.unmatched = w.table.unmatched)

/-- The matching entry's consumer had dropped its receiver: the entry goes,
and with it the pack. -/
structure ReceiverGone (w w' : World) (pack : Pack) (key : SessionKey) (e : Entry) : Prop where
  hentry : w.entry key = some e
  hmatch : Matches key pack
  hgone : (w.channels e.slot).receiverAlive = false
  hremoved : w'.entry key = none
  hothers : ∀ slot, w'.channels slot = w.channels slot
  hcount : w'.table.unmatched = w.table.unmatched

theorem dispatch_recorded (h : Wellformed w) (pack : Pack) :
    Recorded w (w.dispatch pack) pack ∨
      ∃ key e, ReceiverGone w (w.dispatch pack) pack key e := by
  rcases dispatch_cases w pack with ⟨_, heq⟩ | ⟨key, e, hfind, he, heq⟩
  · left
    refine .counted ?_ ?_
    · intro slot
      rw [heq]
    · rw [heq]
  · have hmatch := (findKey_some hfind).2
    have hothers : ∀ slot, slot ≠ e.slot →
        (w.dispatch pack).channels slot = w.channels slot := by
      intro slot hslot
      rw [heq]
      exact update_of_ne hslot _ _
    have hhere : (w.dispatch pack).channels e.slot =
        (e.sink.deliver (w.channels e.slot) pack).2.1 := by
      rw [heq]
      exact update_self _ _ _
    have hcount : (w.dispatch pack).table.unmatched = w.table.unmatched := by rw [heq]
    have hremoved : (e.sink.deliver (w.channels e.slot) pack).2.2 = .finished →
        (w.dispatch pack).entry key = none := by
      intro hfinished
      rw [heq]
      simp [World.entry, hfinished]
    have hspec := deliver_spec e.sink (w.channels e.slot) pack (h.has_sender key e he)
    rw [← hhere] at hspec
    generalize hd : (e.sink.deliver (w.channels e.slot) pack).2.2 = delivery at hspec hremoved
    generalize hc : (w.dispatch pack).channels e.slot = c' at hspec
    cases hspec with
    | accepted haccepted _ =>
      left
      refine .handed key e he hmatch ?_ hothers hcount
      rw [hc]
      exact haccepted
    | gap =>
      left
      exact .gap key e he hmatch hc hothers hcount
    | ended hresults hqueue hreason =>
      left
      refine .ended key e he hmatch ?_ ?_ ?_ (hremoved rfl) hothers hcount
      · rw [hc]
        exact hreason
      · rw [hc]
        exact hqueue
      · rw [hc]
        exact hresults
    | gone hgone =>
      right
      refine ⟨key, e, he, hmatch, hgone, hremoved rfl, ?_, hcount⟩
      intro slot
      by_cases hslot : slot = e.slot
      · rw [hslot, hc]
      · exact hothers slot hslot

/-- Slots and registrations only ever grow. -/
theorem counters_le_step (w : World) (op : Op) :
    w.nextSlot ≤ (w.step op).nextSlot ∧ w.registered ≤ (w.step op).registered := by
  cases op with
  | register key kind =>
    change w.nextSlot ≤ (w.register key kind).1.nextSlot ∧
      w.registered ≤ (w.register key kind).1.registered
    rw [register_nextSlot]
    refine ⟨Nat.le_succ _, ?_⟩
    rcases register_cases w key kind with ⟨_, _, hcount, _⟩ | ⟨_, _, hcount, _⟩ <;>
      omega
  | _ => exact ⟨le_refl _, le_refl _⟩

theorem counters_le_run (ops : List Op) (w : World) :
    w.nextSlot ≤ (Runs.run World.step w ops).nextSlot ∧
      w.registered ≤ (Runs.run World.step w ops).registered := by
  refine Runs.run_relates
    (r := fun a b => a.nextSlot ≤ b.nextSlot ∧ a.registered ≤ b.registered) ?_ ?_ ?_ ops w
  · intro s
    exact ⟨le_refl _, le_refl _⟩
  · intro a b c hab hbc
    exact ⟨le_trans hab.1 hbc.1, le_trans hab.2 hbc.2⟩
  · exact counters_le_step

/-- An entry keeps its generation for as long as it is in the table. -/
def SlotHasGeneration (slot : Nat) (generation : UInt64) (w : World) : Prop :=
  slot < w.nextSlot ∧
    ∀ key e, w.entry key = some e → e.slot = slot → e.generation = generation

/-- A dispatch leaves no entry but old ones, with their slot and generation. -/
theorem dispatch_entry (h : (w.dispatch pack).entry key = some e) :
    ∃ old, w.entry key = some old ∧ old.slot = e.slot ∧ old.generation = e.generation := by
  rcases dispatch_cases w pack with ⟨_, heq⟩ | ⟨key', e', _, he', heq⟩
  · rw [heq] at h
    exact ⟨e, h, rfl, rfl⟩
  · rw [heq] at h
    unfold World.entry at h
    cases hd : (e'.sink.deliver (w.channels e'.slot) pack).2.2 with
    | kept =>
      simp only [hd] at h
      rcases lookup_insert_cases h with ⟨rfl, rfl⟩ | ⟨_, h⟩
      · exact ⟨e', he', rfl, rfl⟩
      · exact ⟨e, h, rfl, rfl⟩
    | finished =>
      simp only [hd] at h
      exact ⟨e, (lookup_erase_cases h).2, rfl, rfl⟩

variable {generation : UInt64}

theorem removeIf_entry (h : (w.removeIf key generation).entry key' = some e) :
    w.entry key' = some e ∧ ¬ (key' = key ∧ e.generation = generation) := by
  unfold World.removeIf SessionTable.removeIf at h
  rcases hlookup : w.table.entries.lookup key with _ | e'
  · simp only [hlookup] at h
    refine ⟨h, ?_⟩
    rintro ⟨rfl, _⟩
    unfold World.entry at h
    rw [hlookup] at h
    simp at h
  · simp only [hlookup] at h
    split_ifs at h with hgeneration
    · obtain ⟨hkey, he⟩ := lookup_erase_cases h
      exact ⟨he, fun hmine => hkey hmine.1⟩
    · refine ⟨h, ?_⟩
      rintro ⟨rfl, rfl⟩
      unfold World.entry at h
      rw [hlookup] at h
      cases h
      exact hgeneration rfl

theorem SlotHasGeneration.step {slot : Nat} {generation : UInt64} {w : World}
    (h : SlotHasGeneration slot generation w) (op : Op) :
    SlotHasGeneration slot generation (w.step op) := by
  refine ⟨lt_of_lt_of_le h.1 (counters_le_step w op).1, ?_⟩
  intro key e he hslot
  cases op with
  | register key' kind =>
    rcases register_entry he with he | ⟨_, _, rfl⟩
    · exact h.2 key e he hslot
    · exact absurd hslot (Nat.ne_of_gt h.1)
  | dispatch pack =>
    obtain ⟨old, hold, hsame, hgeneration⟩ := dispatch_entry he
    rw [← hgeneration]
    exact h.2 key old hold (hsame.trans hslot)
  | removeIf key' generation' => exact h.2 key e (removeIf_entry he).1 hslot
  | failAll reason =>
    change (w.failAll reason).entry key = some e at he
    simp at he
  | _ => exact h.2 key e he hslot

/-- A successful registration hands out the number of registrations so far. -/
theorem register_generation (h : Wellformed w) (hok : (w.register key kind).2 = .ok generation) :
    generation = UInt64.ofNat (w.register key kind).1.registered := by
  rcases register_cases w key kind with ⟨_, _, _, _, herror⟩ | ⟨_, _, hcount, hgeneration⟩
  · rw [herror] at hok
    cases hok
  · rw [hgeneration] at hok
    cases hok
    rw [hcount, h.generation]
    simp

/-- The slot a successful registration fills holds its generation. -/
theorem register_slotHasGeneration (h : Wellformed w)
    (hok : (w.register key kind).2 = .ok generation) :
    SlotHasGeneration w.nextSlot generation (w.register key kind).1 := by
  refine ⟨by simp, ?_⟩
  intro key' e he hslot
  rcases register_cases w key kind with ⟨_, _, _, _, herror⟩ | ⟨_, _, _, hgeneration⟩
  · rw [herror] at hok
    cases hok
  · rw [hgeneration] at hok
    cases hok
    rcases register_entry he with he | ⟨_, _, rfl⟩
    · exact absurd hslot (Nat.ne_of_lt (h.slot_lt key' e he))
    · rfl

theorem removeIf_of_generation_ne (he : w.entry key = some e) (hne : e.generation ≠ generation) :
    w.removeIf key generation = w := by
  have hlookup : w.table.entries.lookup key = some e := he
  simp [World.removeIf, SessionTable.removeIf, hlookup, hne]

theorem ofNat_eq_iff_dvd {a b : Nat} (hab : a ≤ b) :
    UInt64.ofNat a = UInt64.ofNat b ↔ 2 ^ 64 ∣ b - a := by
  rw [← UInt64.toNat_inj, UInt64.toNat_ofNat', UInt64.toNat_ofNat']
  exact Nat.modEq_iff_dvd' hab

/-- After any run, a stale removal leaves the entry a later registration put
under the same key, unless a multiple of 2^64 registrations lie between. -/
theorem stale_removeIf (h : Wellformed w) {kind' : SinkKind} {g g' : UInt64}
    {between after : List Op} (hfirst : (w.register key kind).2 = .ok g)
    (hsecond : ((Runs.run World.step (w.register key kind).1 between).register key kind').2 = .ok
      g')
    (hentry : (Runs.run World.step ((Runs.run World.step (w.register key kind).1 between).register
      key kind').1 after).entry key = some e)
    (hslot : e.slot = (Runs.run World.step (w.register key kind).1 between).nextSlot)
    (hwrap : ¬ 2 ^ 64 ∣ ((Runs.run World.step (w.register key kind).1 between).register key
      kind').1.registered - (w.register key kind).1.registered) :
    (Runs.run World.step
      ((Runs.run World.step (w.register key kind).1 between).register key kind').1 after).removeIf
        key g =
      Runs.run World.step
        ((Runs.run World.step (w.register key kind).1 between).register key kind').1 after := by
  have hmiddle : Wellformed (Runs.run World.step (w.register key kind).1 between) :=
    Runs.run_invariant Wellformed (fun _ op hw => Wellformed.step hw op) between _
      (h.register key kind)
  have hg : g = UInt64.ofNat (w.register key kind).1.registered := register_generation h hfirst
  have hg' := register_generation hmiddle hsecond
  have hgeneration : e.generation = g' :=
    (Runs.run_invariant
      (SlotHasGeneration (Runs.run World.step (w.register key kind).1 between).nextSlot g')
      (fun _ op hw => SlotHasGeneration.step hw op) after _
      (register_slotHasGeneration hmiddle hsecond)).2 key e hentry hslot
  have hle : (w.register key kind).1.registered ≤
      ((Runs.run World.step (w.register key kind).1 between).register key kind').1.registered :=
    le_trans (counters_le_run between (w.register key kind).1).2
      (counters_le_step (Runs.run World.step (w.register key kind).1 between)
        (.register key kind')).2
  refine removeIf_of_generation_ne hentry ?_
  intro heq
  rw [hgeneration, hg', hg] at heq
  exact hwrap ((ofNat_eq_iff_dvd hle).mp heq.symm)

/-- The law of the session table, over every run of its operations and of the
consumers: a dispatched pack is handed to at most one entry and then to one
that matches it; otherwise it is counted, recorded on its entry, or belonged
to a consumer that had dropped its receiver. A waiter gets at most one result,
and a removal with an old generation leaves a later entry alone. -/
theorem sessionTable_delivers_or_marks (connectionId : UInt64) (ops : List Op) :
    let w := Runs.run World.step (World.start connectionId) ops
    (∀ pack, Recorded w (w.dispatch pack) pack ∨
      ∃ key e, ReceiverGone w (w.dispatch pack) pack key e) ∧
    (∀ key key' e e', w.entry key = some e → w.entry key' = some e' →
      e.slot = e'.slot → key = key') ∧
    (∀ slot, (w.channels slot).results.length ≤ 1) ∧
    (∀ key kind kind' g g' between after e,
      let first := w.register key kind
      let middle := Runs.run World.step first.1 between
      let second := middle.register key kind'
      let last := Runs.run World.step second.1 after
      first.2 = .ok g → second.2 = .ok g' →
      last.entry key = some e → e.slot = middle.nextSlot →
      ¬ 2 ^ 64 ∣ second.1.registered - first.1.registered →
      last.removeIf key g = last) := by
  have h : Wellformed (Runs.run World.step (World.start connectionId) ops) :=
    wellformed_run connectionId ops
  refine ⟨fun pack => dispatch_recorded h pack, h.slot_inj, h.results_le, ?_⟩
  intro key kind kind' g g' between after e
  dsimp only
  intro hfirst hsecond hentry hslot hwrap
  exact stale_removeIf h hfirst hsecond hentry hslot hwrap

/-- One waiter after another under the same key: the first one's late removal
does not touch the second. -/
theorem sessionTable_delivers_or_marks_reused_key :
    let key := SessionKey.reply 0 5
    let last := Runs.run World.step (World.start 1)
      [.register key .oneshot, .removeIf key 1, .register key .oneshot]
    last.entry key = some ⟨2, 1, .oneshot .new⟩ ∧
      last.removeIf key 1 = last := by
  intro key last
  have hentry : last.entry key = some ⟨2, 1, .oneshot .new⟩ := by decide
  refine ⟨hentry, ?_⟩
  exact (sessionTable_delivers_or_marks 1 []).2.2.2 key .oneshot .oneshot 1 2
    [.removeIf key 1] [] ⟨2, 1, .oneshot .new⟩ (by decide) (by decide) hentry (by decide)
    (by decide)

theorem Accepted.ne (h : Accepted pack c c') : c' ≠ c := by
  intro heq
  cases h with
  | result =>
    have hlength := congrArg (fun c => c.results.length) heq
    simp at hlength
  | queued =>
    have hlength := congrArg (fun c => c.queue.length) heq
    simp at hlength

/-- With no channel changed and nothing counted, nothing was recorded. -/
theorem not_recorded_of_unchanged {w' : World}
    (hchannels : ∀ slot, w'.channels slot = w.channels slot)
    (hcount : w'.table.unmatched = w.table.unmatched) (hroom : w.table.unmatched < 2 ^ 64 - 1)
    (hgap : ∀ slot, (w.channels slot).gap = false)
    (hreason : ∀ slot, (w.channels slot).endReason = none) : ¬ Recorded w w' pack := by
  intro h
  cases h with
  | handed key e _ _ haccepted _ _ => exact haccepted.ne (hchannels e.slot)
  | counted _ hcounted =>
    rw [hcount, saturatingSucc] at hcounted
    omega
  | gap key e _ _ hmarked _ _ =>
    rw [hchannels] at hmarked
    have hset := congrArg Channel.gap hmarked
    simp [hgap] at hset
  | ended key e _ _ hset _ _ _ _ _ =>
    rw [hchannels, hreason] at hset
    simp at hset

/-- A round of one registration and its removal. -/
def rounds (key : SessionKey) : Nat → List Op
  | 0 => []
  | n + 1 => rounds key n ++ [.register key .oneshot, .removeIf key (UInt64.ofNat (n + 1))]

theorem removeIf_of_generation_eq (he : w.entry key = some e) :
    (w.removeIf key e.generation).table =
      { w.table with entries := w.table.entries.erase key } := by
  have hlookup : w.table.entries.lookup key = some e := he
  simp [World.removeIf, SessionTable.removeIf, hlookup]

/-- After n rounds the key is free again and n registrations were made. -/
theorem rounds_run (connectionId : UInt64) (key : SessionKey) :
    ∀ n, let w := Runs.run World.step (World.start connectionId) (rounds key n)
      key ∉ w.table.entries ∧ w.registered = n ∧ w.table.nextGeneration = UInt64.ofNat n := by
  intro n
  induction n with
  | zero => simp [rounds, World.start, SessionTable.new]
  | succ n ih =>
    obtain ⟨hfree, hcount, hgeneration⟩ := ih
    simp only [rounds, Runs.run_append, Runs.run_cons, Runs.run_nil]
    generalize Runs.run World.step (World.start connectionId) (rounds key n) = w at *
    rcases register_cases w key .oneshot with ⟨htaken, _⟩ | ⟨_, htable, hregistered, _⟩
    · exact absurd htaken hfree
    · have hnext : w.table.nextGeneration + 1 = UInt64.ofNat (n + 1) := by
        rw [hgeneration]
        simp
      have hentry : (w.register key .oneshot).1.entry key =
          some ⟨UInt64.ofNat (n + 1), w.nextSlot, .oneshot .new⟩ := by
        simp [World.entry, htable, hnext, SinkKind.sink]
      have hremoved := removeIf_of_generation_eq hentry
      refine ⟨?_, ?_, ?_⟩
      · change key ∉ ((w.register key .oneshot).1.removeIf key _).table.entries
        rw [hremoved]
        simp
      · change (w.register key .oneshot).1.registered = n + 1
        rw [hregistered, hcount]
      · change ((w.register key .oneshot).1.removeIf key _).table.nextGeneration = _
        rw [hremoved, htable]
        exact hnext

/-- Once the generations have come round, a removal with the first one takes
away the entry registered last. -/
theorem wrapped_removeIf (connectionId : UInt64) (key : SessionKey) (n : Nat)
    (hwrap : UInt64.ofNat n + 1 = 1) :
    let w := Runs.run World.step (World.start connectionId)
      (rounds key n ++ [.register key .oneshot])
    ∃ e, w.entry key = some e ∧ (w.removeIf key 1).entry key = none := by
  obtain ⟨hfree, _, hgeneration⟩ := rounds_run connectionId key n
  simp only [Runs.run_append, Runs.run_cons, Runs.run_nil]
  generalize Runs.run World.step (World.start connectionId) (rounds key n) = v at *
  rcases register_cases v key .oneshot with ⟨htaken, _⟩ | ⟨_, htable, _, _⟩
  · exact absurd htaken hfree
  · have hone : v.table.nextGeneration + 1 = 1 := by
      rw [hgeneration, hwrap]
    have hentry : (v.register key .oneshot).1.entry key =
        some ⟨1, v.nextSlot, .oneshot .new⟩ := by
      simp [World.entry, htable, SinkKind.sink, hone]
    refine ⟨_, hentry, ?_⟩
    have hremoved := removeIf_of_generation_eq hentry
    change ((v.register key .oneshot).1.removeIf key 1).table = _ at hremoved
    change ((v.register key .oneshot).1.removeIf key 1).table.entries.lookup key = none
    rw [hremoved]
    simp

/-- Without the two exceptions the law fails. A pack for a waiter that is
gone leaves no trace; and after 2^64 registrations the generation of the
first one names a later entry. -/
theorem sessionTable_loses_pack_and_wraps :
    (let w := Runs.run World.step (World.start 1)
        [.register (.reply 0 5) .oneshot, .dropReceiver 0]
      let pack : Pack := ⟨.control, control.ack, flags.isResponse, 0, 5, [], []⟩
      ¬ Recorded w (w.dispatch pack) pack) ∧
    (let key := SessionKey.reply 0 5
      let w := Runs.run World.step (World.start 1) (rounds key (2 ^ 64) ++ [.register key .oneshot])
      ∃ e, w.entry key = some e ∧ (w.removeIf key 1).entry key = none) := by
  constructor
  · intro w pack
    have hchannels : ∀ slot, (w.dispatch pack).channels slot = w.channels slot := by
      intro slot
      by_cases hslot : slot = 0
      · subst hslot
        decide
      · have hsame : (w.dispatch pack).channels =
            Function.update w.channels 0 ((w.dispatch pack).channels 0) := rfl
        rw [hsame, Function.update_of_ne hslot]
    have hfresh : ∀ slot, (w.channels slot).gap = false ∧
        (w.channels slot).endReason = none := by
      intro slot
      by_cases hslot : slot = 0
      · subst hslot
        decide
      · have hsame : w.channels = Function.update (fun _ => Channel.fresh) 0 (w.channels 0) := by
          funext s
          by_cases hs : s = 0
          · rw [hs, Function.update_self]
          · rw [Function.update_of_ne hs]
            simp [w, World.step, World.modifyChannel, World.start, Function.update_of_ne hs]
        rw [hsame, Function.update_of_ne hslot]
        exact ⟨rfl, rfl⟩
    exact not_recorded_of_unchanged hchannels (by decide) (by decide)
      (fun slot => (hfresh slot).1) (fun slot => (hfresh slot).2)
  · exact wrapped_removeIf 1 (.reply 0 5) (2 ^ 64) (by decide)

end SessionRuns
end WbfMatrixClient
