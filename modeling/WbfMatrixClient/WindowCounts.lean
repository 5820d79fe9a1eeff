import Mathlib.Data.List.Chain
import WbfMatrixClient.FetchWindows

/-!
# The counts of a fetched window

The two windows keep the same books: the items so far, the total that was announced,
and the newest count. One lemma says what a batch that passes the checks does to
them, and both windows follow it.

The numbers of items are added up to the largest number of 32 bits and not further,
so the total that is announced agrees with the number of items up to there.
-/

namespace WbfMatrixClient
namespace WindowCounts

/-- What both windows keep. -/
structure Books (α : Type) where
  items : List (UInt64 × α)
  tc : UInt32
  expectedSeq : UInt32
  sent : UInt32
  newest : Option UInt64
  finished : Bool

/-- What a batch brings. -/
structure Entry (α : Type) where
  tc : UInt32
  r : UInt32
  items : List (UInt64 × α)

def counts {α : Type} (items : List (UInt64 × α)) : List UInt64 :=
  items.map Prod.fst

section Books

variable {α : Type}

def allItems (entries : List (Entry α)) : List (UInt64 × α) :=
  entries.flatMap Entry.items

/-- The books after some batches. -/
structure Sound (entries : List (Entry α)) (books : Books α) : Prop where
  items : books.items = allItems entries
  expectedSeq : books.expectedSeq = UInt32.ofNat entries.length
  sent : books.sent.toNat = min (allItems entries).length maxU32
  increasing : (counts (allItems entries)).Pairwise (· < ·)
  newest : ∀ last ∈ (counts (allItems entries)).getLast?, ∃ newest,
    books.newest = some newest ∧ last ≤ newest
  tc : entries.length ≤ 2 ^ 32 → ∀ entry ∈ entries, entry.tc = books.tc
  lastTc : ∀ entry, entries.getLast? = some entry → entry.tc = books.tc
  finished : books.finished = (entries.getLast?.any fun entry => entry.r = 0)

/-- A batch that passed the checks: it goes on with the number of the batch and its
total, and its counts rise from the newest one on. -/
structure Follows (books : Books α) (entry : Entry α) (books' : Books α) : Prop where
  items : books'.items = books.items ++ entry.items
  expectedSeq : books'.expectedSeq = books.expectedSeq + 1
  sent : books'.sent.toNat = min (books.sent.toNat + entry.items.length) maxU32
  increasing : (counts entry.items).Pairwise (· < ·)
  above : ∀ newest ∈ books.newest, ∀ first ∈ (counts entry.items).head?, newest < first
  newest : ∀ last ∈ (counts entry.items).getLast?, ∃ newest,
    books'.newest = some newest ∧ last ≤ newest
  rising : ∀ newest ∈ books.newest, ∃ newest', books'.newest = some newest' ∧ newest ≤ newest'
  tc : books'.tc = entry.tc
  sameTc : books.expectedSeq ≠ 0 → books.tc = entry.tc
  finished : books'.finished = decide (entry.r = 0)

theorem sound_start :
    Sound [] { items := [], tc := 0, expectedSeq := 0, sent := 0, newest := none,
               finished := false : Books α } where
  items := rfl
  expectedSeq := rfl
  sent := rfl
  increasing := List.Pairwise.nil
  newest _ hlast := by cases hlast
  tc _ _ hentry := by cases hentry
  lastTc _ hentry := by cases hentry
  finished := rfl

theorem counts_append (items items' : List (UInt64 × α)) :
    counts (items ++ items') = counts items ++ counts items' := List.map_append

theorem increasing_append {old new : List UInt64} (hold : old.Pairwise (· < ·))
    (hnew : new.Pairwise (· < ·))
    (h : ∀ newest ∈ old.getLast?, ∀ first ∈ new.head?, newest < first) :
    (old ++ new).Pairwise (· < ·) := by
  rw [← List.isChain_iff_pairwise, List.isChain_append]
  exact ⟨List.isChain_iff_pairwise.mpr hold, List.isChain_iff_pairwise.mpr hnew, h⟩

theorem Sound.follows {entries : List (Entry α)} {books books' : Books α} {entry : Entry α}
    (h : Sound entries books) (hfollows : Follows books entry books') :
    Sound (entries ++ [entry]) books' := by
  have hall : allItems (entries ++ [entry]) = allItems entries ++ entry.items := by
    simp only [allItems, List.flatMap_append, List.flatMap_cons, List.flatMap_nil,
      List.append_nil]
  refine ⟨?_, ?_, ?_, ?_, ?_, ?_, ?_, ?_⟩
  · rw [hfollows.items, h.items, hall]
  · rw [hfollows.expectedSeq, h.expectedSeq, List.length_append, List.length_singleton,
      UInt32.ofNat_add]
    rfl
  · rw [hfollows.sent, h.sent, hall, List.length_append]
    omega
  · rw [hall, counts_append]
    refine increasing_append h.increasing hfollows.increasing fun last hlast first hfirst => ?_
    obtain ⟨newest, hnewest, hle⟩ := h.newest last hlast
    exact UInt64.lt_of_le_of_lt hle (hfollows.above newest hnewest first hfirst)
  · intro last hlast
    rw [hall, counts_append, List.getLast?_append] at hlast
    cases hnew : (counts entry.items).getLast? with
    | some new =>
      rw [hnew] at hlast
      cases hlast
      exact hfollows.newest last hnew
    | none =>
      rw [hnew] at hlast
      obtain ⟨newest, hnewest, hle⟩ := h.newest last hlast
      obtain ⟨newest', hnewest', hle'⟩ := hfollows.rising newest hnewest
      exact ⟨newest', hnewest', UInt64.le_trans hle hle'⟩
  · intro hlength other hother
    rw [hfollows.tc]
    rw [List.length_append, List.length_singleton] at hlength
    rcases List.mem_append.mp hother with hold | hnew
    · rw [h.tc (by omega) other hold]
      refine hfollows.sameTc fun hzero => ?_
      have hpos : 0 < entries.length := List.length_pos_of_mem hold
      have hnat := congrArg UInt32.toNat (h.expectedSeq.symm.trans hzero)
      rw [UInt32.toNat_ofNat', Nat.mod_eq_of_lt (by omega)] at hnat
      rw [UInt32.toNat_zero] at hnat
      omega
    · rw [List.mem_singleton.mp hnew]
  · intro other hother
    rw [List.getLast?_concat] at hother
    cases hother
    exact hfollows.tc.symm
  · rw [hfollows.finished, List.getLast?_concat]
    rfl

end Books

theorem parseItems_counts {α : Type} {parse : UInt64 → List UInt8 → Except SdkError α} :
    ∀ (items : List (UInt64 × List UInt8)) (parsed : List (UInt64 × α)),
      parseItems parse items = .ok parsed → counts parsed = items.map Prod.fst := by
  intro items
  induction items with
  | nil =>
    intro parsed h
    cases h
    rfl
  | cons head items ih =>
    obtain ⟨count, item⟩ := head
    intro parsed h
    rw [parseItems] at h
    cases hparse : parse count item with
    | error e =>
      rw [hparse] at h
      cases h
    | ok first =>
      rw [hparse] at h
      cases hrest : parseItems parse items with
      | error e =>
        rw [hrest] at h
        cases h
      | ok rest =>
        rw [hrest] at h
        cases h
        rw [counts, List.map_cons, List.map_cons]
        exact congrArg (List.cons count) (ih rest hrest)

/-- The counts of the items that were parsed are the first ones of the list, and there
are as many as the batch says. -/
theorem zip_counts {bc : UInt32} {counts' : List UInt64} {items : List (List UInt8)}
    {data : List UInt8} (hdata : data.length < 2 ^ 32)
    (hsplit : splitLengthPrefixed data = .ok items) (hitems : UInt32.ofNat items.length = bc)
    (hcounts : UInt32.ofNat counts'.length = bc) :
    (counts'.zip items).map Prod.fst = counts'.take bc.toNat ∧
      bc.toNat ≤ counts'.length := by
  have hlength := length_of_splitLengthPrefixed data items hsplit
  have hbc : bc.toNat = items.length := by
    rw [← hitems, UInt32.toNat_ofNat', Nat.mod_eq_of_lt (by omega)]
  have hmod : counts'.length % 2 ^ 32 = items.length := by
    rw [← hbc, ← hcounts, UInt32.toNat_ofNat']
  have hle : items.length ≤ counts'.length := by
    rw [← hmod]
    exact Nat.mod_le _ _
  rw [hbc]
  refine ⟨?_, hle⟩
  rw [List.zip_eq_zip_take_min, Nat.min_eq_right hle, List.map_fst_zip]
  rw [List.length_take, List.length_take]
  omega

section Batches

variable {packages : WindowPackages}

/-- The entry of a batch of device messages. -/
def deviceEntry (parsed : DeviceBatchMeta × List (UInt64 × Json)) : Entry Json :=
  { tc := parsed.1.tc, r := parsed.1.r, items := parsed.2 }

def inviteEntry (parsed : InviteBatchMeta × List (UInt64 × InviteItem)) : Entry InviteItem :=
  { tc := parsed.1.tc, r := parsed.1.r, items := parsed.2 }

/-- What a batch must be: its counts rise, and begin with the oldest. -/
structure BatchCounts (bc : UInt32) (oldest : Option UInt64) (counts : List UInt64) : Prop where
  length : counts.length = bc.toNat
  increasing : counts.Pairwise (· < ·)
  first : ∀ first ∈ counts.head?, oldest = some first

theorem batchCounts_take {bc : UInt32} {oldest : Option UInt64} {counts' : List UInt64}
    (hle : bc.toNat ≤ counts'.length) (hincreasing : 0 < bc → counts'.Pairwise (· < ·))
    (hfirst : 0 < bc → oldest = counts'.head?) : BatchCounts bc oldest (counts'.take bc.toNat) := by
  by_cases hbc : 0 < bc
  · refine ⟨?_, (hincreasing hbc).sublist (List.take_sublist _ _), ?_⟩
    · rw [List.length_take]
      omega
    · intro first hhead
      have hpos : bc.toNat ≠ 0 := by
        have hlt := UInt32.lt_iff_toNat_lt.mp hbc
        rw [UInt32.toNat_zero] at hlt
        omega
      rw [hfirst hbc]
      rw [List.head?_take, if_neg hpos] at hhead
      exact hhead
  · have hzero : bc.toNat = 0 := by
      have hle' := UInt32.le_iff_toNat_le.mp (UInt32.not_lt.mp hbc)
      rw [UInt32.toNat_zero] at hle'
      omega
    rw [hzero, List.take_zero]
    refine ⟨?_, List.Pairwise.nil, fun first hhead => ?_⟩
    · rw [hzero]
      rfl
    · cases hhead

theorem parseDeviceBatch_counts {batch : Pack} {found : DeviceBatchMeta}
    {items : List (UInt64 × Json)} (hdata : batch.data.length < 2 ^ 32)
    (h : parseDeviceBatch packages batch = .ok (found, items)) :
    BatchCounts found.bc (some found.ot) (counts items) := by
  rw [parseDeviceBatch] at h
  cases hmeta : parseMeta packages packages.deviceBatchMeta batch with
  | error e =>
    rw [hmeta] at h
    cases h
  | ok parsed =>
    rw [hmeta] at h
    dsimp only at h
    split_ifs at h
    cases hparsed : parseDeviceItems packages "Device/Batch" parsed.bc parsed.ot parsed.nt
        parsed.counts batch.data with
    | error e =>
      rw [hparsed] at h
      cases h
    | ok events =>
      rw [hparsed] at h
      cases h
      rw [parseDeviceItems] at hparsed
      cases hsplit : splitLengthPrefixed batch.data with
      | error e =>
        rw [hsplit] at hparsed
        cases hparsed
      | ok split =>
        rw [hsplit] at hparsed
        dsimp only at hparsed
        split_ifs at hparsed with hlengths hdisorder hends
        obtain ⟨hitems, hcounts⟩ := not_or.mp hlengths
        obtain ⟨hzip, hle⟩ := zip_counts hdata hsplit (not_not.mp hitems)
          (not_not.mp hcounts)
        rw [parseItems_counts _ _ hparsed, hzip]
        refine batchCounts_take hle (fun hbc => ?_) (fun hbc => ?_)
        · refine pairwise_of_hasDisorder (Bool.eq_false_iff.mpr fun hyes => ?_)
          exact hdisorder ⟨hbc, hyes⟩
        · by_contra hne
          exact hends ⟨hbc, .inl fun heq => hne heq.symm⟩

/-- The last of rising counts is above all of them. -/
theorem le_getLast {counts : List UInt64} {last : UInt64} (h : counts.Pairwise (· < ·))
    (hlast : counts.getLast? = some last) : ∀ count ∈ counts, count ≤ last := by
  obtain ⟨front, rfl⟩ := List.getLast?_eq_some_iff.mp hlast
  intro count hcount
  rcases List.mem_append.mp hcount with hfront | hend
  · exact UInt64.le_of_lt ((List.pairwise_append.mp h).2.2 count hfront last
      (List.mem_singleton_self last))
  · rw [List.mem_singleton.mp hend]
    exact UInt64.le_refl last

theorem endsMatch_cases {counts : List UInt64} {os ns : Option UInt64}
    (h : endsMatch counts os ns = true) : os = counts.head? ∧ ns = counts.getLast? := by
  rw [endsMatch] at h
  split at h
  · rename_i first last hfirst hlast
    rw [hfirst, hlast]
    exact of_decide_eq_true h
  · rename_i hnone
    obtain ⟨hos, hns⟩ := of_decide_eq_true h
    have hempty : counts = [] := by
      by_contra hne
      exact hnone _ _ (List.head?_eq_some_head hne) (List.getLast?_eq_some_getLast hne)
    rw [hempty]
    exact ⟨Option.isNone_iff_eq_none.mp hos, Option.isNone_iff_eq_none.mp hns⟩

theorem parseInviteBatch_counts {batch : Pack} {found : InviteBatchMeta}
    {items : List (UInt64 × InviteItem)} (hdata : batch.data.length < 2 ^ 32)
    (h : parseInviteBatch packages batch = .ok (found, items)) :
    BatchCounts found.bc found.os (counts items) ∧ found.counts.Pairwise (· < ·) ∧
      found.os = found.counts.head? ∧ found.ns = found.counts.getLast? ∧
        ∀ count ∈ counts items, count ∈ found.counts := by
  rw [parseInviteBatch] at h
  cases hmeta : parseMeta packages packages.inviteBatchMeta batch with
  | error e =>
    rw [hmeta] at h
    cases h
  | ok parsed =>
    rw [hmeta] at h
    cases hsplit : splitLengthPrefixed batch.data with
    | error e =>
      rw [hsplit] at h
      dsimp only at h
      split_ifs at h
    | ok split =>
      rw [hsplit] at h
      dsimp only at h
      split_ifs at h with _ hlengths hdisorder hends
      cases hparsed : parseItems (parseInviteEntry packages) (parsed.counts.zip split) with
      | error e =>
        rw [hparsed] at h
        cases h
      | ok entries =>
        rw [hparsed] at h
        cases h
        obtain ⟨hitems, hcounts⟩ := not_or.mp hlengths
        obtain ⟨hzip, hle⟩ := zip_counts hdata hsplit (not_not.mp hitems)
          (not_not.mp hcounts)
        have hincreasing := pairwise_of_hasDisorder (Bool.eq_false_iff.mpr hdisorder)
        obtain ⟨hos, hns⟩ := endsMatch_cases (by simpa using hends)
        rw [parseItems_counts _ _ hparsed, hzip]
        exact ⟨batchCounts_take hle (fun _ => hincreasing) (fun _ => hos), hincreasing, hos,
          hns, fun count hcount => List.mem_of_mem_take hcount⟩

end Batches

section Packs

variable {packages : WindowPackages} {request pack : Pack}

def deviceBooks (s : DeviceFetch) : Books Json :=
  { items := s.window.items, tc := s.window.tc, expectedSeq := s.expectedSeq, sent := s.sent,
    newest := s.window.nt, finished := s.finished }

def inviteBooks (s : InviteFetch) : Books InviteItem :=
  { items := s.round.items, tc := s.round.tc, expectedSeq := s.expectedSeq, sent := s.received,
    newest := s.newest, finished := s.finished }

theorem getLast_counts {α : Type} (items : List (UInt64 × α)) :
    items.getLast?.map Prod.fst = (counts items).getLast? := by rw [counts, List.getLast?_map]

/-- The newest count does not fall. -/
theorem rising_of_above {counts : List UInt64} {newest : Option UInt64}
    (hincreasing : counts.Pairwise (· < ·))
    (habove : ∀ before ∈ newest, ∀ first ∈ counts.head?, before < first) :
    ∀ before ∈ newest, ∃ after, counts.getLast?.or newest = some after ∧ before ≤ after := by
  intro before hbefore
  cases counts with
  | nil => exact ⟨before, hbefore, UInt64.le_refl before⟩
  | cons first rest =>
    have hlast := List.getLast?_eq_some_getLast (List.cons_ne_nil first rest)
    refine ⟨(first :: rest).getLast (List.cons_ne_nil first rest), ?_, ?_⟩
    · rw [hlast]
      rfl
    · exact UInt64.le_trans (UInt64.le_of_lt (habove before hbefore first rfl))
        (le_getLast hincreasing hlast first List.mem_cons_self)

theorem onDevicePack_ok {s s' : DeviceFetch} {more : Bool} (hdata : pack.data.length < 2 ^ 32)
    (h : onDevicePack packages request s pack = .ok (s', more)) :
    pack.seq = s.expectedSeq ∧ ∃ parsed, parseDeviceBatch packages pack = .ok parsed ∧
      Follows (deviceBooks s) (deviceEntry parsed) (deviceBooks s') ∧
        s'.window.tc = saturatingAdd s'.sent parsed.1.r := by
  rw [onDevicePack] at h
  cases hexpect : expectDeviceBatch packages request pack s.expectedSeq with
  | error e =>
    rw [hexpect] at h
    cases h
  | ok batch =>
    obtain ⟨rfl, hseq, _⟩ := expectReply_seq hexpect
    rw [hexpect] at h
    dsimp only at h
    cases hparse : parseDeviceBatch packages batch with
    | error e =>
      rw [hparse] at h
      cases h
    | ok parsed =>
      obtain ⟨found, items⟩ := parsed
      have hcounts := parseDeviceBatch_counts hdata hparse
      have hbc : found.bc.toNat = items.length := by
        rw [← hcounts.length, counts, List.length_map]
      rw [hparse] at h
      dsimp only at h
      generalize htotal : (if s.expectedSeq = 0 then found.tc else s.window.tc) = total at h
      split_ifs at h with htc hsum horder
      cases h
      have hsame : found.tc = total := not_not.mp htc
      have hend : (items.getLast?.map Prod.fst).or s.window.nt =
          (counts items).getLast?.or s.window.nt := by
        rw [getLast_counts]
      have habove : ∀ newest ∈ s.window.nt, ∀ first ∈ (counts items).head?,
          newest < first := by
        intro newest hnewest first hfirst
        have hot := hcounts.first first hfirst
        cases hot
        have hne : items ≠ [] := by
          rintro rfl
          cases hfirst
        by_contra hle
        refine horder ⟨hne, ?_⟩
        rw [Option.any_eq_true]
        exact ⟨newest, hnewest, decide_eq_true (UInt64.not_lt.mp hle)⟩
      refine ⟨hseq, (found, items), rfl, ⟨rfl, rfl, ?_, hcounts.increasing, habove, ?_, ?_,
        hsame.symm, ?_, rfl⟩, not_not.mp hsum⟩
      · rw [deviceEntry, ← hbc]
        exact toNat_saturatingAdd s.sent found.bc
      · intro last hlast
        refine ⟨last, hend.trans ?_, UInt64.le_refl last⟩
        rw [show (counts items).getLast? = some last from hlast]
        rfl
      · intro newest hnewest
        obtain ⟨after, hafter, hle⟩ := rising_of_above hcounts.increasing habove newest hnewest
        exact ⟨after, hend.trans hafter, hle⟩
      · intro hnonzero
        rw [if_neg (show s.expectedSeq ≠ 0 from hnonzero)] at htotal
        exact htotal.trans hsame.symm

theorem onInvitePack_ok {s s' : InviteFetch} {more : Bool} (hdata : pack.data.length < 2 ^ 32)
    (h : onInvitePack packages request s pack = .ok (s', more)) :
    pack.seq = s.expectedSeq ∧ ∃ parsed, parseInviteBatch packages pack = .ok parsed ∧
      Follows (inviteBooks s) (inviteEntry parsed) (inviteBooks s') ∧
        saturatingAdd s'.received parsed.1.r ≤ s'.round.tc := by
  rw [onInvitePack] at h
  cases hexpect : expectInviteBatch packages request pack s.expectedSeq with
  | error e =>
    rw [hexpect] at h
    cases h
  | ok batch =>
    obtain ⟨rfl, hseq, _⟩ := expectReply_seq hexpect
    rw [hexpect] at h
    dsimp only at h
    cases hparse : parseInviteBatch packages batch with
    | error e =>
      rw [hparse] at h
      cases h
    | ok parsed =>
      obtain ⟨found, items⟩ := parsed
      obtain ⟨hcounts, hincreasing, hos, hns, hmem⟩ := parseInviteBatch_counts hdata hparse
      have hbc : found.bc.toNat = items.length := by
        rw [← hcounts.length, counts, List.length_map]
      rw [hparse] at h
      dsimp only at h
      generalize htotal : (if s.expectedSeq = 0 then found.tc else s.round.tc) = total at h
      split_ifs at h with htc hsum hr horder
      cases h
      have hsame : found.tc = total := not_not.mp htc
      have hboth : found.os.isSome → found.ns.isSome := by
        intro hsome
        rw [hos, List.isSome_head?] at hsome
        rw [hns, List.getLast?_isSome]
        exact hsome
      have hfirstAbove : ∀ newest ∈ s.newest, ∀ first ∈ found.counts.head?,
          newest < first := by
        intro newest hnewest first hfirst
        rw [← hos] at hfirst
        by_contra hle
        refine horder ((Option.any_eq_true _ _).mpr ⟨first, hfirst, decide_eq_true ?_⟩)
        refine ⟨hboth (by rw [hfirst]; rfl), (Option.any_eq_true _ _).mpr ⟨newest, hnewest, ?_⟩⟩
        exact decide_eq_true (UInt64.not_lt.mp hle)
      have hend : (found.os.bind fun _ => found.ns).or s.newest =
          found.counts.getLast?.or s.newest := by
        rw [← hns]
        cases hnone : found.os with
        | some os => rfl
        | none =>
          have hempty : found.counts = [] := by
            rw [hos] at hnone
            exact List.head?_eq_none_iff.mp hnone
          rw [hns, hempty]
          rfl
      refine ⟨hseq, (found, items), rfl, ⟨rfl, rfl, ?_, hcounts.increasing, ?_, ?_, ?_,
        hsame.symm, ?_, rfl⟩, UInt32.not_lt.mp hsum⟩
      · rw [inviteEntry, ← hbc]
        exact toNat_saturatingAdd s.received found.bc
      · intro newest hnewest first hfirst
        refine hfirstAbove newest hnewest first ?_
        rw [← hos]
        exact hcounts.first first hfirst
      · intro last hlast
        have hlastMem : last ∈ found.counts := hmem last (List.mem_of_getLast? hlast)
        have hne : found.counts ≠ [] := List.ne_nil_of_mem hlastMem
        have hnewest := List.getLast?_eq_some_getLast hne
        refine ⟨found.counts.getLast hne, hend.trans ?_, le_getLast hincreasing hnewest last
          hlastMem⟩
        rw [hnewest]
        rfl
      · intro newest hnewest
        obtain ⟨after, hafter, hle⟩ := rising_of_above hincreasing hfirstAbove newest hnewest
        exact ⟨after, hend.trans hafter, hle⟩
      · intro hnonzero
        rw [if_neg (show s.expectedSeq ≠ 0 from hnonzero)] at htotal
        exact htotal.trans hsame.symm

end Packs

/-- The items of a window are those of the batches it took: these are numbered from
zero on, their counts rise from the first item of the first batch to the last one of
the last batch, and the last batch announces nothing more. As long as the numbers of
the batches do not wrap around, all of them announce one total. -/
structure Fetched {α β : Type} (parse : Pack → Except SdkError β) (entry : β → Entry α)
    (packs : List Pack) (tc : UInt32) (items : List (UInt64 × α)) (taken : List Pack)
    (batches : List β) : Prop where
  first : taken <+: packs
  parsed : List.Forall₂ (fun pack batch => parse pack = .ok batch) taken batches
  numbered : taken.map Pack.seq = (List.range taken.length).map UInt32.ofNat
  all : items = allItems (batches.map entry)
  increasing : (counts items).Pairwise (· < ·)
  ended : ∃ last, batches.getLast? = some last ∧ (entry last).r = 0 ∧ (entry last).tc = tc
  total : taken.length ≤ 2 ^ 32 → ∀ batch ∈ batches, (entry batch).tc = tc

section Streams

variable {σ α β : Type}

theorem fetched_of_stream {onPack : σ → Pack → Except SdkError (σ × Bool)} (books : σ → Books α)
    {parse : Pack → Except SdkError β} {entry : β → Entry α} (total : σ → β → Prop)
    {ending : Except SdkError Unit} {packs : List Pack} {start s : σ}
    (hok : ∀ s pack s' more, pack.data.length < 2 ^ 32 → onPack s pack = .ok (s', more) → pack.seq =
      (books s).expectedSeq ∧ ∃ parsed, parse pack = .ok parsed ∧ Follows (books s) (entry parsed)
      (books s') ∧ total s' parsed) (hdata : ∀ pack ∈ packs, pack.data.length < 2 ^ 32)
    (hstart : Sound [] (books start)) (h : requestStream onPack ending packs start = .ok s)
    (hfinished : (books s).finished = true) :
    ∃ taken batches last, Fetched parse entry packs (books s).tc (books s).items taken batches ∧
      (books s).sent.toNat = min (books s).items.length maxU32 ∧ total s last ∧
        (entry last).r = 0 := by
  obtain ⟨taken, rest, rfl, batches, hparsed, hsound, hnumbered, htotal⟩ := requestStream_ok
    (fun taken s => ∃ batches, List.Forall₂ (fun pack batch => parse pack = .ok batch) taken batches ∧
      Sound (batches.map entry) (books s) ∧
      taken.map Pack.seq = (List.range taken.length).map UInt32.ofNat ∧
      ∀ last, batches.getLast? = some last → total s last)
    (fun taken s pack s' more hpack hbefore hone => by
      obtain ⟨batches, hparsed, hsound, hnumbered, _⟩ := hbefore
      obtain ⟨hseq, parsed, hparse, hfollows, htotal⟩ := hok s pack s' more (hdata pack hpack) hone
      refine ⟨batches ++ [parsed], List.rel_append hparsed (.cons hparse .nil), ?_, ?_, ?_⟩
      · rw [List.map_append]
        exact hsound.follows hfollows
      · rw [List.map_append, hnumbered, List.length_append, List.length_singleton,
          List.range_succ, List.map_append, List.map_singleton, List.map_singleton, hseq,
          hsound.expectedSeq, List.length_map, hparsed.length_eq]
      · intro last hlast
        rw [List.getLast?_concat] at hlast
        cases hlast
        exact htotal)
    packs [] start s (fun _ hpack => hpack)
    ⟨[], .nil, hstart, rfl, fun last hlast => (by cases hlast)⟩ h
  rw [List.nil_append] at hparsed hnumbered
  rw [hsound.finished] at hfinished
  obtain ⟨lastEntry, hlastEntry, hzero⟩ := (Option.any_eq_true _ _).mp hfinished
  rw [List.getLast?_map] at hlastEntry
  obtain ⟨last, hlast, rfl⟩ := Option.map_eq_some_iff.mp hlastEntry
  refine ⟨taken, batches, last, ⟨List.prefix_append taken rest, hparsed, hnumbered, hsound.items,
    ?_, ⟨last, hlast, of_decide_eq_true hzero, ?_⟩, ?_⟩, ?_, htotal last hlast,
    of_decide_eq_true hzero⟩
  · rw [hsound.items]
    exact hsound.increasing
  · refine hsound.lastTc (entry last) ?_
    rw [List.getLast?_map, hlast]
    rfl
  · intro hlength batch hbatch
    refine hsound.tc ?_ (entry batch) (List.mem_map_of_mem hbatch)
    rw [List.length_map, ← hparsed.length_eq]
    exact hlength
  · rw [hsound.sent, hsound.items]

end Streams

/-- What came over the wire has less than 2^32 bytes of data. -/
theorem data_length_of_decode {crc32c : List UInt8 → UInt32} {frame : List UInt8} {pack : Pack}
    (h : Pack.decode crc32c frame = .ok pack) :
    pack.data.length < 2 ^ 32 := (Pack.encode_eq_ok_iff.mp (Pack.encode_of_decode h)).2.2.1

/-- A window that is fetched well is put together from the batches it took, and the
total they announced agrees with the number of its items, both counted up to the
largest number of 32 bits: for the device window it is this number, for a round of
invitations at least this number. -/
theorem windows_agree (packages : WindowPackages) (crc32c : List UInt8 → UInt32) (request : Pack)
    (ending : Except SdkError Unit) (packs : List Pack)
    (hwire : ∀ pack ∈ packs, ∃ frame, Pack.decode crc32c frame = .ok pack) :
    (∀ window, deviceFetchWindow packages request ending packs = .ok window →
      (∃ taken batches, Fetched (parseDeviceBatch packages) deviceEntry packs window.tc
        window.items taken batches) ∧
      window.tc.toNat = min window.items.length maxU32) ∧
    ∀ round, inviteFetchRound packages request ending packs = .ok round →
      (∃ taken batches, Fetched (parseInviteBatch packages) inviteEntry packs round.tc
        round.items taken batches) ∧
      min round.items.length maxU32 ≤ round.tc.toNat := by
  have hdata : ∀ pack ∈ packs, pack.data.length < 2 ^ 32 := by
    intro pack hpack
    obtain ⟨frame, hframe⟩ := hwire pack hpack
    exact data_length_of_decode hframe
  constructor
  · intro window h
    rw [deviceFetchWindow] at h
    cases hstream : requestStream (onDevicePack packages request) ending packs .start with
    | error e =>
        rw [hstream] at h
        cases h
    | ok s =>
        rw [hstream] at h
        dsimp only at h
        split_ifs at h with hfinished
        cases h
        obtain ⟨taken, batches, last, hfetched, hsent, htotal, hzero⟩ :=
          fetched_of_stream deviceBooks
            (fun (s : DeviceFetch) (parsed : DeviceBatchMeta × List (UInt64 × Json)) =>
              s.window.tc = saturatingAdd s.sent parsed.1.r)
            (fun s pack s' more hpack hone => onDevicePack_ok hpack hone) hdata sound_start
            hstream hfinished
        refine ⟨⟨taken, batches, hfetched⟩, ?_⟩
        rw [htotal, toNat_saturatingAdd, show last.1.r = 0 from hzero, UInt32.toNat_zero,
          show s.sent.toNat = min s.window.items.length maxU32 from hsent]
        omega
  · intro round h
    rw [inviteFetchRound] at h
    cases hstream : requestStream (onInvitePack packages request) ending packs .start with
    | error e =>
        rw [hstream] at h
        cases h
    | ok s =>
        rw [hstream] at h
        dsimp only at h
        split_ifs at h with hfinished
        cases h
        obtain ⟨taken, batches, last, hfetched, hsent, htotal, hzero⟩ :=
          fetched_of_stream inviteBooks
            (fun (s : InviteFetch) (parsed : InviteBatchMeta × List (UInt64 × InviteItem)) =>
              saturatingAdd s.received parsed.1.r ≤ s.round.tc)
            (fun s pack s' more hpack hone => onInvitePack_ok hpack hone) hdata sound_start
            hstream hfinished
        refine ⟨⟨taken, batches, hfetched⟩, ?_⟩
        have hle := UInt32.le_iff_toNat_le.mp htotal
        rw [toNat_saturatingAdd, show last.1.r = 0 from hzero, UInt32.toNat_zero,
          show s.received.toNat = min s.round.items.length maxU32 from hsent] at hle
        omega

def examplePackages : WindowPackages where
  value _ := .ok (.object [])
  deviceBatchMeta _ :=
    .ok { tc := 1, bc := 1, ot := 5, nt := 5, counts := [5], r := 0, more := false }
  inviteBatchMeta _ := .error ""
  inviteEntry _ := .error ""
  lossy _ := ""

def exampleRequest : Pack :=
  { kind := .device, subtype := device.fetch, flags := 0, id := 1, seq := 0, «meta» := [],
    data := [] }

/-- A batch with one message, an empty object. -/
def exampleBatch : Pack :=
  { kind := .device, subtype := device.batch, flags := flags.isResponse, id := 1, seq := 0,
    «meta» := [], data := [0, 0, 0, 2, 0x7b, 0x7d] }

theorem windows_agree_one_message :
    ∃ window, deviceFetchWindow examplePackages exampleRequest (.ok ()) [exampleBatch] =
        .ok window ∧
      window.tc.toNat = min window.items.length maxU32 := by
  have hwire : ∀ pack ∈ [exampleBatch], ∃ frame, Pack.decode (fun _ => 0) frame = .ok pack := by
    intro pack hpack
    rw [List.mem_singleton.mp hpack]
    exact ⟨_, Pack.decode_of_encode rfl⟩
  have hfetch : deviceFetchWindow examplePackages exampleRequest (.ok ()) [exampleBatch] =
      .ok { items := [(5, .object [])], tc := 1, nt := some 5, more := false } := by
    have hsplit : splitLengthPrefixed exampleBatch.data = .ok [[0x7b, 0x7d]] :=
      splitLengthPrefixed_join [[0x7b, 0x7d]] (by decide)
    have hparse : parseDeviceBatch examplePackages exampleBatch =
        .ok ({ tc := 1, bc := 1, ot := 5, nt := 5, counts := [5], r := 0, more := false },
          [(5, .object [])]) := by
      have hmeta : parseMeta examplePackages examplePackages.deviceBatchMeta exampleBatch =
          .ok { tc := 1, bc := 1, ot := 5, nt := 5, counts := [5], r := 0, more := false } := rfl
      rw [parseDeviceBatch, hmeta]
      dsimp only
      rw [if_neg (by decide), parseDeviceItems, hsplit]
      rfl
    have hexpect : expectDeviceBatch examplePackages exampleRequest exampleBatch 0 =
        .ok exampleBatch := by decide
    rw [deviceFetchWindow, requestStream, onDevicePack]
    simp only [DeviceFetch.start, hexpect, hparse]
    rfl
  exact ⟨_, hfetch, ((windows_agree examplePackages (fun _ => 0) exampleRequest (.ok ())
    [exampleBatch] hwire).1 _ hfetch).2⟩

section Overflow

/-- The bytes of an empty object. -/
def emptyObject : List UInt8 := [0x7b, 0x7d]

/-- A window of the largest total, whose batches have the same number of items each.
The meta section of a batch is its number. -/
def overflowMeta (size k : Nat) : DeviceBatchMeta :=
  { tc := UInt32.ofNat maxU32
    bc := UInt32.ofNat size
    ot := UInt64.ofNat (k * size)
    nt := UInt64.ofNat (k * size + (size - 1))
    counts := (List.range size).map fun i => UInt64.ofNat (k * size + i)
    r := UInt32.ofNat (maxU32 - (k + 1) * size)
    more := false }

def overflowPackages (size : Nat) : WindowPackages where
  value _ := .ok (.object [])
  deviceBatchMeta bytes := .ok (overflowMeta size (Bytes.ofBigEndian bytes))
  inviteBatchMeta _ := .error ""
  inviteEntry _ := .error ""
  lossy _ := ""

def overflowPack (size k : Nat) : Pack :=
  { kind := .device, subtype := device.batch, flags := flags.isResponse, id := 1,
    seq := UInt32.ofNat k, «meta» := Bytes.toBigEndian 4 k,
    data := joinLengthPrefixed (List.replicate size emptyObject) }

def overflowRequest : Pack :=
  { kind := .device, subtype := device.fetch, flags := 0, id := 1, seq := 0, «meta» := [],
    data := [] }

theorem parseItems_of_forall {α : Type} {parse : UInt64 → List UInt8 → Except SdkError α}
    {parsed : α} (h : ∀ count item, parse count item = .ok parsed)
    (items : List (UInt64 × List UInt8)) :
    parseItems parse items = .ok (items.map fun item => (item.1, parsed)) := by
  induction items with
  | nil => rfl
  | cons head items ih =>
    obtain ⟨count, item⟩ := head
    rw [parseItems, h count item, ih]
    rfl

variable {size k : Nat}

theorem toNat_overflowCount (hk : (k + 1) * size ≤ 2 ^ 32) {i : Nat} (hi : i < size) :
    (UInt64.ofNat (k * size + i)).toNat = k * size + i := by
  rw [Nat.succ_mul] at hk
  rw [UInt64.toNat_ofNat', Nat.mod_eq_of_lt (by omega)]

theorem parse_overflowPack (hsize : 0 < size) (hlt : size < 2 ^ 32) (hk : (k + 1) * size ≤ 2 ^ 32) :
    ∃ items, parseDeviceBatch (overflowPackages size) (overflowPack size k) =
        .ok (overflowMeta size k, items) ∧
      items.length = size ∧ counts items = (overflowMeta size k).counts := by
  have hkNat : k < 256 ^ 4 := by
    have hle : k + 1 ≤ (k + 1) * size := Nat.le_mul_of_pos_right _ hsize
    omega
  have hmeta : parseMeta (overflowPackages size) (overflowPackages size).deviceBatchMeta
      (overflowPack size k) = .ok (overflowMeta size k) := by
    simp only [parseMeta, overflowPackages, overflowPack,
      Bytes.ofBigEndian_toBigEndian hkNat]
  have hsplit : splitLengthPrefixed (overflowPack size k).data =
      .ok (List.replicate size emptyObject) := by
    refine splitLengthPrefixed_join _ fun item hitem => ?_
    rw [List.eq_of_mem_replicate hitem]
    decide
  have hcounts : (overflowMeta size k).counts.length = size := by
    simp only [overflowMeta, List.length_map, List.length_range]
  have hincreasing : (overflowMeta size k).counts.Pairwise (· < ·) := by
    simp only [overflowMeta, List.pairwise_map]
    refine List.Pairwise.imp_of_mem ?_ List.pairwise_lt_range
    intro i j hi hj hij
    rw [UInt64.lt_iff_toNat_lt, toNat_overflowCount hk (List.mem_range.mp hi),
      toNat_overflowCount hk (List.mem_range.mp hj)]
    omega
  have hhead : (overflowMeta size k).counts.head? = some (overflowMeta size k).ot := by
    obtain ⟨less, rfl⟩ := Nat.exists_eq_succ_of_ne_zero (Nat.pos_iff_ne_zero.mp hsize)
    simp only [overflowMeta, List.range_succ_eq_map, List.map_cons, List.head?_cons, Nat.add_zero]
  have hlast : (overflowMeta size k).counts.getLast? = some (overflowMeta size k).nt := by
    obtain ⟨less, rfl⟩ := Nat.exists_eq_succ_of_ne_zero (Nat.pos_iff_ne_zero.mp hsize)
    simp only [overflowMeta, List.range_succ, List.map_append, List.map_cons, List.map_nil,
      List.getLast?_concat, Nat.succ_sub_one]
  have hbc : (overflowMeta size k).bc = UInt32.ofNat size := rfl
  have hitem : ∀ count item,
      parseDeviceItem (overflowPackages size) count item = .ok (.object []) := fun _ _ => rfl
  have hitems := parseItems_of_forall hitem
    ((overflowMeta size k).counts.zip (List.replicate size emptyObject))
  refine ⟨((overflowMeta size k).counts.zip (List.replicate size emptyObject)).map
    fun item => (item.1, .object []), ?_, ?_, ?_⟩
  · rw [parseDeviceBatch, hmeta]
    dsimp only
    rw [if_neg, parseDeviceItems, hsplit]
    · dsimp only
      rw [if_neg, if_neg, if_neg, hitems]
      · rfl
      · rintro ⟨_, h | h⟩
        · exact h hhead
        · exact h hlast
      · rw [hasDisorder_of_pairwise hincreasing]
        rintro ⟨_, h⟩
        cases h
      · rw [List.length_replicate, hcounts, hbc]
        simp
    · rw [UInt32.not_lt, UInt32.le_iff_toNat_le, toNat_saturatingAdd]
      exact Nat.min_le_right _ _
  · rw [List.length_map, List.length_zip, hcounts, List.length_replicate, Nat.min_self]
  · rw [counts, List.map_map]
    exact (List.map_fst_zip (by rw [hcounts, List.length_replicate]))

/-- The state after some of these batches. -/
structure Overflowing (size k : Nat) (s : DeviceFetch) : Prop where
  expectedSeq : s.expectedSeq = UInt32.ofNat k
  sent : s.sent.toNat = min (k * size) maxU32
  tc : k = 0 ∨ s.window.tc = UInt32.ofNat maxU32
  nt : ∀ newest ∈ s.window.nt, newest.toNat < k * size
  items : s.window.items.length = k * size

theorem Overflowing.step {s : DeviceFetch} (h : Overflowing size k s) (hsize : 0 < size)
    (hlt : size < 2 ^ 32) (hk : (k + 1) * size ≤ 2 ^ 32) :
    ∃ s', onDevicePack (overflowPackages size) overflowRequest s (overflowPack size k) =
        .ok (s', decide (0 < (overflowMeta size k).r)) ∧
      s'.finished = decide ((overflowMeta size k).r = 0) ∧
      s'.window.tc = UInt32.ofNat maxU32 ∧ Overflowing size (k + 1) s' := by
  obtain ⟨items, hparse, hlength, hcounts⟩ := parse_overflowPack hsize hlt hk
  have hkLt : k < 2 ^ 32 := by
    have hle : k + 1 ≤ (k + 1) * size := Nat.le_mul_of_pos_right _ hsize
    omega
  have hmul : (k + 1) * size = k * size + size := Nat.succ_mul k size
  have hexpect : expectDeviceBatch (overflowPackages size) overflowRequest (overflowPack size k)
      s.expectedSeq = .ok (overflowPack size k) := by
    rw [h.expectedSeq]
    simp [expectDeviceBatch, expectReply, deviceBatchForm, overflowPack, overflowRequest,
      flags.isResponse]
  have htotal : (if s.expectedSeq = 0 then (overflowMeta size k).tc else s.window.tc) =
      UInt32.ofNat maxU32 := by
    split_ifs with hzero
    · rfl
    · rcases h.tc with rfl | htc
      · exact absurd h.expectedSeq hzero
      · exact htc
  have hbc : (overflowMeta size k).bc.toNat = size := by
    rw [overflowMeta, UInt32.toNat_ofNat', Nat.mod_eq_of_lt hlt]
  have hr : (overflowMeta size k).r.toNat = maxU32 - (k + 1) * size := by
    have hmax : maxU32 < 2 ^ 32 := by decide
    rw [overflowMeta, UInt32.toNat_ofNat', Nat.mod_eq_of_lt (by omega)]
  have hsent : (saturatingAdd s.sent (overflowMeta size k).bc).toNat =
      min ((k + 1) * size) maxU32 := by
    rw [toNat_saturatingAdd, h.sent, hbc]
    omega
  have hsum : UInt32.ofNat maxU32 =
      saturatingAdd (saturatingAdd s.sent (overflowMeta size k).bc) (overflowMeta size k).r := by
    apply UInt32.toNat_inj.mp
    have hmax : maxU32 < 2 ^ 32 := by decide
    rw [toNat_saturatingAdd, hsent, hr, UInt32.toNat_ofNat', Nat.mod_eq_of_lt hmax]
    omega
  have hot : (overflowMeta size k).ot.toNat = k * size := by
    have hcount := toNat_overflowCount hk hsize
    rw [Nat.add_zero] at hcount
    exact hcount
  have hlast : ∀ last ∈ items.getLast?.map Prod.fst, last.toNat < (k + 1) * size := by
    intro last hlast
    rw [getLast_counts, hcounts] at hlast
    have hmem := List.mem_of_getLast? hlast
    simp only [overflowMeta, List.mem_map, List.mem_range] at hmem
    obtain ⟨i, hi, rfl⟩ := hmem
    rw [toNat_overflowCount hk hi]
    omega
  have horder : ¬(items ≠ [] ∧
      s.window.nt.any fun previous => (overflowMeta size k).ot ≤ previous) := by
    rintro ⟨_, hany⟩
    obtain ⟨newest, hnewest, hle⟩ := (Option.any_eq_true _ _).mp hany
    have hbelow := h.nt newest hnewest
    have hle' := UInt64.le_iff_toNat_le.mp (of_decide_eq_true hle)
    omega
  refine ⟨{
    window := { items := s.window.items ++ items
                tc := UInt32.ofNat maxU32
                nt := (items.getLast?.map Prod.fst).or s.window.nt
                more := (overflowMeta size k).more }
    expectedSeq := s.expectedSeq + 1
    sent := saturatingAdd s.sent (overflowMeta size k).bc
    finished := (overflowMeta size k).r = 0 }, ?_, rfl, rfl, ?_⟩
  · rw [onDevicePack, hexpect]
    dsimp only
    rw [hparse]
    dsimp only
    rw [htotal, if_neg (not_not.mpr (show (overflowMeta size k).tc = UInt32.ofNat maxU32 from rfl)),
      if_neg (not_not.mpr hsum), if_neg horder]
  · refine ⟨?_, hsent, .inr rfl, ?_, ?_⟩
    · rw [h.expectedSeq, UInt32.ofNat_add]
      rfl
    · intro newest hnewest
      cases hend : items.getLast?.map Prod.fst with
      | some last =>
        rw [hend] at hnewest
        cases hnewest
        exact hlast newest hend
      | none =>
        rw [hend] at hnewest
        have hbelow := h.nt newest hnewest
        omega
    · rw [List.length_append, h.items, hlength, hmul]

theorem Overflowing.run {n : Nat} (hsize : 1 < size) (hlt : size < 2 ^ 32)
    (hn : n * size = 2 ^ 32) :
    ∀ (left k : Nat) (s : DeviceFetch), k + left = n → 0 < left → Overflowing size k s →
      ∃ s', requestStream (onDevicePack (overflowPackages size) overflowRequest) (.ok ())
          ((List.range' k left).map (overflowPack size)) s = .ok s' ∧
        s'.finished = true ∧ s'.window.tc = UInt32.ofNat maxU32 ∧
        s'.window.items.length = n * size := by
  intro left
  induction left with
  | zero =>
    intro k s _ hpos
    exact absurd hpos (Nat.lt_irrefl 0)
  | succ left ih =>
    intro k s hleft _ h
    have hk : (k + 1) * size ≤ n * size := Nat.mul_le_mul_right size (by omega)
    obtain ⟨s', hone, hfinished, htc, hnext⟩ := h.step (by omega) hlt (by omega)
    have hmax : maxU32 = 2 ^ 32 - 1 := rfl
    have hr : (overflowMeta size k).r.toNat = maxU32 - (k + 1) * size := by
      rw [overflowMeta, UInt32.toNat_ofNat', Nat.mod_eq_of_lt (by omega)]
    rw [List.range'_succ, List.map_cons, requestStream, hone]
    cases left with
    | zero =>
      -- The last batch announces nothing more.
      have hlast : k + 1 = n := by omega
      have hzero : (overflowMeta size k).r = 0 := by
        apply UInt32.toNat_inj.mp
        rw [hr, UInt32.toNat_zero, hlast]
        omega
      rw [hzero] at hfinished ⊢
      refine ⟨s', rfl, hfinished, htc, ?_⟩
      rw [hnext.items, hlast]
    | succ left =>
      have hbefore : (k + 1 + 1) * size ≤ n * size := Nat.mul_le_mul_right size (by omega)
      have hmul : (k + 1 + 1) * size = (k + 1) * size + size := Nat.succ_mul (k + 1) size
      have hpositive : 0 < (overflowMeta size k).r := by
        rw [UInt32.lt_iff_toNat_lt, hr, UInt32.toNat_zero]
        omega
      rw [decide_eq_true hpositive]
      exact ih (k + 1) s' (by omega) (Nat.succ_pos left) hnext

theorem overflowPack_onWire (crc32c : List UInt8 → UInt32) (hlt : size < 2 ^ 16 + 1) (k : Nat) :
    ∃ frame, Pack.decode crc32c frame = .ok (overflowPack size k) := by
  have hdata : (overflowPack size k).data.length = size * 6 := by
    rw [overflowPack, joinLengthPrefixed, List.length_flatMap]
    simp [emptyObject]
  exact ⟨_, Pack.decode_of_encode (Pack.encode_eq_ok_iff.mpr
    ⟨show flags.isResponse &&& ~~~flags.known = 0 by decide,
      by rw [overflowPack, Bytes.length_toBigEndian]; decide, by omega, rfl⟩)⟩

/-- A window of 2^32 messages whose batches all announce one message less. -/
theorem window_total_saturates :
    ∃ packages request packs window,
      (∀ crc32c, ∀ pack ∈ packs, ∃ frame, Pack.decode crc32c frame = .ok pack) ∧
        deviceFetchWindow packages request (.ok ()) packs = .ok window ∧
        window.items.length = 2 ^ 32 ∧ window.tc.toNat = 2 ^ 32 - 1 := by
  have hstart : Overflowing (2 ^ 16) 0 DeviceFetch.start :=
    ⟨rfl, rfl, .inl rfl, fun newest hnewest => (by cases hnewest), rfl⟩
  obtain ⟨s, hstream, hfinished, htc, hitems⟩ :=
    Overflowing.run (by decide) (by decide) (show 2 ^ 16 * 2 ^ 16 = 2 ^ 32 by decide)
      (2 ^ 16) 0 DeviceFetch.start (Nat.zero_add _) (by decide) hstart
  refine ⟨overflowPackages (2 ^ 16), overflowRequest,
    (List.range' 0 (2 ^ 16)).map (overflowPack (2 ^ 16)), s.window, ?_, ?_, ?_, ?_⟩
  · intro crc32c pack hpack
    obtain ⟨k, _, rfl⟩ := List.mem_map.mp hpack
    exact overflowPack_onWire crc32c (by decide) k
  · rw [deviceFetchWindow, hstream]
    exact if_pos hfinished
  · rw [hitems]
    decide
  · rw [htc]
    decide

end Overflow

end WindowCounts
end WbfMatrixClient
