import WbfMatrixClient.MatrixDownloadTurns

/-!
# Everyone who asks a transfer is answered

The channels of calls and reads are spread over the transfers that there have been. One that was
handed over and not answered is in the lists of its transfer, once; a transfer that is gone has
none left. The transfers that can be found are the one that is registered, and what a finished
transfer puts on a row is of the row it was started for, unless the row is changed in the moment
before.
-/

namespace WbfMatrixClient
namespace MatrixDownload

namespace CallPhase

/-- The waiter of the call is still with the call. -/
def isHeld : CallPhase → Bool
  | .asked | .begun | .absent => true
  | _ => false

/-- The call is over without a transfer. -/
def isSettled : CallPhase → Bool
  | .complete | .refused => true
  | _ => false

end CallPhase

namespace State

/-- The transfer that a channel was handed to. -/
def sentTo (s : State) : Channel → Option Nat
  | .read read => (s.reads read).map ReadCall.transfer
  | .wait i =>
      (s.calls i).bind fun call =>
        match call.phase with
        | .attached n => if call.waits then some n else none
        | _ => none

/-- Nobody has handed the channel over, and nobody has answered it. -/
def IsUnsent (s : State) : Channel → Prop
  | .read read => s.reads read = none
  | .wait i => ∀ call, s.calls i = some call → call.phase.isHeld = true ∨ call.waits = false

/-- What holds of the channels in every state. -/
structure Replies (s : State) : Prop where
  nodup : ∀ n t, s.transfers n = some t → t.channels.Nodup
  pending : ∀ n t, s.transfers n = some t → ∀ channel,
    channel ∈ t.channels ↔ s.sentTo channel = some n ∧ s.answers channel = []
  once : ∀ channel, (s.answers channel).length ≤ 1
  unsent : ∀ channel, s.IsUnsent channel → s.answers channel = []
  target : ∀ channel n, s.sentTo channel = some n → (s.transfers n).isSome
  reads : ∀ n t read position, s.transfers n = some t → t.HasRead read position →
    s.reads read = some ⟨n, position⟩
  pieces : ∀ channel start plain, Answer.piece start plain ∈ s.answers channel →
    ∃ read n t, channel = .read read ∧ s.reads read = some ⟨n, start⟩ ∧
      s.transfers n = some t ∧ plain ≠ [] ∧ plain <+: t.plain.drop start
  settled : ∀ i call, s.calls i = some call → call.phase.isSettled = true →
    s.answers (.wait i) = if call.waits then [.closed] else []

/-- The registry and the phases agree. -/
structure Registry (s : State) : Prop where
  phase : ∀ n t, s.transfers n = some t → (t.phase.isRegistered = true ↔ s.registered = some n)
  registered : ∀ n, s.registered = some n → (s.transfers n).isSome

variable {s s' : State}

theorem Replies.of_eq (h : s.Replies) (htransfers : s'.transfers = s.transfers)
    (hcalls : s'.calls = s.calls) (hreads : s'.reads = s.reads)
    (hanswers : s'.answers = s.answers) : s'.Replies := by
  have hsent : s'.sentTo = s.sentTo := by
    funext channel
    cases channel <;> simp only [sentTo, hcalls, hreads]
  have hunsent : ∀ channel, s'.IsUnsent channel → s.IsUnsent channel := by
    intro channel
    cases channel <;> simp only [IsUnsent, hcalls, hreads] <;> exact id
  refine ⟨?_, ?_, ?_, ?_, ?_, ?_, ?_, ?_⟩
  · rw [htransfers]
    exact h.nodup
  · rw [htransfers, hsent, hanswers]
    exact h.pending
  · rw [hanswers]
    exact h.once
  · intro channel hchannel
    rw [hanswers]
    exact h.unsent channel (hunsent channel hchannel)
  · rw [htransfers, hsent]
    exact h.target
  · rw [htransfers, hreads]
    exact h.reads
  · rw [htransfers, hreads, hanswers]
    exact h.pieces
  · rw [hcalls, hanswers]
    exact h.settled

theorem Registry.of_eq (h : s.Registry) (htransfers : s'.transfers = s.transfers)
    (hregistered : s'.registered = s.registered) : s'.Registry := by
  refine ⟨?_, ?_⟩
  · rw [htransfers, hregistered]
    exact h.phase
  · rw [htransfers, hregistered]
    exact h.registered

@[simp] theorem give_answers (s : State) (replies : List (Channel × Answer)) (channel : Channel) :
    (s.give replies).answers channel =
      s.answers channel ++ (replies.filter fun reply => reply.1 = channel).map Prod.snd := rfl

@[simp] theorem setTransfer_self (s : State) (n : Nat) (t : Transfer) :
    (s.setTransfer n t).transfers n = some t := by simp [setTransfer]

variable {n : Nat}

theorem setTransfer_ne (s : State) {m : Nat} (t : Transfer) (h : m ≠ n) :
    (s.setTransfer n t).transfers m = s.transfers m := by simp [setTransfer, h]

variable {replies : List (Channel × Answer)} {channel : Channel}

/-- With every channel at most once, the replies of a channel are the one that it gets. -/
theorem filter_of_mem {answer : Answer} (hnodup : (replies.map Prod.fst).Nodup)
    (hmem : (channel, answer) ∈ replies) :
    replies.filter (fun reply => reply.1 = channel) = [(channel, answer)] := by
  induction replies with
  | nil => cases hmem
  | cons reply replies ih =>
    rw [List.map_cons, List.nodup_cons] at hnodup
    rcases List.mem_cons.mp hmem with rfl | hmem
    · have hrest : replies.filter (fun reply => reply.1 = channel) = [] := by
        rw [List.filter_eq_nil_iff]
        intro other hother heq
        exact hnodup.1 (List.mem_map.mpr ⟨other, hother, of_decide_eq_true heq⟩)
      rw [List.filter_cons_of_pos (by simp), hrest]
    · have hne : reply.1 ≠ channel := by
        intro heq
        exact hnodup.1 (List.mem_map.mpr ⟨_, hmem, heq.symm⟩)
      rw [List.filter_cons_of_neg (by simpa using hne)]
      exact ih hnodup.2 hmem

theorem give_answers_of_notMem (h : channel ∉ replies.map Prod.fst) :
    (s.give replies).answers channel = s.answers channel := by
  have hrest : replies.filter (fun reply => reply.1 = channel) = [] := by
    rw [List.filter_eq_nil_iff]
    intro other hother heq
    exact h (List.mem_map.mpr ⟨other, hother, of_decide_eq_true heq⟩)
  rw [give_answers, hrest, List.map_nil, List.append_nil]

theorem give_answers_of_mem {answer : Answer} (hnodup : (replies.map Prod.fst).Nodup)
    (hmem : (channel, answer) ∈ replies) (hnone : s.answers channel = []) :
    (s.give replies).answers channel = [answer] := by
  rw [give_answers, filter_of_mem hnodup hmem, hnone]
  rfl

/-- Channels that wait for no answer of anybody else are answered once each. -/
theorem give_answers_cases (hnodup : (replies.map Prod.fst).Nodup)
    (hnone : ∀ channel ∈ replies.map Prod.fst, s.answers channel = []) (channel : Channel) :
    (channel ∉ replies.map Prod.fst ∧ (s.give replies).answers channel = s.answers channel) ∨
      ∃ answer, (channel, answer) ∈ replies ∧ (s.give replies).answers channel = [answer] := by
  by_cases hmem : channel ∈ replies.map Prod.fst
  · obtain ⟨⟨other, answer⟩, hreply, heq⟩ := List.mem_map.mp hmem
    subst heq
    exact .inr ⟨answer, hreply, give_answers_of_mem hnodup hreply (hnone _ hmem)⟩
  · exact .inl ⟨hmem, give_answers_of_notMem hmem⟩

theorem sentTo_of_isUnsent (h : s.IsUnsent channel) : s.sentTo channel = none := by
  cases channel with
  | read read =>
    have hread : s.reads read = none := h
    simp [sentTo, hread]
  | wait i =>
    cases hcall : s.calls i with
    | none => simp [sentTo, hcall]
    | some call =>
      rcases h call hcall with hheld | hwaits
      · cases hphase : call.phase <;>
          simp [hphase, CallPhase.isHeld] at hheld <;> simp [sentTo, hcall, hphase]
      · cases hphase : call.phase <;> simp [sentTo, hcall, hphase, hwaits]

theorem Replies.turn {n : Nat} {t : Transfer} {turn : Turn} (h : s.Replies)
    (hn : s.transfers n = some t) (hkeeps : turn.Keeps t) :
    ((s.setTransfer n turn.transfer).give turn.replies).Replies := by
  have hnodup : (turn.replies.map Prod.fst ++ turn.transfer.channels).Nodup :=
    hkeeps.channels.nodup_iff.mpr (h.nodup n t hn)
  obtain ⟨hreplies, hrest, hdisjoint⟩ := List.nodup_append'.mp hnodup
  have hwaited : ∀ channel ∈ turn.replies.map Prod.fst,
      s.sentTo channel = some n ∧ s.answers channel = [] := fun channel hmem =>
    (h.pending n t hn channel).mp (hkeeps.channels.mem_iff.mp (List.mem_append_left _ hmem))
  have hcases := give_answers_cases (s := s.setTransfer n turn.transfer) hreplies
    fun channel hmem => (hwaited channel hmem).2
  have hsome : ∀ m t', (s.setTransfer n turn.transfer).transfers m = some t' →
      (m = n ∧ t' = turn.transfer) ∨ (m ≠ n ∧ s.transfers m = some t') := by
    intro m t' hm
    by_cases hmn : m = n
    · subst hmn
      rw [setTransfer_self] at hm
      exact .inl ⟨rfl, (Option.some.inj hm).symm⟩
    · rw [setTransfer_ne _ _ hmn] at hm
      exact .inr ⟨hmn, hm⟩
  refine ⟨?_, ?_, ?_, ?_, ?_, ?_, ?_, ?_⟩
  · intro m t' hm
    rcases hsome m t' hm with ⟨-, rfl⟩ | ⟨-, hm⟩
    · exact hrest
    · exact h.nodup m t' hm
  · intro m t' hm channel
    rcases hsome m t' hm with ⟨rfl, rfl⟩ | ⟨hmn, hm⟩
    · rcases hcases channel with ⟨hnot, hanswers⟩ | ⟨answer, hmem, hanswers⟩
      · rw [hanswers]
        refine .trans ?_ (h.pending m t hn channel)
        rw [← hkeeps.channels.mem_iff, List.mem_append, or_iff_right hnot]
      · rw [hanswers]
        have hnot := hdisjoint (List.mem_map.mpr ⟨_, hmem, rfl⟩)
        exact iff_of_false hnot (by simp)
    · rcases hcases channel with ⟨-, hanswers⟩ | ⟨answer, hmem, hanswers⟩
      · rw [hanswers]
        exact h.pending m t' hm channel
      · have hsent := (hwaited channel (List.mem_map.mpr ⟨_, hmem, rfl⟩)).1
        rw [h.pending m t' hm channel, hsent, hanswers]
        exact iff_of_false (fun hboth => hmn (Option.some.inj hboth.1).symm) (by simp)
  · intro channel
    rcases hcases channel with ⟨-, hanswers⟩ | ⟨answer, -, hanswers⟩
    · rw [hanswers]
      exact h.once channel
    · rw [hanswers]
      exact Nat.le_refl 1
  · intro channel hunsent
    have hunsent : s.IsUnsent channel := by cases channel <;> exact hunsent
    rcases hcases channel with ⟨-, hanswers⟩ | ⟨answer, hmem, -⟩
    · rw [hanswers]
      exact h.unsent channel hunsent
    · have hsent := (hwaited channel (List.mem_map.mpr ⟨_, hmem, rfl⟩)).1
      rw [sentTo_of_isUnsent hunsent] at hsent
      cases hsent
  · intro channel m hsent
    by_cases hmn : m = n
    · subst hmn
      exact (congrArg Option.isSome (setTransfer_self s m turn.transfer)).trans rfl
    · exact (congrArg Option.isSome (setTransfer_ne s turn.transfer hmn)).trans
        (h.target channel m hsent)
  · intro m t' read position hm hread
    rcases hsome m t' hm with ⟨rfl, rfl⟩ | ⟨-, hm⟩
    · exact h.reads m t read position hn (hkeeps.reads read position hread)
    · exact h.reads m t' read position hm hread
  · intro channel start plain hmem
    rcases hcases channel with ⟨-, hanswers⟩ | ⟨answer, hreply, hanswers⟩
    · rw [hanswers] at hmem
      obtain ⟨read, m, t', hchannel, hread, hm, hne, hprefix⟩ := h.pieces channel start plain hmem
      by_cases hmn : m = n
      · subst hmn
        have heq : t' = t := Option.some.inj (hm.symm.trans hn)
        subst heq
        obtain ⟨rest, hrest⟩ := hkeeps.grows
        refine ⟨read, m, turn.transfer, hchannel, hread, setTransfer_self _ _ _, hne, ?_⟩
        rw [← hrest, List.drop_append]
        exact hprefix.trans (List.prefix_append _ _)
      · exact ⟨read, m, t', hchannel, hread, (setTransfer_ne _ _ hmn).trans hm, hne, hprefix⟩
    · rw [hanswers, List.mem_singleton] at hmem
      subst hmem
      obtain ⟨read, hchannel, hread, hne, hprefix⟩ := hkeeps.pieces channel start plain hreply
      exact ⟨read, n, turn.transfer, hchannel, h.reads n t read start hn hread,
        setTransfer_self _ _ _, hne, hprefix⟩
  · intro i call hcall hsettled
    have hnone : s.sentTo (.wait i) = none := by
      have hcall : s.calls i = some call := hcall
      cases hphase : call.phase <;>
        simp [hphase, CallPhase.isSettled] at hsettled <;> simp [sentTo, hcall, hphase]
    rcases hcases (.wait i) with ⟨-, hanswers⟩ | ⟨answer, hmem, -⟩
    · rw [hanswers]
      exact h.settled i call hcall hsettled
    · have hsent := (hwaited _ (List.mem_map.mpr ⟨_, hmem, rfl⟩)).1
      rw [hnone] at hsent
      cases hsent

/-- A call goes on with its waiter, or is there for the first time. -/
theorem Replies.setCall {i : Nat} {call : Call} (h : s.Replies) (hunsent : s.IsUnsent (.wait i))
    (hheld : call.phase.isHeld = true) : (s.setCall i call).Replies := by
  have hnew : (s.setCall i call).sentTo (.wait i) = none := by
    cases hphase : call.phase <;>
      simp [hphase, CallPhase.isHeld] at hheld <;> simp [sentTo, State.setCall, hphase]
  have hsent : (s.setCall i call).sentTo = s.sentTo := by
    funext channel
    cases channel with
    | read read => rfl
    | wait j =>
      by_cases hji : j = i
      · subst hji
        rw [hnew, sentTo_of_isUnsent hunsent]
      · simp [sentTo, State.setCall, hji]
  refine ⟨h.nodup, ?_, h.once, ?_, ?_, h.reads, h.pieces, ?_⟩
  · rw [hsent]
    exact h.pending
  · intro channel hchannel
    cases channel with
    | read read => exact h.unsent (.read read) hchannel
    | wait j =>
      by_cases hji : j = i
      · subst hji
        exact h.unsent _ hunsent
      · refine h.unsent (.wait j) fun other hother => hchannel other ?_
        simpa [State.setCall, hji] using hother
  · rw [hsent]
    exact h.target
  · intro j other hother hsettled
    by_cases hji : j = i
    · subst hji
      have heq : other = call := by simpa [State.setCall] using hother.symm
      subst heq
      cases hphase : other.phase <;>
        simp [hphase, CallPhase.isHeld, CallPhase.isSettled] at hheld hsettled
    · exact h.settled j other (by simpa [State.setCall, hji] using hother) hsettled

/-- A call is over without a transfer, and its waiter is dropped. -/
theorem Replies.settleCall {i : Nat} {call : Call} {phase : CallPhase} (h : s.Replies)
    (hunsent : s.IsUnsent (.wait i)) (hphase : phase.isSettled = true) :
    (s.settleCall i call phase).Replies := by
  have hanswers : ∀ channel, channel ≠ .wait i →
      (s.settleCall i call phase).answers channel = s.answers channel := by
    intro channel hne
    refine (give_answers_of_notMem ?_).trans rfl
    cases call.waits <;> simp [hne]
  have hself : (s.settleCall i call phase).answers (.wait i) =
      if call.waits then [.closed] else [] := by
    have hnone := h.unsent _ hunsent
    simp only [State.settleCall, give_answers]
    cases call.waits <;> simp [State.setCall, hnone]
  have hsent : (s.settleCall i call phase).sentTo = s.sentTo := by
    funext channel
    cases channel with
    | read read => rfl
    | wait j =>
      by_cases hji : j = i
      · subst hji
        rw [sentTo_of_isUnsent hunsent]
        cases phase <;> simp [CallPhase.isSettled] at hphase <;>
          simp [sentTo, State.settleCall, State.give, State.setCall]
      · simp [sentTo, State.settleCall, State.give, State.setCall, hji]
  have hwait : ∀ n t, s.transfers n = some t → Channel.wait i ∉ t.channels := by
    intro n t hn hmem
    rw [h.pending n t hn, sentTo_of_isUnsent hunsent] at hmem
    cases hmem.1
  refine ⟨h.nodup, ?_, ?_, ?_, ?_, h.reads, ?_, ?_⟩
  · intro n t hn channel
    rw [hsent]
    by_cases hchannel : channel = .wait i
    · subst hchannel
      rw [sentTo_of_isUnsent hunsent]
      exact iff_of_false (hwait n t hn) (by simp)
    · rw [hanswers channel hchannel]
      exact h.pending n t hn channel
  · intro channel
    by_cases hchannel : channel = .wait i
    · rw [hchannel, hself]
      cases call.waits <;> simp
    · rw [hanswers channel hchannel]
      exact h.once channel
  · intro channel hchannel
    by_cases heq : channel = .wait i
    · subst heq
      rw [hself]
      rcases hchannel { call with phase := phase }
        (by simp [State.settleCall, State.give, State.setCall]) with hheld | hwaits
      · cases phase <;> simp [CallPhase.isHeld, CallPhase.isSettled] at hheld hphase
      · exact if_neg (by simpa using hwaits)
    · rw [hanswers channel heq]
      cases channel with
      | read read => exact h.unsent (.read read) hchannel
      | wait j =>
        have hji : j ≠ i := fun hji => heq (by rw [hji])
        refine h.unsent (.wait j) fun other hother => hchannel other ?_
        simpa [State.settleCall, State.give, State.setCall, hji] using hother
  · rw [hsent]
    exact h.target
  · intro channel start plain hmem
    by_cases heq : channel = .wait i
    · subst heq
      rw [hself] at hmem
      cases hwaits : call.waits <;> simp [hwaits] at hmem
    · rw [hanswers channel heq] at hmem
      exact h.pieces channel start plain hmem
  · intro j other hother hsettled
    by_cases hji : j = i
    · subst hji
      have heq : other = { call with phase := phase } := by
        simpa [State.settleCall, State.give, State.setCall] using hother.symm
      rw [hself, heq]
    · rw [hanswers (.wait j) (by simpa using hji)]
      exact h.settled j other
        (by simpa [State.settleCall, State.give, State.setCall, hji] using hother) hsettled

variable {t : Transfer}

/-- Commands are put into the inbox of a transfer, and their channels with them. -/
theorem Replies.send {s' : State} {inbox : List Command} (h : s.Replies)
    (hn : s.transfers n = some t)
    (htransfers : s'.transfers = Function.update s.transfers n (some { t with inbox := t.inbox ++
      inbox })) (hanswers : s'.answers = s.answers)
    (hreads : ∀ read call, s.reads read = some call → s'.reads read = some call)
    (hnodup : (inbox.filterMap Command.channel).Nodup)
    (hfresh : ∀ channel ∈ inbox.filterMap Command.channel, s.IsUnsent channel)
    (hsent : ∀ channel, s'.sentTo channel = if channel ∈ inbox.filterMap Command.channel then some n
      else s.sentTo channel)
    (hposition : ∀ read position, .read read position ∈ inbox → s'.reads read = some ⟨n, position⟩)
    (hunsent : ∀ channel, s'.IsUnsent channel → s.IsUnsent channel)
    (hsettled : ∀ i call, s'.calls i = some call → call.phase.isSettled = true → s.calls i = some
      call) : s'.Replies := by
  have hchannels : (Transfer.channels { t with inbox := t.inbox ++ inbox }).Perm
      (inbox.filterMap Command.channel ++ t.channels) := by
    rw [List.perm_iff_count]
    intro channel
    simp only [Transfer.channels, List.filterMap_append, List.count_append]
    omega
  have hnone : ∀ channel ∈ inbox.filterMap Command.channel, ∀ m t', s.transfers m = some t' →
      channel ∉ t'.channels := by
    intro channel hmem m t' hm hwaits
    rw [h.pending m t' hm, sentTo_of_isUnsent (hfresh channel hmem)] at hwaits
    cases hwaits.1
  have hsome : ∀ m t', s'.transfers m = some t' →
      (m = n ∧ t' = { t with inbox := t.inbox ++ inbox }) ∨ (m ≠ n ∧ s.transfers m = some t') := by
    intro m t' hm
    rw [htransfers] at hm
    by_cases hmn : m = n
    · subst hmn
      rw [Function.update_self] at hm
      exact .inl ⟨rfl, (Option.some.inj hm).symm⟩
    · rw [Function.update_of_ne hmn] at hm
      exact .inr ⟨hmn, hm⟩
  refine ⟨?_, ?_, ?_, ?_, ?_, ?_, ?_, ?_⟩
  · intro m t' hm
    rcases hsome m t' hm with ⟨rfl, rfl⟩ | ⟨-, hm⟩
    · rw [hchannels.nodup_iff, List.nodup_append']
      exact ⟨hnodup, h.nodup m t hn, fun channel hmem => hnone channel hmem m t hn⟩
    · exact h.nodup m t' hm
  · intro m t' hm channel
    rw [hsent, hanswers]
    rcases hsome m t' hm with ⟨rfl, rfl⟩ | ⟨hmn, hm⟩
    · rw [hchannels.mem_iff, List.mem_append]
      by_cases hmem : channel ∈ inbox.filterMap Command.channel
      · rw [if_pos hmem]
        exact iff_of_true (.inl hmem) ⟨rfl, h.unsent channel (hfresh channel hmem)⟩
      · rw [if_neg hmem, or_iff_right hmem]
        exact h.pending m t hn channel
    · by_cases hmem : channel ∈ inbox.filterMap Command.channel
      · rw [if_pos hmem]
        exact iff_of_false (hnone channel hmem m t' hm)
          fun hboth => hmn (Option.some.inj hboth.1).symm
      · rw [if_neg hmem]
        exact h.pending m t' hm channel
  · intro channel
    rw [hanswers]
    exact h.once channel
  · intro channel hchannel
    rw [hanswers]
    exact h.unsent channel (hunsent channel hchannel)
  · intro channel m hm
    rw [hsent] at hm
    rw [htransfers]
    by_cases hmn : m = n
    · subst hmn
      rw [Function.update_self]
      rfl
    · rw [Function.update_of_ne hmn]
      split at hm
      · exact absurd (Option.some.inj hm).symm hmn
      · exact h.target channel m hm
  · intro m t' read position hm hread
    rcases hsome m t' hm with ⟨rfl, rfl⟩ | ⟨-, hm⟩
    · rcases hread with hinbox | hmem
      · rcases List.mem_append.mp hinbox with hold | hnew
        · exact hreads read _ (h.reads m t read position hn (.inl hold))
        · exact hposition read position hnew
      · exact hreads read _ (h.reads m t read position hn (.inr hmem))
    · exact hreads read _ (h.reads m t' read position hm hread)
  · intro channel start plain hmem
    rw [hanswers] at hmem
    obtain ⟨read, m, t', hchannel, hread, hm, hne, hprefix⟩ := h.pieces channel start plain hmem
    rw [htransfers]
    by_cases hmn : m = n
    · subst hmn
      have heq : t' = t := Option.some.inj (hm.symm.trans hn)
      subst heq
      exact ⟨read, m, _, hchannel, hreads read _ hread, Function.update_self _ _ _, hne, hprefix⟩
    · exact ⟨read, m, t', hchannel, hreads read _ hread,
        (Function.update_of_ne hmn _ _).trans hm, hne, hprefix⟩
  · intro i call hcall hphase
    rw [hanswers]
    exact h.settled i call (hsettled i call hcall hphase) hphase

/-- A transfer that nothing was handed to is there for the first time. -/
theorem Replies.spawn (h : s.Replies) (hn : s.transfers n = none) (hinbox : t.inbox = [])
    (hreads : t.reads = []) (hwaiters : t.waiters = []) : (s.setTransfer n t).Replies := by
  have hchannels : t.channels = [] := by simp [Transfer.channels, hinbox, hreads, hwaiters]
  have hsome : ∀ m t', (s.setTransfer n t).transfers m = some t' →
      (m = n ∧ t' = t) ∨ (m ≠ n ∧ s.transfers m = some t') := by
    intro m t' hm
    by_cases hmn : m = n
    · subst hmn
      rw [setTransfer_self] at hm
      exact .inl ⟨rfl, (Option.some.inj hm).symm⟩
    · rw [setTransfer_ne _ _ hmn] at hm
      exact .inr ⟨hmn, hm⟩
  have hother : ∀ m, (s.transfers m).isSome → (s.setTransfer n t).transfers m = s.transfers m := by
    intro m hm
    refine setTransfer_ne _ _ fun hmn => ?_
    rw [hmn, hn] at hm
    cases hm
  refine ⟨?_, ?_, h.once, h.unsent, ?_, ?_, ?_, h.settled⟩
  · intro m t' hm
    rcases hsome m t' hm with ⟨-, rfl⟩ | ⟨-, hm⟩
    · rw [hchannels]
      exact List.nodup_nil
    · exact h.nodup m t' hm
  · intro m t' hm channel
    rcases hsome m t' hm with ⟨rfl, rfl⟩ | ⟨-, hm⟩
    · rw [hchannels]
      refine iff_of_false List.not_mem_nil fun hboth => ?_
      have htarget := h.target channel m hboth.1
      rw [hn] at htarget
      cases htarget
    · exact h.pending m t' hm channel
  · intro channel m hm
    have htarget := h.target channel m hm
    rw [hother m htarget]
    exact htarget
  · intro m t' read position hm hread
    rcases hsome m t' hm with ⟨-, rfl⟩ | ⟨-, hm⟩
    · simp [Transfer.HasRead, hinbox, hreads] at hread
    · exact h.reads m t' read position hm hread
  · intro channel start plain hmem
    obtain ⟨read, m, t', hchannel, hread, hm, hrest⟩ := h.pieces channel start plain hmem
    exact ⟨read, m, t', hchannel, hread, (hother m (by rw [hm]; rfl)).trans hm, hrest⟩

theorem isUnsent_of_isHeld {i : Nat} {call : Call} (hcall : s.calls i = some call)
    (hheld : call.phase.isHeld = true) : s.IsUnsent (.wait i) := by
  intro other hother
  rw [hcall] at hother
  exact .inl (Option.some.inj hother ▸ hheld)

/-- A call joins a transfer, and hands its waiter over if it has one. -/
theorem Replies.attach {i : Nat} {call : Call} (h : s.Replies) (hcall : s.calls i = some call)
    (hheld : call.phase.isHeld = true) (hn : s.transfers n = some t) :
    ((s.setTransfer n { t with
        inbox := t.inbox ++ if call.waits then [.wait i] else [] }).setCall i
      { call with phase := .attached n }).Replies := by
  have hunsent := isUnsent_of_isHeld hcall hheld
  have hnone := sentTo_of_isUnsent hunsent
  refine h.send hn rfl rfl (fun _ _ hread => hread) ?_ ?_ ?_ ?_ ?_ ?_
  · cases call.waits <;> simp [Command.channel]
  · cases call.waits <;> simp [Command.channel, hunsent]
  · intro channel
    cases channel with
    | read read => cases call.waits <;> simp [sentTo, Command.channel, State.setCall, setTransfer]
    | wait j =>
      by_cases hji : j = i
      · subst hji
        rw [hnone]
        cases call.waits <;>
          simp [sentTo, Command.channel, State.setCall, setTransfer]
      · cases call.waits <;>
          simp [sentTo, Command.channel, State.setCall, setTransfer, hji]
  · intro read position hmem
    cases hwaits : call.waits <;> simp [hwaits] at hmem
  · intro channel hchannel
    cases channel with
    | read read => exact hchannel
    | wait j =>
      by_cases hji : j = i
      · subst hji
        exact hunsent
      · intro other hother
        exact hchannel other (by simpa [State.setCall, setTransfer, hji] using hother)
  · intro j other hother hsettled
    by_cases hji : j = i
    · subst hji
      have heq : other = { call with phase := .attached n } := by
        simpa [State.setCall, setTransfer] using hother.symm
      subst heq
      cases hsettled
    · simpa [State.setCall, setTransfer, hji] using hother

variable {read position : Nat}

/-- A read of the transfer is there for the first time. -/
theorem sentTo_setRead (channel : Channel) :
    State.sentTo { s with reads := Function.update s.reads read (some ⟨n, position⟩) } channel =
      if channel = .read read then some n else s.sentTo channel := by
  cases channel with
  | wait i => simp [sentTo]
  | read other =>
    by_cases heq : other = read
    · subst heq
      simp [sentTo]
    · simp [sentTo, heq]

theorem isUnsent_setRead
    (h : State.IsUnsent { s with reads := Function.update s.reads read (some ⟨n, position⟩) }
      channel) : channel ≠ .read read ∧ s.IsUnsent channel := by
  cases channel with
  | wait i => exact ⟨by simp, h⟩
  | read other =>
    by_cases heq : other = read
    · subst heq
      simp [IsUnsent] at h
    · exact ⟨by simpa using heq, by simpa [IsUnsent, heq] using h⟩

theorem setRead_of_some {other : Nat} {call : ReadCall} (hnew : s.reads read = none)
    (hother : s.reads other = some call) :
    Function.update s.reads read (some ⟨n, position⟩) other = some call := by
  rw [Function.update_of_ne, hother]
  rintro rfl
  rw [hnew] at hother
  cases hother

/-- A read is sent, or is refused at once because the transfer takes no commands any more. -/
theorem Replies.sendRead {read n position : Nat} {t : Transfer} (h : s.Replies)
    (hnew : s.reads read = none) (hn : s.transfers n = some t) :
    (s.sendRead read n position t).Replies := by
  unfold State.sendRead
  by_cases hopen : t.phase.isOpen = true
  · rw [if_pos hopen]
    refine h.send hn rfl rfl (fun other call => setRead_of_some hnew) ?_ ?_ ?_ ?_ ?_ ?_
    · simp [Command.channel]
    · simpa [Command.channel] using (show s.IsUnsent (.read read) from hnew)
    · intro channel
      refine (sentTo_setRead channel).trans ?_
      simp [Command.channel]
    · intro other at_ hmem
      simp only [List.mem_singleton, Command.read.injEq] at hmem
      obtain ⟨rfl, rfl⟩ := hmem
      exact Function.update_self _ _ _
    · intro channel hchannel
      exact (isUnsent_setRead hchannel).2
    · exact fun i call hcall _ => hcall
  · rw [if_neg hopen]
    have hanswers : ∀ channel, (State.give
        { s with reads := Function.update s.reads read (some ⟨n, position⟩) }
          [(.read read, .error)]).answers channel =
        if channel = .read read then [.error] else s.answers channel := by
      intro channel
      by_cases heq : channel = .read read
      · subst heq
        have hnone := h.unsent (.read read) hnew
        simp [hnone]
      · rw [if_neg heq]
        exact give_answers_of_notMem (by simpa using heq)
    have hsent : ∀ channel, (State.give
        { s with reads := Function.update s.reads read (some ⟨n, position⟩) }
          [(.read read, .error)]).sentTo channel =
        if channel = .read read then some n else s.sentTo channel := sentTo_setRead
    refine ⟨h.nodup, ?_, ?_, ?_, ?_, ?_, ?_, ?_⟩
    · intro m t' hm channel
      refine .trans (h.pending m t' hm channel) ?_
      rw [hanswers, hsent]
      by_cases heq : channel = .read read
      · subst heq
        simp [sentTo, hnew]
      · simp [heq]
    · intro channel
      rw [hanswers]
      split
      · exact Nat.le_refl 1
      · exact h.once channel
    · intro channel hchannel
      obtain ⟨hne, hunsent⟩ := isUnsent_setRead hchannel
      rw [hanswers, if_neg hne]
      exact h.unsent channel hunsent
    · intro channel m hm
      rw [hsent] at hm
      split at hm
      · injection hm with hm
        subst hm
        exact (congrArg Option.isSome hn).trans rfl
      · exact h.target channel m hm
    · intro m t' other at_ hm hread
      exact setRead_of_some hnew (h.reads m t' other at_ hm hread)
    · intro channel start plain hmem
      rw [hanswers] at hmem
      split at hmem
      · simp at hmem
      · obtain ⟨other, m, t', hchannel, hread, hrest⟩ := h.pieces channel start plain hmem
        exact ⟨other, m, t', hchannel, setRead_of_some hnew hread, hrest⟩
    · intro i call hcall hsettled
      rw [hanswers, if_neg (by simp)]
      exact h.settled i call hcall hsettled

/-- What holds in every state. -/
structure Sound (packages : Packages) (s : State) : Prop where
  replies : s.Replies
  registry : s.Registry
  fits : ∀ n t, s.transfers n = some t → t.Fits packages
  named : AreNamed packages s.pool

variable {packages : Packages}

theorem Sound.of_eq (h : s.Sound packages) (htransfers : s'.transfers = s.transfers)
    (hregistered : s'.registered = s.registered) (hcalls : s'.calls = s.calls)
    (hreads : s'.reads = s.reads) (hanswers : s'.answers = s.answers)
    (hpool : AreNamed packages s'.pool) :
    s'.Sound packages where
  replies := h.replies.of_eq htransfers hcalls hreads hanswers
  registry := h.registry.of_eq htransfers hregistered
  fits := by
    rw [htransfers]
    exact h.fits
  named := hpool

/-- What is done to the row is of no concern here. -/
theorem mediaRowId_cases (mxc : String) (s : State) (description : MediaDescription) (id : Nat) :
    ∃ row made, s.mediaRowId mxc description id = { s with row := row, made := made } := by
  unfold mediaRowId
  split
  · exact ⟨_, s.made, rfl⟩
  · split
    · exact ⟨_, _, rfl⟩
    · exact ⟨s.row, s.made, rfl⟩

theorem Sound.setRow (h : s.Sound packages) (row : Option Row) (made : Nat) :
    Sound packages { s with row := row, made := made } := h.of_eq rfl rfl rfl rfl rfl h.named

theorem Sound.setCall {i : Nat} {call : Call} (h : s.Sound packages)
    (hunsent : s.IsUnsent (.wait i)) (hheld : call.phase.isHeld = true) :
    (s.setCall i call).Sound packages :=
  ⟨h.replies.setCall hunsent hheld, h.registry.of_eq rfl rfl, h.fits, h.named⟩

theorem Sound.settleCall {i : Nat} {call : Call} {phase : CallPhase} (h : s.Sound packages)
    (hunsent : s.IsUnsent (.wait i)) (hphase : phase.isSettled = true) :
    (s.settleCall i call phase).Sound packages :=
  ⟨h.replies.settleCall hunsent hphase, h.registry.of_eq rfl rfl, h.fits, h.named⟩

theorem areNamed_update_none {pool : PoolFiles} (h : AreNamed packages pool) (name : String) :
    AreNamed packages (Function.update pool name none) := by
  intro other plain hother
  by_cases heq : other = name
  · subst heq
    simp at hother
  · exact h other plain (by simpa [heq] using hother)

theorem areNamed_adopt {s : State} (h : AreNamed packages s.pool) (plain : List UInt8) :
    AreNamed packages (s.adopt (packages.blake3 plain) plain).pool := by
  intro other bytes hother
  by_cases heq : other = packages.blake3 plain
  · subst heq
    simp only [adopt, Function.update_self, Option.some.injEq] at hother
    cases hold : s.pool (packages.blake3 plain) with
    | none =>
      rw [hold] at hother
      exact congrArg packages.blake3 hother.symm
    | some old =>
      rw [hold] at hother
      exact hother ▸ h _ _ hold
  · exact h other bytes (by simpa [adopt, heq] using hother)

theorem send_fits (h : t.Fits packages) (hopen : t.phase.isDrained = false) (inbox : List Command) :
    Transfer.Fits packages { t with inbox := inbox } where
  starting := h.starting
  named := h.named
  drained := fun hdrained => by
    have hdrained : t.phase.isDrained = true := hdrained
    rw [hopen] at hdrained
    cases hdrained
  gone := h.gone

theorem isDrained_of_isOpen {phase : Phase} (h : phase.isOpen = true) :
    phase.isDrained = false := by cases phase <;> first | rfl | cases h

theorem isOpen_of_isRegistered {phase : Phase} (h : phase.isRegistered = true) :
    phase.isOpen = true := by cases phase <;> first | rfl | cases h

theorem Registry.setTransfer {n : Nat} {t : Transfer} (t' : Transfer) (h : s.Registry)
    (hn : s.transfers n = some t) (hphase : t'.phase.isRegistered = t.phase.isRegistered) :
    (s.setTransfer n t').Registry where
  phase := by
    intro m other hm
    by_cases hmn : m = n
    · subst hmn
      rw [setTransfer_self] at hm
      rw [← Option.some.inj hm, hphase]
      exact h.phase m t hn
    · rw [setTransfer_ne _ _ hmn] at hm
      exact h.phase m other hm
  registered := by
    intro m hm
    by_cases hmn : m = n
    · rw [hmn, setTransfer_self]
      rfl
    · rw [setTransfer_ne _ _ hmn]
      exact h.registered m hm

theorem Registry.unregister (t' : Transfer) (h : s.Registry) (hn : s.transfers n = some t)
    (hbefore : t.phase.isRegistered = true) (hafter : t'.phase.isRegistered = false)
    (htransfers : s'.transfers = (s.setTransfer n t').transfers)
    (hregistered : s'.registered = none) :
    s'.Registry where
  phase := by
    intro m other hm
    rw [htransfers] at hm
    rw [hregistered]
    by_cases hmn : m = n
    · subst hmn
      rw [setTransfer_self] at hm
      rw [← Option.some.inj hm, hafter]
      exact iff_of_false nofun nofun
    · rw [setTransfer_ne _ _ hmn] at hm
      rw [h.phase m other hm, (h.phase n t hn).mp hbefore]
      exact iff_of_false (fun heq => hmn (Option.some.inj heq).symm) nofun
  registered := by
    intro m hm
    rw [hregistered] at hm
    cases hm

theorem fits_setTransfer {t' : Transfer} (h : ∀ n t, s.transfers n = some t → t.Fits packages)
    (ht' : t'.Fits packages) :
    ∀ m t, (s.setTransfer n t').transfers m = some t → t.Fits packages := by
  intro m t hm
  by_cases hmn : m = n
  · subst hmn
    rw [setTransfer_self] at hm
    exact Option.some.inj hm ▸ ht'
  · rw [setTransfer_ne _ _ hmn] at hm
    exact h m t hm

section

variable (h : s.Sound packages)

include h

/-- A transfer that still takes commands gets some. -/
theorem Sound.send {inbox : List Command} (hn : s.transfers n = some t)
    (hopen : t.phase.isOpen = true) (hreplies : s'.Replies)
    (htransfers : s'.transfers = (s.setTransfer n { t with inbox := inbox }).transfers)
    (hregistered : s'.registered = s.registered) (hpool : s'.pool = s.pool) :
    s'.Sound packages where
  replies := hreplies
  registry := (h.registry.setTransfer { t with inbox := inbox } hn rfl).of_eq htransfers hregistered
  fits := by
    rw [htransfers]
    exact fits_setTransfer h.fits (send_fits (h.fits n t hn) (isDrained_of_isOpen hopen) inbox)
  named := hpool ▸ h.named

theorem Sound.cancel {n : Nat} {t : Transfer} (hn : s.transfers n = some t)
    (hopen : t.phase.isOpen = true) : (s.send n t .cancel).Sound packages := by
  refine h.send hn hopen ?_ rfl rfl rfl
  refine h.replies.send hn rfl rfl (fun _ _ hread => hread) List.nodup_nil ?_ ?_ ?_
    (fun _ hchannel => hchannel) fun _ _ hcall _ => hcall
  · intro channel hmem
    cases hmem
  · intro channel
    exact (if_neg List.not_mem_nil).symm
  · intro read position hmem
    simp at hmem

theorem Sound.sendRead {read n position : Nat} {t : Transfer} (hnew : s.reads read = none)
    (hn : s.transfers n = some t) : (s.sendRead read n position t).Sound packages := by
  have hreplies : (s.sendRead read n position t).Replies := h.replies.sendRead hnew hn
  unfold State.sendRead at hreplies ⊢
  by_cases hopen : t.phase.isOpen = true
  · rw [if_pos hopen] at hreplies ⊢
    exact h.send hn hopen hreplies rfl rfl rfl
  · rw [if_neg hopen] at hreplies ⊢
    exact ⟨hreplies, h.registry.of_eq rfl rfl, h.fits, h.named⟩

theorem Sound.registerCall {i fresh : Nat} {call : Call} {row : Row} (hcall : s.calls i = some call)
    (hheld : call.phase.isHeld = true) : (s.registerCall i call row fresh).Sound packages := by
  unfold State.registerCall
  cases hregistered : s.registered with
  | some n =>
    simp only
    cases hn : s.transfers n with
    | none => exact h
    | some t =>
      simp only
      split
      · have hopen := isOpen_of_isRegistered ((h.registry.phase n t hn).mpr hregistered)
        exact h.send hn hopen (h.replies.attach hcall hheld hn) rfl rfl rfl
      · exact h.settleCall (isUnsent_of_isHeld hcall hheld) rfl
  | none =>
    simp only
    split
    · rename_i hfresh
      rw [Option.isNone_iff_eq_none] at hfresh
      let t : Transfer :=
        { attachment := call.attachment, pendingId := row.id, made := row.made, inbox := [],
          reads := [], waiters := [], body := [], plain := [], phase := .starting }
      let inbox : List Command := if call.waits then [.wait i] else []
      have hspawn : (s.setTransfer fresh t).Replies := h.replies.spawn hfresh rfl rfl rfl
      have hattach := hspawn.attach hcall hheld (setTransfer_self s fresh t)
      have hfits : Transfer.Fits packages { t with inbox := inbox } :=
        ⟨fun _ => rfl, nofun, nofun, nofun⟩
      refine ⟨hattach.of_eq (Function.update_idem _ _ _).symm rfl rfl rfl, ⟨?_, ?_⟩,
        fits_setTransfer h.fits hfits, h.named⟩
      · intro m other hm
        by_cases hmn : m = fresh
        · subst hmn
          have heq : other = { t with inbox := inbox } :=
            (Option.some.inj ((setTransfer_self s m { t with inbox := inbox }).symm.trans hm)).symm
          rw [heq]
          exact iff_of_true rfl rfl
        · have hm : s.transfers m = some other :=
            (setTransfer_ne s { t with inbox := inbox } hmn).symm.trans hm
          rw [h.registry.phase m other hm, hregistered]
          exact iff_of_false nofun fun heq => hmn (Option.some.inj heq).symm
      · intro m hm
        have hmn : m = fresh := (Option.some.inj hm).symm
        rw [hmn]
        exact congrArg Option.isSome (setTransfer_self s fresh { t with inbox := inbox })
    · exact h

end

/-- A transfer takes a turn, and what it shares with others follows. -/
theorem Sound.turn {n : Nat} {t : Transfer} {action : TaskAction} {turn : Turn}
    (hinj : Function.Injective packages.blake3) (h : s.Sound packages) (hn : s.transfers n = some t)
    (hturn : t.HasTurn packages s.row s.pool action turn) :
    (((s.setTransfer n turn.transfer).give turn.replies).apply turn.transfer
      turn.effect).Sound packages := by
  have hfits := h.fits n t hn
  have hkeeps := Transfer.turn_keeps hinj h.named hfits hturn
  have hreplies := h.replies.turn hn hkeeps
  have hallFit : ∀ m other, (s.setTransfer n turn.transfer).transfers m = some other →
      other.Fits packages :=
    fits_setTransfer h.fits (Transfer.turn_fits h.named hfits hturn)
  have hkept : turn.effect ≠ .unregister →
      Sound packages ((s.setTransfer n turn.transfer).give turn.replies) := fun hne =>
    ⟨hreplies, (h.registry.setTransfer turn.transfer hn (hkeeps.registered hne)).of_eq rfl rfl,
      hallFit, h.named⟩
  rcases Transfer.turn_effect hturn with (heffect | heffect) | ⟨-, heffect⟩ | ⟨name, -, heffect⟩ |
    heffect
  · rw [heffect]
    exact hkept (by rw [heffect]; nofun)
  · rw [heffect]
    exact (hkept (by rw [heffect]; nofun)).of_eq rfl rfl rfl rfl rfl h.named
  · rw [heffect]
    exact (hkept (by rw [heffect]; nofun)).of_eq rfl rfl rfl rfl rfl (areNamed_adopt h.named _)
  · rw [heffect]
    exact (hkept (by rw [heffect]; nofun)).of_eq rfl rfl rfl rfl rfl h.named
  · obtain ⟨hbefore, hafter⟩ := hkeeps.unregisters heffect
    rw [heffect]
    exact ⟨hreplies.of_eq rfl rfl rfl rfl,
      h.registry.unregister turn.transfer hn hbefore hafter rfl rfl, hallFit, h.named⟩

theorem Replies.start : State.start.Replies := by
  refine ⟨?_, ?_, ?_, ?_, ?_, ?_, ?_, ?_⟩
  · intro n t hn
    cases hn
  · intro n t hn
    cases hn
  · exact fun channel => Nat.zero_le 1
  · exact fun channel hunsent => rfl
  · intro channel n hsent
    cases channel <;> cases hsent
  · intro n t read position hn
    cases hn
  · intro channel start plain hmem
    cases hmem
  · intro i call hcall
    cases hcall

theorem Sound.start : State.start.Sound packages := by
  refine ⟨.start, ⟨?_, ?_⟩, ?_, ?_⟩
  · intro n t hn
    cases hn
  · intro n hregistered
    cases hregistered
  · intro n t hn
    cases hn
  · intro name plain hplain
    cases hplain

theorem Sound.lookFor {i : Nat} {call : Call} {row : Row} (h : s.Sound packages)
    (hcall : s.calls i = some call) (hheld : call.phase.isHeld = true) :
    (s.lookFor i call row).Sound packages := by
  have hunsent := isUnsent_of_isHeld hcall hheld
  unfold State.lookFor
  split
  · split
    · exact (h.settleCall hunsent rfl).of_eq rfl rfl rfl rfl rfl h.named
    · exact h.setCall hunsent rfl
  · exact h.settleCall hunsent rfl

theorem Sound.askFor {mxc : String} {i : Nat} {attachment : MatrixAttachment} {waits : Bool}
    (h : s.Sound packages) : (s.askFor mxc i attachment waits).Sound packages := by
  unfold State.askFor
  split
  · rename_i hnew
    rw [Option.isNone_iff_eq_none] at hnew
    refine h.setCall (fun call hcall => ?_) rfl
    rw [hnew.1] at hcall
    cases hcall
  · exact h

theorem Sound.step {mxc : String} (hinj : Function.Injective packages.blake3) (h : s.Sound packages)
    (action : Action) : (step packages mxc s action).Sound packages := by
  unfold MatrixDownload.step
  cases action with
  | arrive description id =>
    simp only
    split
    · obtain ⟨row, made, heq⟩ := mediaRowId_cases mxc s description id
      exact heq ▸ h.setRow row made
    · exact h
  | ask i attachment waits => exact h.askFor
  | askAddress i visible waits =>
    simp only
    split
    · exact h.askFor
    · exact h
  | begin i id =>
    simp only
    cases hcall : s.calls i with
    | none => exact h
    | some call =>
      simp only
      split
      · rename_i hasked
        obtain ⟨row, made, heq⟩ := mediaRowId_cases mxc s
          (MediaDescription.ofMatrixAttachment call.attachment) id
        have hheld : call.phase.isHeld = true := by rw [hasked.2]; rfl
        have hunsent := isUnsent_of_isHeld hcall hheld
        rw [heq]
        split
        · exact (h.setRow row made).setCall hunsent rfl
        · exact (h.setRow row made).settleCall hunsent rfl
      · exact h
  | look i =>
    simp only
    cases hcall : s.calls i with
    | none => exact h
    | some call =>
      simp only
      split
      · rename_i hphase hseen
        exact h.lookFor hcall (by rw [hphase]; rfl)
      · exact h
  | register i fresh =>
    simp only
    cases hcall : s.calls i with
    | none => exact h
    | some call =>
      simp only
      split
      · rename_i hphase hseen
        exact h.registerCall hcall (by rw [hphase]; rfl)
      · exact h
  | giveUp i =>
    simp only
    cases hcall : s.calls i with
    | none => exact h
    | some call =>
      simp only
      have hsettle : call.phase.isHeld = true →
          (s.settleCall i call .refused).Sound packages := fun hheld =>
        h.settleCall (isUnsent_of_isHeld hcall hheld) rfl
      split
      · rename_i hphase
        exact hsettle (by rw [hphase]; rfl)
      · rename_i hphase
        exact hsettle (by rw [hphase]; rfl)
      · rename_i hphase
        exact hsettle (by rw [hphase]; rfl)
      · exact h
  | readCopy i =>
    simp only
    split
    · split
      · unfold State.readAgain
        split
        · exact h.of_eq rfl rfl rfl rfl rfl h.named
        · exact h
      · exact h
    · exact h
  | read read n position =>
    simp only
    split
    · rename_i t hn hnew
      exact h.sendRead hnew hn
    · exact h
  | cancel n =>
    simp only
    cases hn : s.transfers n with
    | none => exact h
    | some t =>
      simp only
      split
      · rename_i hopen
        exact h.cancel hn hopen
      · exact h
  | task n action =>
    simp only
    cases hn : s.transfers n with
    | none => exact h
    | some t =>
      simp only
      split
      · exact h
      · split
        · rename_i turn hturn
          exact h.turn hinj hn (Transfer.turn_cases hturn)
        · exact h
  | reset =>
    simp only
    split
    · split
      · split <;> exact h.of_eq rfl rfl rfl rfl rfl h.named
      · exact h
    · exact h
  | giveUpCopy | deleteLook others =>
    simp only
    split
    · exact h.of_eq rfl rfl rfl rfl rfl h.named
    · exact h
  | deleteRun removesFile =>
    simp only
    split
    · split
      · split
        · exact h.of_eq rfl rfl rfl rfl rfl h.named
        · refine h.of_eq rfl rfl rfl rfl rfl ?_
          simp only
          split
          · split
            · exact areNamed_update_none h.named _
            · exact h.named
          · exact h.named
      · exact h.of_eq rfl rfl rfl rfl rfl h.named
    · exact h
  | keepFile plain => exact h.of_eq rfl rfl rfl rfl rfl (areNamed_adopt h.named plain)
  | removeFile name => exact h.of_eq rfl rfl rfl rfl rfl (areNamed_update_none h.named name)
  | restart =>
    have hstart : State.start.Sound packages := .start
    exact hstart.of_eq rfl rfl rfl rfl rfl h.named

end State

end MatrixDownload
end WbfMatrixClient
