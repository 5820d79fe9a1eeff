import WbfMatrixClient.UploadReplies

/-!
# When sending a file ends

The chunk that `send_chunks` sends next is the one that the server names. Only a chunk that was
refused must not be named again at once; nothing else keeps the server from naming chunks of the
file for ever. Whether the call ends can be read from the answers alone: from what chunk each of
them names, whether the file holds this chunk, and whether the answer is one to go on after.
-/

namespace WbfMatrixClient
namespace UploadReplies

open Rounds
open UploadRoundTrip (remaining)

/-- The chunk that was named last before an answer; the call begins with the first. -/
def wanted (answers : Nat → Answer) (first : Nat) : Nat → Nat
  | 0 => first
  | n + 1 => (named (answers n)).getD (wanted answers first n)

/-- An answer to go on after: an acknowledgement, another chunk that is out of turn, or a request
that arrived corrupted for the first time. -/
def GoesOn (total first : Nat) (answers : Nat → Answer) (n : Nat) : Prop :=
  match answers n with
  | .ok _ => True
  | .error e =>
      (e.wbfCode = some .corrupt ∧ ∀ m, n = m + 1 → corrupted (answers m) = false) ∨
        ∃ expected, expectedSeqOf e = some expected ∧
          expected ≠ wanted answers first n ∧ expected ≤ total

/-- At this answer there is a chunk to be sent, the file holds it, and the answer is one to go on
after. -/
structure KeepsSending (fileSize chunkSize total first : Nat) (content : List UInt8)
    (answers : Nat → Answer) (n : Nat) : Prop where
  inside : wanted answers first n < total
  readable : min ((wanted answers first n + 1) * chunkSize) fileSize ≤ content.length
  goesOn : GoesOn total first answers n

/-- A corrupted request names no chunk. -/
theorem named_of_corrupted {answer : Answer} (h : corrupted answer = true) :
    named answer = none := by
  cases answer with
  | ok ack => cases h
  | error e =>
    have hcode : e.wbfCode = some .corrupt := of_decide_eq_true h
    unfold named
    dsimp only
    cases hexpected : expectedSeqOf e with
    | none => rfl
    | some expected =>
      rw [wbfCode_of_expectedSeqOf hexpected] at hcode
      cases hcode

section Loop

variable {answers : Nat → Answer} {first : Nat}

/-- A chunk's last answer: the loop takes the chunk that it names, or the call fails. -/
theorem answered_cases (loop : SendChunks) {n : Nat}
    (hlast : corrupted (answers n) = true → ∃ m, n = m + 1 ∧ corrupted (answers m) = true) :
    (∃ truncated, loop.answered (wanted answers first n) (answers n) =
        .ok { loop with index := wanted answers first (n + 1), truncated := truncated } ∧
      GoesOn loop.total first answers n ∧ corrupted (answers n) = false) ∨
    (∃ e, loop.answered (wanted answers first n) (answers n) = .error e) ∧
      ¬GoesOn loop.total first answers n := by
  unfold GoesOn
  rw [wanted]
  cases hanswer : answers n with
  | ok ack => exact .inl ⟨ack.truncated, rfl, trivial, rfl⟩
  | error e =>
    have hcorrupt : e.wbfCode = some .corrupt →
        ¬∀ m, n = m + 1 → corrupted (answers m) = false := by
      intro hcode hquiet
      obtain ⟨m, hm, htwice⟩ := hlast (by rw [hanswer]; exact decide_eq_true hcode)
      rw [hquiet m hm] at htwice
      cases htwice
    simp only [SendChunks.answered, named]
    cases hexpected : expectedSeqOf e with
    | none =>
      refine .inr ⟨?_, ?_⟩
      · split_ifs <;> exact ⟨_, rfl⟩
      · rintro (⟨hcode, hquiet⟩ | ⟨expected, h, -⟩)
        · exact hcorrupt hcode hquiet
        · cases h
    | some expected =>
      have hcode := wbfCode_of_expectedSeqOf hexpected
      rw [if_pos hcode]
      simp only
      by_cases hbad : expected = wanted answers first n ∨ loop.total < expected
      · rw [if_pos hbad]
        refine .inr ⟨⟨_, rfl⟩, ?_⟩
        rintro (⟨hcode', -⟩ | ⟨found, h, hne, hle⟩)
        · rw [hcode] at hcode'
          cases hcode'
        · cases h
          rcases hbad with heq | hlt
          · exact hne heq
          · omega
      · rw [if_neg hbad]
        refine .inl ⟨loop.truncated, rfl, .inr ⟨expected, rfl, ?_, ?_⟩, ?_⟩
        · exact fun heq => hbad (.inl heq)
        · exact Nat.le_of_not_lt fun hlt => hbad (.inr hlt)
        · rw [corrupted, hcode]
          rfl

end Loop

section Round

variable (packages : Packages) (content : List UInt8)

/-- What the loop does with the chunk that it has come to. -/
theorem next_cases (loop : SendChunks)
    (hcount : chunkCount loop.fileSize loop.chunkSize = some loop.total) :
    (loop.index < loop.total ∧
        min ((loop.index + 1) * loop.chunkSize) loop.fileSize ≤ content.length ∧
        ∃ plain isLast, plain.length ≤ loop.chunkSize ∧
          loop.next packages content = .ok (.send loop.index plain isLast loop)) ∨
      (¬(loop.index < loop.total ∧
          min ((loop.index + 1) * loop.chunkSize) loop.fileSize ≤ content.length) ∧
        ((∃ e, loop.next packages content = .error e) ∨
          ∃ summary, loop.next packages content = .ok (.done summary))) := by
  unfold SendChunks.next
  by_cases hindex : loop.index < loop.total
  · have hstart := (lt_chunkCount_iff hcount).mp hindex
    have hends : loop.index * loop.chunkSize +
        min (loop.fileSize - loop.index * loop.chunkSize) loop.chunkSize =
          min ((loop.index + 1) * loop.chunkSize) loop.fileSize := by
      rw [Nat.add_mul, Nat.one_mul]
      omega
    rw [if_pos hindex, expectedPlainLen_of_lt hcount hindex]
    simp only
    rw [if_neg (Nat.not_lt_of_le (Nat.min_le_right _ _))]
    unfold ByteFile.readExact
    rw [hends]
    by_cases hread : min ((loop.index + 1) * loop.chunkSize) loop.fileSize ≤ content.length
    · rw [if_pos hread]
      refine .inl ⟨hindex, hread, _, _, ?_, rfl⟩
      exact (List.length_take_le _ _).trans (Nat.min_le_right _ _)
    · rw [if_neg hread]
      exact .inr ⟨fun h => hread h.2, .inl ⟨_, rfl⟩⟩
  · rw [if_neg hindex]
    refine .inr ⟨fun h => hindex h.1, ?_⟩
    split_ifs
    · cases SendChunks.hashReader packages content loop.fileSize with
      | error e => exact .inl ⟨e, rfl⟩
      | ok sha256 => exact .inr ⟨_, rfl⟩
    · exact .inr ⟨_, rfl⟩

variable {packages content} {answers : Nat → Answer} {first : SendChunks}

/-- Before a round: the chunk that was named last is the next one, and it is not being sent for
the second time. -/
structure Ready (first : SendChunks) (answers : Nat → Answer) (s : Sending) : Prop where
  cipher : s.task.file.chunkSize = first.chunkSize
  loop : ∃ truncated, s.task.loop = .sendChunks
    { first with index := wanted answers first.index s.log.length, truncated := truncated }
  quiet : ∀ m, s.log.length = m + 1 → corrupted (answers m) = false

/-- The chunk of a round when its last answer is there, at whatever place it came. -/
theorem round_of_answer (loop : SendChunks) {s : Sending} {n : Nat} {data plain : List UInt8}
    {isLast : Bool} {log : Log} (hloop : s.task.loop = .sendChunks loop)
    (hindex : loop.index = wanted answers first.index n)
    (hnext : loop.next packages content = .ok (.send loop.index plain isLast loop))
    (hseal : s.task.file.sealChunk packages loop.index plain = .ok data)
    (hlast : corrupted (answers n) = true → ∃ m, n = m + 1 ∧ corrupted (answers m) = true)
    (hreply : sendChunk (inOrder answers)
      { uploadId := s.task.state.uploadId, index := loop.index, data := data, isLast := isLast }
        s.log = (answers n, log)) :
    (∃ task truncated, round packages content answers s = .again { task := task, log := log } ∧
        task.file = s.task.file ∧ task.loop = .sendChunks
          { loop with index := wanted answers first.index (n + 1), truncated := truncated } ∧
        GoesOn loop.total first.index answers n ∧ corrupted (answers n) = false) ∨
      (∃ sent, round packages content answers s = .ends sent) ∧
        ¬GoesOn loop.total first.index answers n := by
  have hsend : s.task.loop.next packages (remaining content s.task.loop) =
      .ok (.send loop.index plain isLast (.sendChunks loop)) := by
    rw [hloop]
    show (loop.next packages content).map (Next.map Loop.sendChunks) = _
    rw [hnext]
    rfl
  have hround := round_of_send hsend hseal hreply
  simp only [Loop.answered] at hround
  rw [hindex] at hround
  rcases answered_cases loop hlast with ⟨truncated, hok, hgoes, hquiet⟩ | ⟨⟨e, herror⟩, hnot⟩
  · rw [hok] at hround
    exact .inl ⟨_, truncated, hround, rfl, rfl, hgoes, hquiet⟩
  · rw [herror] at hround
    exact .inr ⟨⟨_, hround⟩, hnot⟩

/-- A round goes on exactly when every answer that it takes is one to go on after. -/
theorem round_cases (hcount : chunkCount first.fileSize first.chunkSize = some first.total)
    {s : Sending} (hs : Ready first answers s) :
    (∃ s', round packages content answers s = .again s' ∧ Ready first answers s' ∧
        s.log.length < s'.log.length ∧ ∀ n, s.log.length ≤ n → n < s'.log.length →
          KeepsSending first.fileSize first.chunkSize first.total first.index content answers n) ∨
      (∃ sent, round packages content answers s = .ends sent) ∧ ∃ n,
        ¬KeepsSending first.fileSize first.chunkSize first.total first.index content answers n := by
  obtain ⟨truncated, hloop⟩ := hs.loop
  let loop : SendChunks :=
    { first with index := wanted answers first.index s.log.length, truncated := truncated }
  rcases next_cases packages content loop hcount with
    ⟨hinside, hreadable, plain, isLast, hlength, hnext⟩ | ⟨hstop, hnext⟩
  · obtain ⟨data, hseal⟩ : ∃ data, s.task.file.sealChunk packages
        (wanted answers first.index s.log.length) plain = .ok data := by
      have hmost := (chunkCount_eq_some_iff.mp hcount).2.1
      refine ⟨_, FileCipher.sealChunk_eq_ok_iff.mpr ⟨?_, hs.cipher.symm ▸ hlength, rfl⟩⟩
      exact Nat.le_of_lt_succ (Nat.lt_of_lt_of_le hinside hmost)
    cases hfirst : corrupted (answers s.log.length) with
    | false =>
      rcases round_of_answer loop hloop rfl hnext hseal
        (fun h => by rw [hfirst] at h; cases h) (sendChunk_of_not_corrupted hfirst) with
        ⟨task, truncated', hround, hfile, hloop', hgoes, hquiet⟩ | ⟨hends, hnot⟩
      · refine .inl ⟨_, hround, ⟨hfile ▸ hs.cipher, ⟨truncated', ?_⟩, fun m hm => ?_⟩, by simp,
          fun n hle hlt => ?_⟩
        · simpa using hloop'
        · simp only [List.length_append, List.length_singleton] at hm
          cases hm
          exact hquiet
        · simp only [List.length_append, List.length_singleton] at hlt
          obtain rfl : n = s.log.length := by omega
          exact ⟨hinside, hreadable, hgoes⟩
      · exact .inr ⟨hends, _, fun h => hnot h.goesOn⟩
    | true =>
      have hsame : wanted answers first.index (s.log.length + 1) =
          wanted answers first.index s.log.length := by
        rw [wanted, named_of_corrupted hfirst]
        rfl
      rcases round_of_answer loop hloop hsame.symm hnext hseal
        (fun _ => ⟨_, rfl, hfirst⟩) (sendChunk_of_corrupted hfirst) with
        ⟨task, truncated', hround, hfile, hloop', hgoes, hquiet⟩ | ⟨hends, hnot⟩
      · refine .inl ⟨_, hround, ⟨hfile ▸ hs.cipher, ⟨truncated', ?_⟩, fun m hm => ?_⟩, by simp,
          fun n hle hlt => ?_⟩
        · simpa using hloop'
        · simp only [List.length_append, List.length_cons, List.length_nil] at hm
          obtain rfl : m = s.log.length + 1 := by omega
          exact hquiet
        · simp only [List.length_append, List.length_cons, List.length_nil] at hlt
          rcases Nat.eq_or_lt_of_le hle with rfl | hgt
          · refine ⟨hinside, hreadable, ?_⟩
            unfold GoesOn
            cases hanswer : answers s.log.length with
            | ok ack => trivial
            | error e =>
              rw [hanswer] at hfirst
              exact .inl ⟨of_decide_eq_true hfirst, hs.quiet⟩
          · obtain rfl : n = s.log.length + 1 := by omega
            exact ⟨hsame ▸ hinside, hsame ▸ hreadable, hgoes⟩
      · exact .inr ⟨hends, _, fun h => hnot h.goesOn⟩
  · refine .inr ⟨?_, s.log.length, fun h => hstop ⟨h.inside, h.readable⟩⟩
    have hmap : s.task.loop.next packages (remaining content s.task.loop) =
        (loop.next packages content).map (Next.map Loop.sendChunks) := by
      rw [hloop]
      rfl
    rcases hnext with ⟨e, hnext⟩ | ⟨summary, hnext⟩
    · have herror : s.task.loop.next packages (remaining content s.task.loop) = .error e := by
        rw [hmap, hnext]
        rfl
      exact ⟨_, round_of_error herror⟩
    · have hdone : s.task.loop.next packages (remaining content s.task.loop) =
          .ok (.done summary) := by
        rw [hmap, hnext]
        rfl
      exact ⟨_, round_of_done hdone⟩

theorem ends_iff_of_ready (hcount : chunkCount first.fileSize first.chunkSize = some first.total)
    {task : Task} (hready : Ready first answers { task := task, log := [] }) :
    Ends (round packages content answers) { task := task, log := [] } ↔ ∃ n,
      ¬KeepsSending first.fileSize first.chunkSize first.total first.index content answers n := by
  constructor
  · intro hends
    by_contra hall
    refine not_ends (Ready first answers) (fun s hs => ?_) hready hends
    rcases round_cases hcount hs with ⟨s', hround, hs', -⟩ | ⟨-, n, hnot⟩
    · exact ⟨s', hround, hs'⟩
    · exact (hall ⟨n, hnot⟩).elim
  · rintro ⟨n, hnot⟩
    -- Every round takes answers to go on after, and the one that is none is still to come.
    refine ends_of_measure (fun s => Ready first answers s ∧ ∀ m < s.log.length,
        KeepsSending first.fileSize first.chunkSize first.total first.index content answers m)
      (fun s => n + 1 - s.log.length) (fun s s' hs hround => ?_)
      ⟨hready, fun m hm => absurd hm (Nat.not_lt_zero m)⟩
    obtain ⟨hs, hbefore⟩ := hs
    rcases round_cases hcount hs with ⟨next, hnext, hs', hlonger, hkeeps⟩ | ⟨⟨sent, hends⟩, -⟩
    · rw [hround] at hnext
      cases hnext
      have hfar : s.log.length ≤ n := Nat.le_of_not_lt fun hlt => hnot (hbefore n hlt)
      refine ⟨⟨hs', fun m hm => ?_⟩, by omega⟩
      rcases Nat.lt_or_ge m s.log.length with hlt | hge
      · exact hbefore m hlt
      · exact hkeeps m hge hm
    · rw [hround] at hends
      cases hends

end Round

theorem SendChunks.start_eq {state : UploadState} {fromChunk fileSize total : Nat} {hash : Bool}
    {file : FileCipher} (hsize : state.block.fileSize = some fileSize)
    (hcount : chunkCount fileSize state.block.chunkSize = some total) (hfrom : fromChunk ≤ total)
    (hfile : state.fileCipher = .ok file) :
    SendChunks.start state fromChunk hash = .ok (file,
      { fileSize := fileSize, chunkSize := state.block.chunkSize, total := total, hash := hash,
        index := fromChunk, truncated := false }) := by
  simp only [SendChunks.start, hsize, hcount, hfile]
  rw [if_neg (Nat.not_lt_of_le hfrom)]

/-- What the call checks before it sends anything. -/
theorem SendChunks.start_cases (state : UploadState) (fromChunk : Nat) (hash : Bool) :
    (∃ fileSize total file, state.block.fileSize = some fileSize ∧
        chunkCount fileSize state.block.chunkSize = some total ∧ fromChunk ≤ total ∧
        state.fileCipher = .ok file) ∨
      ∃ e, SendChunks.start state fromChunk hash = .error e := by
  simp only [SendChunks.start]
  cases hsize : state.block.fileSize with
  | none => exact .inr ⟨_, rfl⟩
  | some fileSize =>
    simp only
    cases hcount : chunkCount fileSize state.block.chunkSize with
    | none => exact .inr ⟨_, rfl⟩
    | some total =>
      simp only
      split_ifs with hfrom
      · exact .inr ⟨_, rfl⟩
      · cases hfile : state.fileCipher with
        | error e => exact .inr ⟨e, rfl⟩
        | ok file => exact .inl ⟨fileSize, total, file, rfl, hcount, by omega, rfl⟩

theorem ready_start (answers : Nat → Answer) (loop : SendChunks) {state : UploadState}
    {file : FileCipher} (hfile : state.fileCipher = .ok file)
    (hsize : loop.chunkSize = state.block.chunkSize) :
    Ready loop answers { task := { state := state, file := file, loop := .sendChunks loop },
                         log := [] } where
  cipher := (UploadState.params_of_fileCipher hfile).2.2.2.2.1.symm.trans hsize.symm
  loop := ⟨loop.truncated, rfl⟩
  quiet m hm := by cases hm

/-- For every file and all answers: `send_chunks` returns exactly when it does not begin to send,
or when some answer is not one that keeps it sending. -/
theorem send_chunks_ends_iff (packages : Packages) (state : UploadState) (content : List UInt8)
    (fromChunk : Nat) (hash : Bool) (status : Except SdkError StatusAck) (answers : Nat → Answer) :
    CallEnds packages state content (.sendChunks fromChunk hash) status answers ↔
      ∀ fileSize total, state.block.fileSize = some fileSize →
        chunkCount fileSize state.block.chunkSize = some total → fromChunk ≤ total →
        (∃ file, state.fileCipher = .ok file) →
        ∃ n, ¬KeepsSending fileSize state.block.chunkSize total fromChunk content answers n := by
  have hends : ∀ {fileSize total : Nat} {file : FileCipher},
      state.block.fileSize = some fileSize →
      chunkCount fileSize state.block.chunkSize = some total → fromChunk ≤ total →
      state.fileCipher = .ok file →
      (CallEnds packages state content (.sendChunks fromChunk hash) status answers ↔
        ∃ n, ¬KeepsSending fileSize state.block.chunkSize total fromChunk content answers n) := by
    intro fileSize total file hsize hcount hfrom hfile
    have hstart : (Call.sendChunks fromChunk hash).start state status content = .ok
        { state := state, file := file,
          loop := .sendChunks
            { fileSize := fileSize, chunkSize := state.block.chunkSize, total := total,
              hash := hash, index := fromChunk, truncated := false } } := by
      rw [Call.start, Call.startLoop, SendChunks.start_eq hsize hcount hfrom hfile]
      rfl
    simp only [CallEnds, CallReturns, hstart]
    exact ends_iff_of_ready hcount (ready_start answers _ hfile rfl)
  constructor
  · rintro hreturns fileSize total hsize hcount hfrom ⟨file, hfile⟩
    exact (hends hsize hcount hfrom hfile).mp hreturns
  · intro h
    rcases SendChunks.start_cases state fromChunk hash with
      ⟨fileSize, total, file, hsize, hcount, hfrom, hfile⟩ | ⟨e, hstart⟩
    · exact (hends hsize hcount hfrom hfile).mpr (h fileSize total hsize hcount hfrom ⟨file, hfile⟩)
    · have herror : (Call.sendChunks fromChunk hash).start state status content = .error e := by
        rw [Call.start, Call.startLoop, hstart]
        rfl
      simp only [CallEnds, CallReturns, herror]
      exact ⟨_, rfl⟩

/-- A server that acknowledges every chunk and still wants the first one. -/
def wantsFirst : Nat → Answer :=
  fun _ => .ok { received := 0, finished := false, truncated := false }

theorem keepsSending_wantsFirst (n : Nat) : KeepsSending 3 2 2 0 [1, 2, 3] wantsFirst n := by
  have hwanted : wanted wantsFirst 0 n = 0 := by cases n <;> rfl
  constructor
  · rw [hwanted]
    decide
  · rw [hwanted]
    decide
  · trivial

theorem send_chunks_sends_forever :
    ¬∀ (packages : Packages) (state : UploadState) (content : List UInt8) (fromChunk : Nat)
      (hash : Bool) (status : Except SdkError StatusAck) (answers : Nat → Answer),
      CallEnds packages state content (.sendChunks fromChunk hash) status answers := by
  intro h
  let loop : SendChunks :=
    { fileSize := 3, chunkSize := 2, total := 2, hash := false, index := 0, truncated := false }
  have hfile : (UploadRoundTrip.exampleState (some 3)).fileCipher =
      .ok UploadRoundTrip.exampleFile := by decide
  have hcount : chunkCount loop.fileSize loop.chunkSize = some loop.total := by decide
  have hends : Ends (round UploadRoundTrip.wholePackages [1, 2, 3] wantsFirst)
      { task := { state := UploadRoundTrip.exampleState (some 3),
                  file := UploadRoundTrip.exampleFile, loop := .sendChunks loop },
        log := [] } :=
    h UploadRoundTrip.wholePackages (UploadRoundTrip.exampleState (some 3)) [1, 2, 3] 0 false
      (.error (.network "connection closed")) wantsFirst
  obtain ⟨n, hnot⟩ := (ends_iff_of_ready hcount (ready_start wantsFirst loop hfile rfl)).mp hends
  exact hnot (keepsSending_wantsFirst n)

end UploadReplies
end WbfMatrixClient
