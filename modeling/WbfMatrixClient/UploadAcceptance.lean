import WbfMatrixClient.UploadReplies

/-!
# What the two loops for a known size accept

A file and a body of known size are sent by two loops. Either returns only when every chunk was
acknowledged or when the server has said, in an answer or in the status that the call begins with,
that it wants a later one. To an answer that a chunk is out of order they do the same when it names
a later chunk; to one that names an earlier chunk only the loop that reads a file can go back.
-/

namespace WbfMatrixClient
namespace UploadReplies

open Rounds
open UploadRoundTrip (remaining)

/-- A request for the chunk was acknowledged. -/
def Acked (log : Log) (index : Nat) : Prop :=
  ∃ request ack, request.index = index ∧ (request, .ok ack) ∈ log

/-- An answer names a later chunk. -/
def Declared (log : Log) (index : Nat) : Prop :=
  ∃ request answer next, (request, answer) ∈ log ∧ named answer = some next ∧ index < next

/-- The chunk was there when the call began, it was acknowledged, or an answer says that it is
there. -/
def Covered (begun : Nat) (log : Log) (index : Nat) : Prop :=
  index < begun ∨ Acked log index ∨ Declared log index

theorem Covered.mono {begun index : Nat} {log log' : Log} (h : Covered begun log index)
    (hlog : ∀ entry ∈ log, entry ∈ log') : Covered begun log' index := by
  rcases h with hbegun | ⟨request, ack, hindex, hmem⟩ | ⟨request, answer, next, hmem, hnamed⟩
  · exact .inl hbegun
  · exact .inr (.inl ⟨request, ack, hindex, hlog _ hmem⟩)
  · exact .inr (.inr ⟨request, answer, next, hlog _ hmem, hnamed⟩)

section Rounds

variable {packages : Packages} {content : List UInt8} {answers : Nat → Answer} {s : Sending}

variable {answer : Answer}

/-- The answer that a chunk comes to is kept with its request. -/
theorem mem_of_sendChunk {request : ChunkRequest} {log log' : Log}
    (h : sendChunk (inOrder answers) request log = (answer, log')) :
    (request, answer) ∈ log' ∧ ∀ entry ∈ log, entry ∈ log' := by
  cases hfirst : corrupted (answers log.length) with
  | false =>
    rw [sendChunk_of_not_corrupted hfirst] at h
    cases h
    exact ⟨by simp, fun entry hentry => List.mem_append_left _ hentry⟩
  | true =>
    rw [sendChunk_of_corrupted hfirst] at h
    cases h
    exact ⟨by simp, fun entry hentry => List.mem_append_left _ hentry⟩

variable {index : Nat}

/-- A round that sends: the answer, and what the loop makes of it. -/
theorem round_of_sends {plain : List UInt8} {isLast : Bool} {loop : Loop}
    (hnext : s.task.loop.next packages (remaining content s.task.loop) = .ok (.send index plain
      isLast loop)) :
    (∃ e, round packages content answers s = .ends { result := .error e, log := s.log }) ∨
      ∃ request answer log, request.index = index ∧ (request, answer) ∈ log ∧
        (∀ entry ∈ s.log, entry ∈ log) ∧
        round packages content answers s =
          match loop.answered packages index isLast answer with
          | .error e => .ends { result := .error e, log := log }
          | .ok (.done summary) => .ends { result := .ok summary, log := log }
          | .ok (.more loop) => .again { task := { s.task with loop := loop }, log := log } := by
  cases hseal : s.task.file.sealChunk packages index plain with
  | error e => exact .inl ⟨_, round_of_sealChunk_error hnext hseal⟩
  | ok data =>
    let request : ChunkRequest :=
      { uploadId := s.task.state.uploadId, index := index, data := data, isLast := isLast }
    obtain ⟨hmem, hkept⟩ :=
      mem_of_sendChunk (Prod.eta (sendChunk (inOrder answers) request s.log)).symm
    exact .inr ⟨request, _, _, rfl, hmem, hkept, round_of_send hnext hseal rfl⟩

/-- What comes before the next chunk of a file was there or is declared. -/
structure FileCovered (total begun : Nat) (s : Sending) : Prop where
  loop : ∃ loop, s.task.loop = .sendChunks loop ∧ loop.total = total ∧
    ∀ index < loop.index, Covered begun s.log index

theorem named_of_answered {loop loop' : SendChunks} (h : loop.answered index answer = .ok loop') :
    named answer = some loop'.index ∧ loop'.total = loop.total := by
  cases answer with
  | ok ack =>
    cases h
    exact ⟨rfl, rfl⟩
  | error e =>
    simp only [SendChunks.answered] at h
    split_ifs at h
    cases hexpected : expectedSeqOf e with
    | none =>
      rw [hexpected] at h
      cases h
    | some expected =>
      rw [hexpected] at h
      simp only at h
      split_ifs at h
      cases h
      exact ⟨hexpected, rfl⟩

/-- What the loop does next leaves it as it is, and it is done when it has come to the end. -/
theorem sendChunks_next {loop : SendChunks} {next : Next SendChunks}
    (h : loop.next packages content = .ok next) :
    (∃ plain isLast, next = .send loop.index plain isLast loop) ∨
      ∃ summary, next = .done summary ∧ loop.total ≤ loop.index := by
  unfold SendChunks.next at h
  split_ifs at h with hindex hhash
  · cases hlen : expectedPlainLen loop.fileSize loop.chunkSize loop.index with
    | none =>
      rw [hlen] at h
      cases h
    | some plainLen =>
      rw [hlen] at h
      simp only at h
      split_ifs at h
      cases hread : ByteFile.readExact content (loop.index * loop.chunkSize) plainLen with
      | none =>
        rw [hread] at h
        cases h
      | some plain =>
        rw [hread] at h
        cases h
        exact .inl ⟨plain, _, rfl⟩
  · cases hsha : SendChunks.hashReader packages content loop.fileSize with
    | error e =>
      rw [hsha] at h
      cases h
    | ok sha256 =>
      rw [hsha] at h
      cases h
      exact .inr ⟨_, rfl, Nat.le_of_not_lt hindex⟩
  · cases h
    exact .inr ⟨_, rfl, Nat.le_of_not_lt hindex⟩

variable {total begun : Nat}

theorem file_round (hs : FileCovered total begun s) :
    (∃ s', round packages content answers s = .again s' ∧ FileCovered total begun s') ∨
      ∃ sent, round packages content answers s = .ends sent ∧
        ∀ summary, sent.result = .ok summary → ∀ index < total, Covered begun sent.log index := by
  obtain ⟨loop, hloop, rfl, hcovered⟩ := hs.loop
  have hremaining : remaining content s.task.loop = content := by rw [hloop]; rfl
  have hnext : s.task.loop.next packages (remaining content s.task.loop) =
      (loop.next packages content).map (Next.map Loop.sendChunks) := by
    rw [hremaining, hloop]
    rfl
  cases hplain : loop.next packages content with
  | error e =>
    rw [hplain] at hnext
    exact .inr ⟨_, round_of_error hnext, fun summary h => by cases h⟩
  | ok next =>
    rw [hplain] at hnext
    rcases sendChunks_next hplain with ⟨plain, isLast, rfl⟩ | ⟨summary, rfl, hend⟩
    · rcases round_of_sends hnext with ⟨e, hround⟩ |
        ⟨request, answer, log, -, hmem, hkept, hround⟩
      · exact .inr ⟨_, hround, fun summary h => by cases h⟩
      · simp only [Loop.answered] at hround
        cases hanswered : loop.answered loop.index answer with
        | error e =>
          rw [hanswered] at hround
          exact .inr ⟨_, hround, fun summary h => by cases h⟩
        | ok loop' =>
          rw [hanswered] at hround
          obtain ⟨hnamed, htotal⟩ := named_of_answered hanswered
          exact .inl ⟨_, hround, ⟨loop', rfl, htotal, fun index hindex =>
            .inr (.inr ⟨request, answer, _, hmem, hnamed, hindex⟩)⟩⟩
    · refine .inr ⟨_, round_of_done hnext, fun summary _ index hindex => ?_⟩
      exact hcovered index (Nat.lt_of_lt_of_le hindex hend)

/-- So it is before the next chunk of a body, and before the chunk that is wanted next. -/
structure BodyCovered (total begun : Nat) (s : Sending) : Prop where
  loop : ∃ loop, s.task.loop = .sendSizedBody loop ∧ loop.total = total ∧
    (∀ index < loop.index, Covered begun s.log index) ∧
    ∀ index < loop.nextWanted, Covered begun s.log index

/-- What the loop does next: the chunk is sent, or skipped because a later one is wanted, or all
of them are behind. -/
theorem sizedBody_next {loop : SizedBody} {source : List UInt8} {next : Next SizedBody}
    (h : loop.next packages source = .ok next) :
    ∃ absorbed,
      (∃ plain isLast, next = .send loop.index plain isLast
          { loop with index := loop.index + 1, absorbed := absorbed }) ∨
        (next = .skip { loop with index := loop.index + 1, absorbed := absorbed } ∧
          loop.index < loop.nextWanted) ∨
        ∃ summary, next = .done summary ∧ loop.total ≤ loop.index := by
  unfold SizedBody.next at h
  by_cases hindex : loop.index < loop.total
  · rw [if_pos hindex] at h
    cases hlen : expectedPlainLen loop.size loop.chunkSize loop.index with
    | none =>
      rw [hlen] at h
      cases h
    | some plainLen =>
      rw [hlen] at h
      simp only at h
      split_ifs at h with hlong hshort hwanted
      · cases h
        exact ⟨_, .inr (.inl ⟨rfl, hwanted⟩)⟩
      · cases h
        exact ⟨_, .inl ⟨_, _, rfl⟩⟩
  · rw [if_neg hindex] at h
    split_ifs at h
    cases h
    exact ⟨[], .inr (.inr ⟨_, rfl, Nat.le_of_not_lt hindex⟩)⟩

/-- The chunk that was sent and those before the chunk that is wanted next are covered. -/
theorem covered_of_answered {loop loop' : SizedBody} {request : ChunkRequest} {log : Log}
    (hrequest : request.index = index) (hmem : (request, answer) ∈ log)
    (h : loop.answered index answer = .ok loop') :
    Covered begun log index ∧ loop'.total = loop.total ∧ loop'.index = loop.index ∧
      ∀ before < loop'.nextWanted, Covered begun log before := by
  cases answer with
  | ok ack =>
    cases h
    refine ⟨.inr (.inl ⟨request, ack, hrequest, hmem⟩), rfl, rfl, fun before hbefore => ?_⟩
    exact .inr (.inr ⟨request, _, _, hmem, rfl, hbefore⟩)
  | error e =>
    simp only [SizedBody.answered] at h
    cases hexpected : expectedSeqOf e with
    | none =>
      rw [hexpected] at h
      cases h
    | some expected =>
      rw [hexpected] at h
      simp only at h
      split_ifs at h with hlater
      cases h
      refine ⟨.inr (.inr ⟨request, _, expected, hmem, hexpected, hlater⟩), rfl, rfl,
        fun before hbefore => ?_⟩
      exact .inr (.inr ⟨request, _, expected, hmem, hexpected,
        Nat.lt_of_lt_of_le hbefore (Nat.min_le_left _ _)⟩)

theorem body_round (hs : BodyCovered total begun s) :
    (∃ s', round packages content answers s = .again s' ∧ BodyCovered total begun s') ∨
      ∃ sent, round packages content answers s = .ends sent ∧
        ∀ summary, sent.result = .ok summary → ∀ index < total, Covered begun sent.log index := by
  obtain ⟨loop, hloop, rfl, hcovered, hwanted⟩ := hs.loop
  have hnext : s.task.loop.next packages (remaining content s.task.loop) =
      (loop.next packages (remaining content s.task.loop)).map (Next.map Loop.sendSizedBody) := by
    rw [hloop]
    rfl
  cases hplain : loop.next packages (remaining content s.task.loop) with
  | error e =>
    rw [hplain] at hnext
    exact .inr ⟨_, round_of_error hnext, fun summary h => by cases h⟩
  | ok next =>
    rw [hplain] at hnext
    obtain ⟨absorbed, ⟨plain, isLast, rfl⟩ | ⟨rfl, hskip⟩ | ⟨summary, rfl, hend⟩⟩ :=
      sizedBody_next hplain
    · rcases round_of_sends hnext with ⟨e, hround⟩ |
        ⟨request, answer, log, hrequest, hmem, hkept, hround⟩
      · exact .inr ⟨_, hround, fun summary h => by cases h⟩
      · simp only [Loop.answered] at hround
        let after : SizedBody := { loop with index := loop.index + 1, absorbed := absorbed }
        cases hanswered : after.answered loop.index answer with
        | error e =>
          rw [hanswered] at hround
          exact .inr ⟨_, hround, fun summary h => by cases h⟩
        | ok loop' =>
          rw [hanswered] at hround
          obtain ⟨hthis, htotal, hindex, hbefore⟩ :=
            covered_of_answered hrequest hmem hanswered
          refine .inl ⟨_, hround, ⟨loop', rfl, htotal, fun index hlt => ?_, hbefore⟩⟩
          rw [hindex] at hlt
          rcases Nat.lt_succ_iff_lt_or_eq.mp hlt with hold | rfl
          · exact (hcovered index hold).mono hkept
          · exact hthis
    · refine .inl ⟨_, round_of_skip hnext, ⟨_, rfl, rfl, fun index hlt => ?_, hwanted⟩⟩
      rcases Nat.lt_succ_iff_lt_or_eq.mp hlt with hold | rfl
      · exact hcovered index hold
      · exact hwanted _ hskip
    · refine .inr ⟨_, round_of_done hnext, fun summary _ index hindex => ?_⟩
      exact hcovered index (Nat.lt_of_lt_of_le hindex hend)

/-- A loop each of whose rounds goes on or covers the chunks covers them when it returns. -/
theorem covered_of_returns (inv : Sending → Prop)
    (hround : ∀ s, inv s → (∃ s', round packages content answers s = .again s' ∧ inv s') ∨ ∃ sent,
      round packages content answers s = .ends sent ∧ ∀ summary, sent.result = .ok summary → ∀ index
      < total, Covered begun sent.log index) (hs : inv s) {sent : Sent}
    (hreturns : Returns (round packages content answers) s sent) :
    ∀ summary, sent.result = .ok summary → ∀ index < total, Covered begun sent.log index := by
  refine returns_invariant inv (fun s s' hs hagain => ?_)
    (fun sent => ∀ summary, sent.result = .ok summary →
      ∀ index < total, Covered begun sent.log index)
    (fun s sent hs hends => ?_) hs hreturns
  · rcases hround s hs with ⟨next, hnext, hkept⟩ | ⟨found, hfound, -⟩
    · rw [hagain] at hnext
      cases hnext
      exact hkept
    · rw [hagain] at hfound
      cases hfound
  · rcases hround s hs with ⟨next, hnext, -⟩ | ⟨found, hfound, hcovered⟩
    · rw [hends] at hnext
      cases hnext
    · rw [hends] at hfound
      cases hfound
      exact hcovered

end Rounds

section Calls

variable {packages : Packages} {state : UploadState} {content : List UInt8}
variable {status : Except SdkError StatusAck} {answers : Nat → Answer} {sent : Sent}
variable {fileSize total : Nat} {summary : SentSummary}

section

variable (hsize : state.block.fileSize = some fileSize)

include hsize

theorem send_chunks_covers {fromChunk : Nat} {hash : Bool}
    (hcount : chunkCount fileSize state.block.chunkSize = some total)
    (h : CallReturns packages state content (.sendChunks fromChunk hash) status answers sent)
    (hok : sent.result = .ok summary) : ∀ index < total, Covered fromChunk sent.log index := by
  cases hstart : (Call.sendChunks fromChunk hash).start state status content with
  | error e =>
    simp only [CallReturns, hstart] at h
    rw [h] at hok
    cases hok
  | ok task =>
    simp only [CallReturns, hstart] at h
    obtain ⟨⟨file, loop⟩, hloop, rfl⟩ := map_eq_ok hstart
    obtain ⟨⟨file', chunks⟩, hchunks, heq⟩ := map_eq_ok hloop
    cases heq
    obtain ⟨-, size, count, hsize', hcount', rfl⟩ := SendChunks.start_eq_ok hchunks
    rw [hsize] at hsize'
    cases hsize'
    rw [hcount] at hcount'
    cases hcount'
    refine covered_of_returns (FileCovered total fromChunk) (fun s hs => file_round hs)
      ⟨_, rfl, rfl, fun index hindex => .inl hindex⟩ h summary hok

/-- A body of known size begins at its first byte, with the chunk that the status names wanted. -/
theorem receiveUpload_start {server userId : String} {task : Task}
    (hcount : chunkCount fileSize state.block.chunkSize = some total)
    (h : (Call.receiveUpload server userId).start state status content = .ok task) :
    ∃ ack loop, status = .ok ack ∧ task.loop = .sendSizedBody loop ∧ loop.total = total ∧
      loop.index = 0 ∧ loop.nextWanted = ack.received := by
  obtain ⟨⟨file, loop⟩, hloop, rfl⟩ := map_eq_ok h
  simp only [Call.startLoop, receiveUpload.start] at hloop
  split_ifs at hloop
  cases hfile : state.fileCipher with
  | error e =>
    rw [hfile] at hloop
    cases hloop
  | ok file' =>
    rw [hfile] at hloop
    simp only [hsize] at hloop
    obtain ⟨body, hbody, heq⟩ := map_eq_ok hloop
    cases heq
    simp only [SizedBody.start, hcount] at hbody
    cases status with
    | error e => cases hbody
    | ok ack =>
      cases hbody
      exact ⟨ack, _, rfl, rfl, rfl, rfl, rfl⟩

theorem send_sized_body_covers {server userId : String}
    (hcount : chunkCount fileSize state.block.chunkSize = some total)
    (h : CallReturns packages state content (.receiveUpload server userId) status answers sent)
    (hok : sent.result = .ok summary) :
    ∃ ack, status = .ok ack ∧ ∀ index < total, Covered ack.received sent.log index := by
  cases hstart : (Call.receiveUpload server userId).start state status content with
  | error e =>
    simp only [CallReturns, hstart] at h
    rw [h] at hok
    cases hok
  | ok task =>
    simp only [CallReturns, hstart] at h
    obtain ⟨ack, loop, hstatus, hloop, htotal, hfirst, hwanted⟩ :=
      receiveUpload_start hsize hcount hstart
    refine ⟨ack, hstatus, covered_of_returns (BodyCovered total ack.received)
      (fun s hs => body_round hs)
      ⟨loop, hloop, htotal, fun index hindex => ?_, fun index hindex => ?_⟩ h summary hok⟩
    · rw [hfirst] at hindex
      exact absurd hindex (Nat.not_lt_zero index)
    · rw [hwanted] at hindex
      exact .inl hindex

end

end Calls

/-- An answer that a loop goes on after. -/
def Accepts {α : Type} (answered : Except SdkError α) : Prop :=
  ∃ loop, answered = .ok loop

section Answers

variable {chunks : SendChunks} {body : SizedBody} {index expected : Nat} {e : SdkError}

theorem not_accepts_chunks (h : expectedSeqOf e = none) :
    ¬Accepts (chunks.answered index (.error e)) := by
  rintro ⟨loop, hloop⟩
  have hnamed := (named_of_answered hloop).1
  rw [named, h] at hnamed
  cases hnamed

theorem not_accepts_body (h : expectedSeqOf e = none) :
    ¬Accepts (body.answered index (.error e)) := by
  rintro ⟨loop, hloop⟩
  simp only [SizedBody.answered, h] at hloop
  cases hloop

section

variable (h : expectedSeqOf e = some expected)

include h

/-- A file can be read again from any chunk, so only the chunk that was refused and one that the
file does not have are refused in turn. -/
theorem accepts_chunks_iff :
    Accepts (chunks.answered index (.error e)) ↔ expected ≠ index ∧ expected ≤ chunks.total := by
  simp only [Accepts, SendChunks.answered, if_pos (wbfCode_of_expectedSeqOf h), h]
  by_cases hrefused : expected = index ∨ chunks.total < expected
  · rw [if_pos hrefused]
    constructor
    · rintro ⟨loop, hloop⟩
      cases hloop
    · rintro ⟨hne, hle⟩
      exact absurd hrefused (not_or.mpr ⟨hne, Nat.not_lt.mpr hle⟩)
  · rw [if_neg hrefused]
    obtain ⟨hne, hle⟩ := not_or.mp hrefused
    exact ⟨fun _ => ⟨hne, Nat.le_of_not_lt hle⟩, fun _ => ⟨_, rfl⟩⟩

/-- A body cannot be read again, so it can only go on to a later chunk. -/
theorem accepts_body_iff : Accepts (body.answered index (.error e)) ↔ index < expected := by
  simp only [Accepts, SizedBody.answered, h]
  by_cases hlater : index < expected
  · rw [if_pos hlater]
    exact ⟨fun _ => hlater, fun _ => ⟨_, rfl⟩⟩
  · rw [if_neg hlater]
    constructor
    · rintro ⟨loop, hloop⟩
      cases hloop
    · exact fun h => absurd h hlater

theorem chunks_answered_later (hlater : index < expected) (hle : expected ≤ chunks.total) :
    chunks.answered index (.error e) = .ok { chunks with index := expected } := by
  simp only [SendChunks.answered, if_pos (wbfCode_of_expectedSeqOf h), h]
  rw [if_neg (not_or.mpr ⟨Nat.ne_of_gt hlater, Nat.not_lt.mpr hle⟩)]

theorem body_answered_later (hlater : index < expected) (hle : expected ≤ maxChunkIndex + 1) :
    body.answered index (.error e) = .ok { body with nextWanted := expected } := by
  simp only [SizedBody.answered, h]
  rw [if_pos hlater, Nat.min_eq_left (Nat.le_trans hle (by decide))]

end

end Answers

/-- What the two loops have in common: whatever the answers, a call that returns has sent or was
told about every chunk; an acknowledgement and an answer that names a later chunk of the file are
gone on after by both, at the same chunk, and one that names no chunk or the refused one by none.
Only the loop that reads a file can go back. -/
theorem upload_loops_cover_and_accept (packages : Packages) (state : UploadState)
    (content : List UInt8) (status : Except SdkError StatusAck) (answers : Nat → Answer)
    {fileSize total : Nat} (hsize : state.block.fileSize = some fileSize)
    (hcount : chunkCount fileSize state.block.chunkSize = some total) :
    (∀ fromChunk hash sent summary,
        CallReturns packages state content (.sendChunks fromChunk hash) status answers sent →
        sent.result = .ok summary →
        ∀ index < total, Covered fromChunk sent.log index) ∧
      (∀ server userId sent summary,
        CallReturns packages state content (.receiveUpload server userId) status answers sent →
        sent.result = .ok summary →
        ∃ ack, status = .ok ack ∧ ∀ index < total, Covered ack.received sent.log index) ∧
      ∀ (chunks : SendChunks) (body : SizedBody) (index : Nat),
        chunks.total = total → body.total = total →
        (∀ ack, ∃ chunks' body', chunks.answered index (.ok ack) = .ok chunks' ∧
          body.answered index (.ok ack) = .ok body' ∧
          chunks'.index = ack.received ∧ body'.nextWanted = ack.received) ∧
        (∀ e, expectedSeqOf e = none →
          ¬Accepts (chunks.answered index (.error e)) ∧
          ¬Accepts (body.answered index (.error e))) ∧
        ∀ e expected, expectedSeqOf e = some expected →
          (Accepts (chunks.answered index (.error e)) ↔ expected ≠ index ∧ expected ≤ total) ∧
          (expected ≤ total → (Accepts (body.answered index (.error e)) ↔ index < expected)) ∧
          (index < expected → expected ≤ total →
            ∃ chunks' body', chunks.answered index (.error e) = .ok chunks' ∧
              body.answered index (.error e) = .ok body' ∧
              chunks'.index = expected ∧ body'.nextWanted = expected) := by
  refine ⟨fun fromChunk hash sent summary h hok => send_chunks_covers hsize hcount h hok,
    fun server userId sent summary h hok => send_sized_body_covers hsize hcount h hok,
    fun chunks body index hchunks hbody =>
      ⟨fun ack => ⟨_, _, rfl, rfl, rfl, rfl⟩,
        fun e h => ⟨not_accepts_chunks h, not_accepts_body h⟩, fun e expected h => ?_⟩⟩
  subst hchunks
  refine ⟨accepts_chunks_iff h, fun _ => accepts_body_iff h, fun hlater hle => ?_⟩
  have hmost : chunks.total ≤ maxChunkIndex + 1 := (chunkCount_eq_some_iff.mp hcount).2.1
  exact ⟨_, _, chunks_answered_later h hlater hle,
    body_answered_later h hlater (Nat.le_trans hle hmost), rfl, rfl⟩

/-- The first of two chunks is refused for the second, which is then acknowledged. -/
def jumpsToLast : Nat → Answer
  | 0 => .error (.server (some 1503) (some 1) "out of order")
  | _ => .ok { received := 2, finished := true, truncated := false }

theorem upload_loops_cover_and_accept_jump :
    ∃ sent summary,
      CallReturns UploadRoundTrip.wholePackages (UploadRoundTrip.exampleState (some 3)) [1, 2, 3]
        (.sendChunks 0 false) (.error (.network "connection closed")) jumpsToLast sent ∧
      sent.result = .ok summary ∧ ∀ index < 2, Covered 0 sent.log index := by
  have hreturns : ∃ sent summary,
      CallReturns UploadRoundTrip.wholePackages (UploadRoundTrip.exampleState (some 3)) [1, 2, 3]
        (.sendChunks 0 false) (.error (.network "connection closed")) jumpsToLast sent ∧
      sent.result = .ok summary :=
    ⟨_, _, returns_of_again rfl (returns_of_again rfl (returns_of_ends rfl)), rfl⟩
  obtain ⟨sent, summary, hcall, hok⟩ := hreturns
  exact ⟨sent, summary, hcall, hok,
    (upload_loops_cover_and_accept UploadRoundTrip.wholePackages _ _ _ _ rfl (by decide)).1
      0 false sent summary hcall hok⟩

/-- The server wants the first of two chunks again, and only the file can be read again. -/
theorem upload_loops_differ_on_first :
    ¬∀ (chunks : SendChunks) (body : SizedBody) (index : Nat) (e : SdkError),
      chunks.total = body.total → index < chunks.total → e.wbfCode = some .outOfOrder →
        (Accepts (chunks.answered index (.error e)) ↔ Accepts (body.answered index (.error e))) := by
  intro h
  let chunks : SendChunks :=
    { fileSize := 3, chunkSize := 2, total := 2, hash := false, index := 1, truncated := false }
  let body : SizedBody :=
    { size := 3, chunkSize := 2, total := 2, index := 2, nextWanted := 1, truncated := false,
      absorbed := [1, 2, 3] }
  let e : SdkError := .server (some 1503) (some 0) "out of order"
  have hexpected : expectedSeqOf e = some 0 := by decide
  have hsame := h chunks body 1 e rfl (by decide) (by decide)
  rw [accepts_chunks_iff hexpected, accepts_body_iff hexpected] at hsame
  exact absurd (hsame.mp (by decide)) (Nat.not_lt_zero 1)

end UploadReplies
end WbfMatrixClient
