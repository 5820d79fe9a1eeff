import WbfMatrixClient.UploadReplies

/-!
# What a streamed upload says it has sent

The two loops that send a stream stop at the last chunk, or as soon as the server says it has
finished. What they return is the size and the digest of what they have read until then, and every
chunk of it was acknowledged. This is the whole stream unless the server says it has finished at
an earlier chunk, and the one sign of that is the mark that it has truncated the upload.
-/

namespace WbfMatrixClient
namespace UploadReplies

open Chunking
open Rounds
open UploadRoundTrip (remaining StreamSound StreamSent)

/-- The calls that send a stream: the one of the SDK, and a PUT for an account. -/
def streamCall : Option (String × String) → Call
  | none => .sendStream
  | some (server, userId) => .receiveUpload server userId

/-- A chunk of the content was sent, sealed, and acknowledged. -/
def Acknowledged (packages : Packages) (state : UploadState) (file : FileCipher)
    (content : List UInt8) (log : Log) (index : Nat) : Prop :=
  ∃ data ack, file.sealChunk packages index (piece file.chunkSize index content) = .ok data ∧
    ({ uploadId := state.uploadId, index := index, data := data,
       isLast := decide (index + 1 = divCeil content.length file.chunkSize) },
      .ok ack) ∈ log

/-- What a call returns without a mark that the server has truncated the upload is about the whole
content. -/
def ClaimsWhatItSent (packages : Packages) (state : UploadState) (content : List UInt8)
    (call : Call) (status : Except SdkError StatusAck) (answers : Nat → Answer) : Prop :=
  ∀ sent summary, CallReturns packages state content call status answers sent →
    sent.result = .ok summary → summary.truncated = false →
      summary.fileSize = content.length ∧
      summary.sha256 = some (packages.sha256Hex content) ∧
      ∀ file, state.fileCipher = .ok file →
        ∀ index < divCeil content.length file.chunkSize,
          Acknowledged packages state file content sent.log index

/-- How many of the first answers are acknowledgements. -/
def acknowledged (answers : Nat → Answer) : Nat → Nat
  | 0 => 0
  | n + 1 => acknowledged answers n + (if (answers n).isOk then 1 else 0)

/-- An answer after which a stream goes on with the next chunk, or sends this one again. -/
def StreamGoesOn (answers : Nat → Answer) (n : Nat) : Prop :=
  match answers n with
  | .ok ack => ack.finished = false
  | .error e => e.wbfCode = some .corrupt ∧ ∀ m, n = m + 1 → corrupted (answers m) = false

/-- The server says that it has finished at a chunk before the last one, and not that it has
truncated the upload. -/
structure FinishesEarly (total : Nat) (answers : Nat → Answer) (n : Nat) : Prop where
  before : ∀ m < n, StreamGoesOn answers m
  early : acknowledged answers n + 1 < total
  index : acknowledged answers n ≤ maxChunkIndex
  finished : ∃ ack, answers n = .ok ack ∧ ack.finished = true ∧ ack.truncated = false

/-- The two loops that send a stream. -/
def IsStream (loop : Streaming → Loop) : Prop :=
  loop = .sendStream ∨ loop = .sendStreamedBody

section Answered

variable {packages : Packages} {content : List UInt8} {mk : Streaming → Loop}

section

variable (hmk : IsStream mk)

include hmk

theorem IsStream.remaining_eq (loop : Streaming) :
    remaining content (mk loop) =
      content.drop (loop.absorbed.length + loop.pending.length) := by
  rcases hmk with rfl | rfl <;> rfl

theorem IsStream.next_eq (loop : Streaming) (source : List UInt8) :
    (mk loop).next packages source = .ok ((loop.next source).map mk) := by
  rcases hmk with rfl | rfl <;> rfl

theorem IsStream.answered_error (loop : Streaming) (index : Nat) (isLast : Bool) (e : SdkError) :
    (mk loop).answered packages index isLast (.error e) = .error e := by
  rcases hmk with rfl | rfl <;> rfl

theorem IsStream.answered_done (loop : Streaming) (index : Nat) {isLast : Bool} {ack : ChunkAck}
    (h : isLast = true ∨ ack.finished = true) :
    (mk loop).answered packages index isLast (.ok ack) =
      .ok (.done (loop.summary packages ack.truncated)) := by
  have hdone : ((isLast : Prop) ∨ (ack.finished : Prop)) := h
  rcases hmk with rfl | rfl
  · simp only [Loop.answered, SendStream.answered, if_pos hdone]
    rfl
  · simp only [Loop.answered, SendStreamedBody.answered, if_pos hdone]
    rfl

theorem IsStream.answered_more (loop : Streaming) (index : Nat) {ack : ChunkAck}
    (hfinished : ack.finished = false) (hindex : loop.index ≤ maxChunkIndex) :
    (mk loop).answered packages index false (.ok ack) =
      .ok (.more (mk { loop with index := loop.index + 1 })) := by
  have hsmall : ¬0xFFFFFFFF < loop.index + 1 := by
    have hmax : maxChunkIndex = 0xFFFFFFFD := rfl
    omega
  rcases hmk with rfl | rfl
  · simp only [Loop.answered, SendStream.answered, hfinished]
    rfl
  · simp only [Loop.answered, SendStreamedBody.answered, hfinished, if_neg hsmall]
    rfl

end

end Answered

section Round

variable {packages : Packages} {state : UploadState} {file : FileCipher} {content : List UInt8}
variable {answers : Nat → Answer} {s : Sending}

variable (packages state file content answers) in
/-- Before a round: the chunks that come before were acknowledged, one by each answer but the
corrupted ones. -/
structure StreamReady (s : Sending) : Prop where
  ofState : s.task.state = state
  ofFile : s.task.file = file
  loop : ∃ mk loop, IsStream mk ∧ s.task.loop = mk loop ∧ StreamSound file content loop ∧
    loop.index = acknowledged answers s.log.length
  quiet : ∀ m, s.log.length = m + 1 → corrupted (answers m) = false
  goesOn : ∀ m < s.log.length, StreamGoesOn answers m
  acked : ∀ index < acknowledged answers s.log.length,
    Acknowledged packages state file content s.log index

/-- The answer that decides about a chunk: the first one, or the second when the first says that
the request arrived corrupted. -/
theorem reply_cases (answers : Nat → Answer) (request : ChunkRequest) (log : Log)
    (hquiet : ∀ m, log.length = m + 1 → corrupted (answers m) = false) :
    ∃ n log', sendChunk (inOrder answers) request log = (answers n, log') ∧
      log'.length = n + 1 ∧ log.length ≤ n ∧ (request, answers n) ∈ log' ∧
      (∀ entry ∈ log, entry ∈ log') ∧ acknowledged answers n = acknowledged answers log.length ∧
      (∀ m, log.length ≤ m → m < n → StreamGoesOn answers m ∧ corrupted (answers m) = true) ∧
      (corrupted (answers n) = true → ¬StreamGoesOn answers n) := by
  cases hfirst : corrupted (answers log.length) with
  | false =>
    refine ⟨log.length, _, sendChunk_of_not_corrupted hfirst, by simp, le_refl _, by simp,
      fun entry hentry => List.mem_append_left _ hentry, rfl, fun m hle hlt => by omega,
      fun h => ?_⟩
    rw [hfirst] at h
    cases h
  | true =>
    have herror : ∃ e, answers log.length = .error e ∧ e.wbfCode = some .corrupt := by
      cases hanswer : answers log.length with
      | ok ack =>
        rw [hanswer] at hfirst
        cases hfirst
      | error e =>
        rw [hanswer] at hfirst
        exact ⟨e, rfl, of_decide_eq_true hfirst⟩
    obtain ⟨e, hanswer, hcode⟩ := herror
    refine ⟨log.length + 1, _, sendChunk_of_corrupted hfirst, by simp, by omega, by simp,
      fun entry hentry => List.mem_append_left _ hentry, ?_, fun m hle hlt => ?_, fun h => ?_⟩
    · rw [acknowledged, hanswer]
      rfl
    · obtain rfl : m = log.length := by omega
      refine ⟨?_, hfirst⟩
      rw [StreamGoesOn, hanswer]
      exact ⟨hcode, hquiet⟩
    · rw [StreamGoesOn]
      cases hsecond : answers (log.length + 1) with
      | ok ack =>
        rw [hsecond] at h
        cases h
      | error e' =>
        rintro ⟨-, hnot⟩
        rw [hnot log.length rfl] at hfirst
        cases hfirst

theorem Acknowledged.mono {log log' : Log} {index : Nat}
    (h : Acknowledged packages state file content log index) (hlog : ∀ entry ∈ log, entry ∈ log') :
    Acknowledged packages state file content log' index := by
  obtain ⟨data, ack, hseal, hmem⟩ := h
  exact ⟨data, ack, hseal, hlog _ hmem⟩

/-- What is absorbed when a chunk has been sent, and that it is everything after the last one. -/
theorem summary_of_sent (packages : Packages) (hpos : 0 < file.chunkSize) {loop : Streaming}
    {index : Nat}
    (h : StreamSent file content index (decide (index + 1 = divCeil content.length file.chunkSize))
      loop) (truncated : Bool) :
    (loop.summary packages truncated).fileSize =
        min ((index + 1) * file.chunkSize) content.length ∧
      (index + 1 = divCeil content.length file.chunkSize →
        (loop.summary packages truncated).fileSize = content.length ∧
        (loop.summary packages truncated).sha256 = some (packages.sha256Hex content)) := by
  have hsize : (loop.summary packages truncated).fileSize =
      min ((index + 1) * file.chunkSize) content.length := by
    rw [Streaming.summary, h.fileSize, h.absorbed, List.length_take]
  refine ⟨hsize, fun hlast => ?_⟩
  have hle : content.length ≤ (index + 1) * file.chunkSize :=
    (divCeil_le_iff hpos).mp (Nat.le_of_eq hlast.symm)
  refine ⟨by rw [hsize, Nat.min_eq_right hle], ?_⟩
  rw [Streaming.summary, h.absorbed, List.take_of_length_le hle]

/-- What a round comes to: the call fails, it returns what it has absorbed, or it goes on with the
next chunk. -/
theorem streamRound_cases (hpos : 0 < file.chunkSize)
    (hs : StreamReady packages state file content answers s) :
    acknowledged answers s.log.length < divCeil content.length file.chunkSize ∧
    ((maxChunkIndex < acknowledged answers s.log.length ∧
        ∃ e, round packages content answers s = .ends { result := .error e, log := s.log }) ∨
      ∃ n log', log'.length = n + 1 ∧ s.log.length ≤ n ∧
        acknowledged answers n = acknowledged answers s.log.length ∧
        acknowledged answers n ≤ maxChunkIndex ∧
        (∀ m, s.log.length ≤ m → m < n → StreamGoesOn answers m ∧ corrupted (answers m) = true) ∧
        ((∃ e, answers n = .error e ∧ ¬StreamGoesOn answers n ∧
            round packages content answers s = .ends { result := .error e, log := log' }) ∨
          ∃ ack, answers n = .ok ack ∧
            (((acknowledged answers n + 1 = divCeil content.length file.chunkSize ∨
                  ack.finished = true) ∧
                ∃ summary, round packages content answers s =
                    .ends { result := .ok summary, log := log' } ∧
                  summary.truncated = ack.truncated ∧
                  summary.fileSize =
                    min ((acknowledged answers n + 1) * file.chunkSize) content.length ∧
                  (acknowledged answers n + 1 = divCeil content.length file.chunkSize →
                    summary.fileSize = content.length ∧
                    summary.sha256 = some (packages.sha256Hex content)) ∧
                  ∀ index < acknowledged answers n + 1,
                    Acknowledged packages state file content log' index) ∨
              (acknowledged answers n + 1 < divCeil content.length file.chunkSize ∧
                ack.finished = false ∧
                ∃ s', round packages content answers s = .again s' ∧
                  StreamReady packages state file content answers s' ∧ s'.log = log')))) := by
  obtain ⟨mk, loop, hmk, hloop, hsound, hindex⟩ := hs.loop
  obtain ⟨isLast, after, hnext, hinside, rfl, hsent⟩ :=
    UploadRoundTrip.stream_next_sound hpos hsound
  rw [UploadRoundTrip.total, hindex] at hinside
  refine ⟨hinside, ?_⟩
  rw [UploadRoundTrip.total, hindex] at hnext hsent
  have hsend : s.task.loop.next packages (remaining content s.task.loop) =
      .ok (.send (acknowledged answers s.log.length)
        (piece file.chunkSize (acknowledged answers s.log.length) content)
        (decide (acknowledged answers s.log.length + 1 = divCeil content.length file.chunkSize))
        (mk after)) := by
    rw [hloop, hmk.remaining_eq, hmk.next_eq, hnext]
    rfl
  rcases Nat.lt_or_ge maxChunkIndex (acknowledged answers s.log.length) with hfar | hnear
  · refine .inl ⟨hfar, ?_⟩
    have hseal : s.task.file.sealChunk packages (acknowledged answers s.log.length)
        (piece file.chunkSize (acknowledged answers s.log.length) content) =
          .error (.indexReserved (acknowledged answers s.log.length)) := by
      rw [FileCipher.sealChunk, if_pos hfar]
    exact ⟨_, round_of_sealChunk_error hsend hseal⟩
  · obtain ⟨data, hseal⟩ : ∃ data, file.sealChunk packages (acknowledged answers s.log.length)
        (piece file.chunkSize (acknowledged answers s.log.length) content) = .ok data :=
      ⟨_, FileCipher.sealChunk_eq_ok_iff.mpr ⟨hnear, length_piece_le _ _ _, rfl⟩⟩
    obtain ⟨n, log', hreply, hlength, hle, hmem, hkept, hcount, hagain, hlast⟩ :=
      reply_cases answers
        { uploadId := s.task.state.uploadId, index := acknowledged answers s.log.length,
          data := data,
          isLast := decide (acknowledged answers s.log.length + 1 =
            divCeil content.length file.chunkSize) } s.log hs.quiet
    have hround := round_of_send hsend (hs.ofFile.symm ▸ hseal) hreply
    refine .inr ⟨n, log', hlength, hle, hcount, hcount ▸ hnear, hagain, ?_⟩
    rw [← hcount] at hsent hinside hround hmem hseal hnear
    cases hanswer : answers n with
    | error e =>
      rw [hanswer, hmk.answered_error] at hround
      refine .inl ⟨e, rfl, ?_, hround⟩
      intro hgoes
      refine hlast ?_ hgoes
      rw [StreamGoesOn, hanswer] at hgoes
      rw [hanswer]
      exact decide_eq_true hgoes.1
    | ok ack =>
      rw [hanswer] at hround hmem
      refine .inr ⟨ack, rfl, ?_⟩
      have hall : ∀ index < acknowledged answers n + 1,
          Acknowledged packages state file content log' index := by
        intro index hlt
        rcases Nat.lt_succ_iff_lt_or_eq.mp hlt with hbefore | rfl
        · exact (hs.acked index (hcount ▸ hbefore)).mono hkept
        · exact ⟨data, ack, hseal, hs.ofState ▸ hmem⟩
      by_cases hdone : acknowledged answers n + 1 = divCeil content.length file.chunkSize ∨
          ack.finished = true
      · rw [hmk.answered_done _ _ (hdone.imp_left fun h => decide_eq_true h)] at hround
        obtain ⟨hsize, hwhole⟩ := summary_of_sent packages hpos hsent ack.truncated
        exact .inl ⟨hdone, _, hround, rfl, hsize, hwhole, hall⟩
      · have hmore : acknowledged answers n + 1 < divCeil content.length file.chunkSize := by
          have hne := fun h => hdone (.inl h)
          omega
        have hfinished : ack.finished = false := by
          cases hflag : ack.finished with
          | false => rfl
          | true => exact (hdone (.inr hflag)).elim
        have hnot : decide (acknowledged answers n + 1 =
            divCeil content.length file.chunkSize) = false :=
          decide_eq_false fun h => hdone (.inl h)
        rw [hnot] at hround hsent
        rw [hmk.answered_more _ _ hfinished (hsent.index.symm ▸ hnear)] at hround
        refine .inr ⟨hmore, hfinished, _, hround, ⟨hs.ofState, hs.ofFile, ?_, ?_, ?_, ?_⟩, rfl⟩
        · refine ⟨mk, _, hmk, rfl, hsent.more, ?_⟩
          simp only [hlength, acknowledged, hanswer, hsent.index]
          rfl
        · intro m hm
          rw [hlength] at hm
          cases hm
          rw [hanswer]
          rfl
        · intro m hm
          simp only [hlength] at hm
          rcases Nat.lt_or_ge m s.log.length with hold | hnew
          · exact hs.goesOn m hold
          · rcases Nat.lt_succ_iff_lt_or_eq.mp hm with hlt | rfl
            · exact (hagain m hnew hlt).1
            · rw [StreamGoesOn, hanswer]
              exact hfinished
        · intro index hlt
          simp only [hlength, acknowledged, hanswer] at hlt
          exact hall index hlt

theorem acknowledged_mono (answers : Nat → Answer) {n m : Nat} (h : n ≤ m) :
    acknowledged answers n ≤ acknowledged answers m := by
  induction m with
  | zero => rw [Nat.le_zero.mp h]
  | succ m ih =>
    rcases Nat.le_succ_iff.mp h with hle | rfl
    · exact (ih hle).trans (Nat.le_add_right _ _)
    · exact le_refl _

/-- Without an early end, what is returned without a mark is about the whole content. -/
theorem whole_of_returns (hpos : 0 < file.chunkSize)
    (hnever : ∀ n, ¬FinishesEarly (divCeil content.length file.chunkSize) answers n)
    (hs : StreamReady packages state file content answers s) {sent : Sent}
    (hreturns : Returns (round packages content answers) s sent) :
    ∀ summary, sent.result = .ok summary → summary.truncated = false →
      summary.fileSize = content.length ∧
      summary.sha256 = some (packages.sha256Hex content) ∧
      ∀ index < divCeil content.length file.chunkSize,
        Acknowledged packages state file content sent.log index := by
  refine returns_invariant (StreamReady packages state file content answers)
    (fun s s' hs hround => ?_)
    (fun sent => ∀ summary, sent.result = .ok summary → summary.truncated = false →
      summary.fileSize = content.length ∧
      summary.sha256 = some (packages.sha256Hex content) ∧
      ∀ index < divCeil content.length file.chunkSize,
        Acknowledged packages state file content sent.log index)
    (fun s sent hs hround => ?_) hs hreturns
  · obtain ⟨-, ⟨-, e, hends⟩ | ⟨n, log', -, -, -, -, -, ⟨e, -, -, hends⟩ | ⟨ack, -,
      ⟨-, summary, hends, -⟩ | ⟨-, -, next, hagain, hnext, -⟩⟩⟩⟩ := streamRound_cases hpos hs
    · rw [hround] at hends
      cases hends
    · rw [hround] at hends
      cases hends
    · rw [hround] at hends
      cases hends
    · rw [hround] at hagain
      cases hagain
      exact hnext
  · obtain ⟨hinside, ⟨-, e, hends⟩ | ⟨n, log', -, hle, hcount, hmost, hagain, ⟨e, -, -, hends⟩ |
      ⟨ack, hanswer, ⟨hdone, found, hends, htruncated, -, hwhole, hacked⟩ |
        ⟨-, -, next, hagain, -⟩⟩⟩⟩ := streamRound_cases hpos hs
    · rw [hround] at hends
      cases hends
      intro summary h
      cases h
    · rw [hround] at hends
      cases hends
      intro summary h
      cases h
    · rw [hround] at hends
      cases hends
      intro summary h hmark
      cases h
      have hlast : acknowledged answers n + 1 = divCeil content.length file.chunkSize := by
        by_contra hearly
        refine hnever n ⟨fun m hm => ?_, by omega, hmost, ack, hanswer,
          hdone.resolve_left hearly, htruncated ▸ hmark⟩
        rcases Nat.lt_or_ge m s.log.length with hold | hnew
        · exact hs.goesOn m hold
        · exact (hagain m hnew hm).1
      obtain ⟨hsize, hdigest⟩ := hwhole hlast
      exact ⟨hsize, hdigest, fun index hindex => hacked index (hlast ▸ hindex)⟩
    · rw [hround] at hagain
      cases hagain

/-- An early end is returned without a mark, with the size of a part of the content. -/
theorem part_of_early (hpos : 0 < file.chunkSize) {n : Nat}
    (hearly : FinishesEarly (divCeil content.length file.chunkSize) answers n)
    (hs : StreamReady packages state file content answers s) (hlength : s.log.length ≤ n) :
    ∃ sent summary, Returns (round packages content answers) s sent ∧
      sent.result = .ok summary ∧ summary.truncated = false ∧
      summary.fileSize < content.length := by
  obtain ⟨last, hlast, hflag, hmark⟩ := hearly.finished
  induction hleft : n - s.log.length using Nat.strongRecOn generalizing s with
  | ind left ih =>
    have hbefore := hearly.before
    have hfew := acknowledged_mono answers hlength
    have hindex := hearly.index
    have hpart := hearly.early
    obtain ⟨-, ⟨hfar, -⟩ | ⟨k, log', hlog', hle, hcount, -, hagain, hanswer⟩⟩ :=
      streamRound_cases hpos hs
    · omega
    have hk : k ≤ n := by
      by_contra hgt
      have hcorrupt := (hagain n hlength (by omega)).2
      rw [hlast] at hcorrupt
      cases hcorrupt
    rcases Nat.lt_or_eq_of_le hk with hlt | rfl
    · have hgoes := hbefore k hlt
      rcases hanswer with ⟨e, -, hnot, -⟩ | ⟨ack, hack, ⟨hdone, -⟩ | ⟨-, -, s', hround, hs', hlog⟩⟩
      · exact (hnot hgoes).elim
      · rw [StreamGoesOn, hack] at hgoes
        rcases hdone with hend | hfinished
        · omega
        · rw [hgoes] at hfinished
          cases hfinished
      · have hlonger : s'.log.length = k + 1 := by rw [hlog, hlog']
        obtain ⟨sent, summary, hreturns, hrest⟩ :=
          ih (n - s'.log.length) (by omega) hs' (by omega) rfl
        exact ⟨sent, summary, returns_of_again hround hreturns, hrest⟩
    · rcases hanswer with ⟨e, herror, -⟩ | ⟨ack, hack, ⟨-, summary, hround, htruncated, hsize, -⟩ |
        ⟨-, hfinished, -⟩⟩
      · rw [hlast] at herror
        cases herror
      · rw [hlast] at hack
        cases hack
        refine ⟨_, summary, returns_of_ends hround, rfl, htruncated.trans hmark, ?_⟩
        rw [hsize]
        have hlt := mt (divCeil_le_iff (n := content.length) hpos).mpr (not_le.mpr hpart)
        omega
      · rw [hlast] at hack
        cases hack
        rw [hflag] at hfinished
        cases hfinished

end Round

section Calls

variable {state : UploadState} {status : Except SdkError StatusAck} {content : List UInt8}

/-- A call that sends a stream begins with its first chunk. -/
theorem streamReady_start (packages : Packages) (answers : Nat → Answer)
    (put : Option (String × String)) {task : Task} (hsize : state.block.fileSize = none)
    (h : (streamCall put).start state status content = .ok task) :
    ∃ file, state.fileCipher = .ok file ∧ file.chunkSize = state.block.chunkSize ∧
      0 < file.chunkSize ∧
      StreamReady packages state file content answers { task := task, log := [] } := by
  have hfile := Call.start_fileCipher h
  obtain ⟨-, -, -, -, hchunk, hne⟩ := UploadState.params_of_fileCipher hfile
  refine ⟨task.file, hfile, hchunk.symm, Nat.pos_of_ne_zero hne, ?_⟩
  obtain ⟨⟨file, loop⟩, hloop, rfl⟩ := map_eq_ok h
  have hstream : ∃ mk, IsStream mk ∧ content.take state.block.chunkSize ≠ [] ∧ loop =
      mk (Streaming.start state.block.chunkSize (content.take state.block.chunkSize)) := by
    cases put with
    | none =>
      obtain ⟨⟨file', stream⟩, hstart, heq⟩ := map_eq_ok hloop
      cases heq
      obtain ⟨-, hpending, rfl⟩ := SendStream.start_eq_ok hstart
      exact ⟨.sendStream, .inl rfl, hpending, rfl⟩
    | some account =>
      obtain ⟨-, ⟨size, body, hknown, -⟩ | ⟨stream, hstart, rfl⟩⟩ :=
        receiveUpload.start_eq_ok hloop
      · rw [hsize] at hknown
        cases hknown
      · obtain ⟨-, hpending, rfl⟩ := SendStreamedBody.start_eq_ok hstart
        exact ⟨.sendStreamedBody, .inr rfl, hpending, rfl⟩
  obtain ⟨mk, hmk, hpending, rfl⟩ := hstream
  dsimp only at hchunk
  rw [hchunk] at hpending ⊢
  exact ⟨rfl, rfl, ⟨mk, _, hmk, rfl, UploadRoundTrip.streamSound_start hpending, rfl⟩,
    fun m hm => (by cases hm), fun m hm => absurd hm (Nat.not_lt_zero m),
    fun index hindex => absurd hindex (Nat.not_lt_zero index)⟩

/-- An early end makes a call claim less than the content. -/
theorem not_claims_of_early {packages : Packages} {answers : Nat → Answer}
    {put : Option (String × String)} {task : Task} (hsize : state.block.fileSize = none)
    (hstart : (streamCall put).start state status content = .ok task) {n : Nat}
    (hearly : FinishesEarly (divCeil content.length state.block.chunkSize) answers n) :
    ¬ClaimsWhatItSent packages state content (streamCall put) status answers := by
  intro hclaims
  obtain ⟨file, hfile, hchunk, hpos, hready⟩ :=
    streamReady_start packages answers put hsize hstart
  rw [← hchunk] at hearly
  obtain ⟨sent, summary, hreturns, hok, hmark, hpart⟩ :=
    part_of_early hpos hearly hready (Nat.zero_le n)
  have hreturned : CallReturns packages state content (streamCall put) status answers sent := by
    simp only [CallReturns, hstart]
    exact hreturns
  have hwhole := (hclaims sent summary hreturned hok hmark).1
  omega

/-- For every stream and all answers: what the two calls return without a mark is about the whole
stream exactly when the server does not say, at a chunk before the last one, that it has finished
and not that it has truncated the upload. -/
theorem streams_claim_what_they_sent (packages : Packages) (state : UploadState)
    (content : List UInt8) (put : Option (String × String)) (status : Except SdkError StatusAck)
    (answers : Nat → Answer) (hsize : state.block.fileSize = none) :
    ClaimsWhatItSent packages state content (streamCall put) status answers ↔
      ∀ task, (streamCall put).start state status content = .ok task →
        ∀ n, ¬FinishesEarly (divCeil content.length state.block.chunkSize) answers n := by
  constructor
  · intro hclaims task hstart n hearly
    exact not_claims_of_early hsize hstart hearly hclaims
  · intro hnever sent summary hreturned hok hmark
    cases hstart : (streamCall put).start state status content with
    | error e =>
        simp only [CallReturns, hstart] at hreturned
        rw [hreturned] at hok
        cases hok
    | ok task =>
        simp only [CallReturns, hstart] at hreturned
        obtain ⟨file, hfile, hchunk, hpos, hready⟩ :=
          streamReady_start packages answers put hsize hstart
        have hnone := hnever task hstart
        rw [← hchunk] at hnone
        obtain ⟨hfileSize, hsha, hacked⟩ :=
          whole_of_returns hpos hnone hready hreturned summary hok hmark
        refine ⟨hfileSize, hsha, fun file' hfile' => ?_⟩
        rw [hfile] at hfile'
        cases hfile'
        exact hacked

end Calls

/-- The two chunks of three bytes are acknowledged, and the server finishes at the last one. -/
def acknowledgesBoth : Nat → Answer
  | 0 => .ok { received := 1, finished := false, truncated := false }
  | _ => .ok { received := 2, finished := true, truncated := false }

theorem streams_claim_what_they_sent_both :
    ClaimsWhatItSent UploadRoundTrip.wholePackages (UploadRoundTrip.exampleState none) [1, 2, 3]
      (streamCall none) (.error (.network "connection closed")) acknowledgesBoth := by
  refine (streams_claim_what_they_sent _ _ _ none _ _ rfl).mpr fun task _ n hearly => ?_
  obtain ⟨ack, hack, hfinished, -⟩ := hearly.finished
  cases n with
  | zero =>
      cases hack
      cases hfinished
  | succ n =>
      cases n with
      | zero => exact absurd hearly.early (by decide)
      | succ n =>
          have hgoes : StreamGoesOn acknowledgesBoth 1 := hearly.before 1 (by omega)
          cases hgoes

/-- The server says at the first of two chunks that it has finished. -/
theorem stream_claims_first_chunk :
    ¬∀ (packages : Packages) (state : UploadState) (content : List UInt8)
      (put : Option (String × String)) (status : Except SdkError StatusAck)
      (answers : Nat → Answer), state.block.fileSize = none →
        ClaimsWhatItSent packages state content (streamCall put) status answers := by
  intro h
  have hearly : FinishesEarly
      (divCeil [1, 2, 3].length (UploadRoundTrip.exampleState none).block.chunkSize)
      (fun _ => .ok { received := 1, finished := true, truncated := false }) 0 :=
    ⟨fun m hm => absurd hm (Nat.not_lt_zero m), by decide, by decide, _, rfl, rfl, rfl⟩
  have hstart : (streamCall none).start (UploadRoundTrip.exampleState none)
      (.error (.network "connection closed")) [1, 2, 3] =
        .ok { state := UploadRoundTrip.exampleState none, file := UploadRoundTrip.exampleFile,
              loop := .sendStream (Streaming.start 2 [1, 2]) } := by
    decide
  exact not_claims_of_early rfl hstart hearly (h UploadRoundTrip.wholePackages
    (UploadRoundTrip.exampleState none) [1, 2, 3] none (.error (.network "connection closed")) _
    rfl)

end UploadReplies
end WbfMatrixClient
