import WbfMatrixClient.Lib.Rounds
import WbfMatrixClient.UploadRoundTrip

/-!
# Sending chunks to any server

A call that sends chunks, and a server about which nothing is known: its answers come in some
order, whatever is asked. What was asked and answered is kept. A chunk whose request arrived
corrupted is sent once more, so a round of the call takes one answer or two, and a round that
skips a chunk takes none.
-/

namespace WbfMatrixClient
namespace UploadReplies

open Rounds
open UploadRoundTrip (remaining)

abbrev Answer : Type := Except SdkError ChunkAck

/-- The requests that were sent, each with its answer. -/
abbrev Log : Type := List (ChunkRequest × Answer)

/-- The answers come in their order. -/
def inOrder (answers : Nat → Answer) : Exchange ChunkRequest ChunkAck Log :=
  fun request log => (answers log.length, log ++ [(request, answers log.length)])

/-- A call between two of its rounds. -/
structure Sending where
  task : Task
  log : Log

/-- What a call has returned. -/
structure Sent where
  result : Except SdkError SentSummary
  log : Log

def round (packages : Packages) (content : List UInt8) (answers : Nat → Answer) (s : Sending) :
    Round Sending Sent :=
  let outcome := s.task.turn packages (inOrder answers) (remaining content s.task.loop) s.log
  match outcome.result with
  | .error e => .ends { result := .error e, log := outcome.rest }
  | .ok (.done summary) => .ends { result := .ok summary, log := outcome.rest }
  | .ok (.more task) => .again { task := task, log := outcome.rest }

/-- What a call returns. One that does not begin to send has sent nothing. -/
def CallReturns (packages : Packages) (state : UploadState) (content : List UInt8) (call : Call)
    (status : Except SdkError StatusAck) (answers : Nat → Answer) (sent : Sent) : Prop :=
  match call.start state status content with
  | .error e => sent = { result := .error e, log := [] }
  | .ok task => Returns (round packages content answers) { task := task, log := [] } sent

def CallEnds (packages : Packages) (state : UploadState) (content : List UInt8) (call : Call)
    (status : Except SdkError StatusAck) (answers : Nat → Answer) : Prop :=
  ∃ sent, CallReturns packages state content call status answers sent

/-- The request arrived corrupted. -/
def corrupted : Answer → Bool
  | .ok _ => false
  | .error e => e.wbfCode = some .corrupt

/-- The chunk that an answer names as the next one the server takes. -/
def named : Answer → Option Nat
  | .ok ack => some ack.received
  | .error e => expectedSeqOf e

theorem wbfCode_of_expectedSeqOf {e : SdkError} {expected : Nat}
    (h : expectedSeqOf e = some expected) : e.wbfCode = some .outOfOrder := by
  unfold expectedSeqOf at h
  split at h
  · split_ifs at h with hcode
    exact hcode
  · cases h

section Rounds

variable {packages : Packages} {content : List UInt8} {answers : Nat → Answer} {s : Sending}

variable {log : Log}

theorem sendChunk_of_corrupted {request : ChunkRequest}
    (h : corrupted (answers log.length) = true) :
    sendChunk (inOrder answers) request log =
      (answers (log.length + 1),
        log ++ [(request, answers log.length), (request, answers (log.length + 1))]) := by
  unfold sendChunk inOrder
  cases hanswer : answers log.length with
  | ok ack =>
    rw [hanswer] at h
    cases h
  | error e =>
    rw [hanswer] at h
    simp only
    rw [if_pos (of_decide_eq_true h)]
    simp

theorem sendChunk_of_not_corrupted {request : ChunkRequest}
    (h : corrupted (answers log.length) = false) :
    sendChunk (inOrder answers) request log =
      (answers log.length, log ++ [(request, answers log.length)]) := by
  unfold sendChunk inOrder
  cases hanswer : answers log.length with
  | ok ack => rfl
  | error e =>
    rw [hanswer] at h
    simp only
    rw [if_neg (of_decide_eq_false h)]

theorem round_of_error {e : SdkError}
    (h : s.task.loop.next packages (remaining content s.task.loop) = .error e) :
    round packages content answers s = .ends { result := .error e, log := s.log } := by
  simp only [round, Task.turn, h]

theorem round_of_done {summary : SentSummary}
    (h : s.task.loop.next packages (remaining content s.task.loop) = .ok (.done summary)) :
    round packages content answers s = .ends { result := .ok summary, log := s.log } := by
  simp only [round, Task.turn, h]

variable {loop : Loop}

theorem round_of_skip
    (h : s.task.loop.next packages (remaining content s.task.loop) = .ok (.skip loop)) :
    round packages content answers s =
      .again { task := { s.task with loop := loop }, log := s.log } := by
  simp only [round, Task.turn, h]

/-- What a loop makes of an answer decides what the round comes to. -/
theorem round_of_send {index : Nat} {plain data : List UInt8} {isLast : Bool}
    (hnext : s.task.loop.next packages (remaining content s.task.loop) = .ok (.send index plain
      isLast loop)) (hseal : s.task.file.sealChunk packages index plain = .ok data)
    {answer : Answer}
    (hreply : sendChunk (inOrder answers)
      { uploadId := s.task.state.uploadId, index := index, data := data, isLast := isLast } s.log =
        (answer, log)) :
    round packages content answers s =
      match loop.answered packages index isLast answer with
      | .error e => .ends { result := .error e, log := log }
      | .ok (.done summary) => .ends { result := .ok summary, log := log }
      | .ok (.more loop) => .again { task := { s.task with loop := loop }, log := log } := by
  simp only [round, Task.turn, hnext, hseal, hreply]
  cases loop.answered packages index isLast answer with
  | error e => rfl
  | ok progress => cases progress <;> rfl

theorem round_of_sealChunk_error {index : Nat} {plain : List UInt8} {isLast : Bool}
    {e : CryptoError}
    (hnext : s.task.loop.next packages (remaining content s.task.loop) = .ok (.send index plain
      isLast loop)) (hseal : s.task.file.sealChunk packages index plain = .error e) :
    round packages content answers s = .ends { result := .error e.toSdkError, log := s.log } := by
  simp only [round, Task.turn, hnext, hseal]

end Rounds

end UploadReplies
end WbfMatrixClient
