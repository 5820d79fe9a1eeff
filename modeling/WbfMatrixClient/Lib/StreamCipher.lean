import Mathlib.Data.List.Basic

/-!
# Ciphers byte by byte

A cipher that makes one byte of each byte and keeps a state. What it makes of a
text does not depend on how the text is cut into parts, as long as the state is
carried from part to part.

A channel takes messages in order until its other end is gone.
-/

namespace WbfMatrixClient
namespace StreamCipher

universe u v

variable {σ : Type u}

/-- The bytes that are made of a text, and the state after it. -/
def run (step : σ → UInt8 → UInt8 × σ) : σ → List UInt8 → List UInt8 × σ
  | s, [] => ([], s)
  | s, byte :: rest =>
      let next := step s byte
      let after := run step next.2 rest
      (next.1 :: after.1, after.2)

section Runs

variable {step : σ → UInt8 → UInt8 × σ} {s : σ}

@[simp] theorem run_nil : run step s [] = ([], s) := rfl

/-- A text in two parts. -/
theorem run_append (first rest : List UInt8) :
    run step s (first ++ rest) =
      ((run step s first).1 ++ (run step (run step s first).2 rest).1,
        (run step (run step s first).2 rest).2) := by
  induction first generalizing s with
  | nil => rfl
  | cons byte first ih => rw [List.cons_append, run, ih, run, List.cons_append]

@[simp] theorem length_run (text : List UInt8) : (run step s text).1.length = text.length := by
  induction text generalizing s with
  | nil => rfl
  | cons byte text ih => rw [run, List.length_cons, ih, List.length_cons]

end Runs

/-- The sending end of a channel: what was sent, and after how many messages the other end is
gone, if it is at all. -/
structure Sink (α : Type v) where
  sent : List α
  closesAfter : Option Nat

namespace Sink

variable {α : Type v}

/-- An open channel takes the message. -/
def send (sink : Sink α) (message : α) : Option (Sink α) :=
  if sink.closesAfter = some sink.sent.length then none
  else some { sink with sent := sink.sent ++ [message] }

theorem send_eq_some {sink sink' : Sink α} {message : α} (h : sink.send message = some sink') :
    sink'.sent = sink.sent ++ [message] ∧ sink'.closesAfter = sink.closesAfter := by
  rw [send] at h
  split_ifs at h
  cases h
  exact ⟨rfl, rfl⟩

theorem send_of_open {sink : Sink α} (h : sink.closesAfter = none) (message : α) :
    sink.send message = some { sink with sent := sink.sent ++ [message] } := by
  rw [send, if_neg]
  rw [h]
  exact nofun

end Sink
end StreamCipher
end WbfMatrixClient
