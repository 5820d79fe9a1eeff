import WbfMatrixClient.MediaPoolRoundTrip

/-!
# A pool file as a file that is read anywhere

The reader over a finished file is compared with a cursor over its plaintext, call by call. A seek
gives the same position or fails where it would fail, and a read gives what the cursor gives for a
buffer that does not go past the end of the segment: one segment is opened at a time.
-/

namespace WbfMatrixClient
namespace MediaPool

open Sealing

/-- Where a seek goes. -/
inductive SeekFrom where
  | start (offset : UInt64)
  | «end» (delta : Int64)
  | current (delta : Int64)

def PoolReader.seek (r : PoolReader) (target : SeekFrom) : PoolReader × Except SdkError Nat :=
  let base : Int :=
    match target with
    | .start offset => offset.toNat
    | .«end» delta => r.plainLen + delta.toInt
    | .current delta => r.position + delta.toInt
  if base < 0 then
    (r, .error (.io "seek before start"))
  else
    let position := (base % 2 ^ 64).toNat
    ({ r with position := position }, .ok position)

/-- Bytes in memory, read from a position. -/
structure Cursor where
  bytes : List UInt8
  position : Nat

namespace Cursor

def read (c : Cursor) (outLen : Nat) : Cursor × List UInt8 :=
  let found := (c.bytes.drop c.position).take outLen
  ({ c with position := c.position + found.length }, found)

def seekBy (c : Cursor) (base : Nat) (delta : Int64) : Cursor × Except SdkError Nat :=
  if base + delta.toInt < 0 ∨ 2 ^ 64 ≤ base + delta.toInt then
    (c, .error (.io "invalid seek to a negative or overflowing position"))
  else
    ({ c with position := (base + delta.toInt).toNat }, .ok (base + delta.toInt).toNat)

def seek (c : Cursor) : SeekFrom → Cursor × Except SdkError Nat
  | .start offset => ({ c with position := offset.toNat }, .ok offset.toNat)
  | .«end» delta => c.seekBy c.bytes.length delta
  | .current delta => c.seekBy c.position delta

end Cursor

/-- A call of whoever reads. -/
inductive ReadCall where
  | read (outLen : Nat)
  | seek (target : SeekFrom)

/-- What a call comes to. The texts of errors differ. -/
inductive ReadAnswer where
  | bytes (found : List UInt8)
  | sought (position : Nat)
  | failed
deriving DecidableEq

def ReadAnswer.ofSeek : Except SdkError Nat → ReadAnswer
  | .ok position => .sought position
  | .error _ => .failed

def PoolReader.call (pool : Pool) (r : PoolReader) : ReadCall → PoolReader × ReadAnswer
  | .read outLen =>
      match r.read pool outLen with
      | .ok (r, found) => (r, .bytes found)
      | .error _ => (r, .failed)
  | .seek target =>
      let (r, sought) := r.seek target
      (r, .ofSeek sought)

def PoolReader.answers (pool : Pool) : PoolReader → List ReadCall → List ReadAnswer
  | _, [] => []
  | r, call :: calls => (r.call pool call).2 :: PoolReader.answers pool (r.call pool call).1 calls

namespace Cursor

def call (c : Cursor) : ReadCall → Cursor × ReadAnswer
  | .read outLen =>
      let (c, found) := c.read outLen
      (c, .bytes found)
  | .seek target =>
      let (c, sought) := c.seek target
      (c, .ofSeek sought)

/-- The call with a buffer that does not go past the end of a segment. -/
def cutOff (c : Cursor) : ReadCall → ReadCall
  | .read outLen => .read (min outLen (segmentSize - c.position % segmentSize))
  | .seek target => .seek target

def answers : Cursor → List ReadCall → List ReadAnswer
  | _, [] => []
  | c, call :: calls => (c.call call).2 :: answers (c.call call).1 calls

/-- What the cursor answers when every buffer is cut off where the segment ends. -/
def answersCutOff : Cursor → List ReadCall → List ReadAnswer
  | _, [] => []
  | c, call :: calls =>
      (c.call (c.cutOff call)).2 :: answersCutOff (c.call (c.cutOff call)).1 calls

/-- A read over the end of a segment is cut off there. -/
theorem answersCutOff_ne {bytes : List UInt8} {outLen : Nat} (hlong : segmentSize < bytes.length)
    (hlen : segmentSize < outLen) :
    (Cursor.mk bytes 0).answersCutOff [.read outLen] ≠
      (Cursor.mk bytes 0).answers [.read outLen] := by
  simp only [answersCutOff, answers, call, cutOff, read, List.drop_zero, Nat.zero_mod,
    Nat.sub_zero, ne_eq, List.cons.injEq, ReadAnswer.bytes.injEq, and_true]
  intro hsame
  have hlength := congrArg List.length hsame
  simp only [List.length_take] at hlength
  omega

/-- The place that a seek goes to can be written down in 64 bits. -/
def Fits (c : Cursor) : ReadCall → Prop
  | .read _ => True
  | .seek (.start _) => True
  | .seek (.«end» delta) => c.bytes.length + delta.toInt < 2 ^ 64
  | .seek (.current delta) => c.position + delta.toInt < 2 ^ 64

/-- A step back after a read that starts a file fits. -/
theorem fits_back (bytes : List UInt8) (outLen : Nat) (hlen : outLen < 2 ^ 63) :
    ((Cursor.mk bytes 0).call (.read outLen)).1.Fits (.seek (.current (-1))) := by
  have hle : ((bytes.drop 0).take outLen).length ≤ outLen := List.length_take_le _ _
  have hback : (-1 : Int64).toInt = -1 := by decide
  rw [Fits, hback]
  change ((0 + ((bytes.drop 0).take outLen).length : Nat) : Int) + -1 < 2 ^ 64
  omega

/-- No seek of a run goes further. -/
def AllFit : Cursor → List ReadCall → Prop
  | _, [] => True
  | c, call :: calls => c.Fits call ∧ AllFit (c.call (c.cutOff call)).1 calls

end Cursor

section Calls

variable {pool : Pool} {content : Content} {header : Header} {count : Nat}
variable {r : PoolReader} {c : Cursor}

/-- The reader is where the cursor is. -/
structure Follows (pool : Pool) (content : Content) (header : Header) (count : Nat)
    (r : PoolReader) (c : Cursor) : Prop where
  sound : ReaderSound pool content header count r
  bytes : c.bytes = content.bytes
  position : c.position = r.position

section

variable (h : Follows pool content header count r c)

include h

theorem Follows.moved (position : Nat) :
    Follows pool content header count { r with position := position }
      { c with position := position } :=
  ⟨⟨h.sound.complete, h.sound.header_eq, h.sound.segments_eq, h.sound.plainLen_eq,
    h.sound.loaded⟩, h.bytes, rfl⟩

/-- A place that fits is where a relative seek goes, on both sides. -/
theorem Follows.seekBy (base : Nat) (delta : Int64) {target : SeekFrom}
    (hbase : r.seek target =
      if (base : Int) + delta.toInt < 0 then (r, .error (.io "seek before start"))
      else ({ r with position := ((base + delta.toInt) % 2 ^ 64).toNat },
        .ok ((base + delta.toInt) % 2 ^ 64).toNat)) (hcursor : c.seek target = c.seekBy base delta)
    (hfits : base + delta.toInt < 2 ^ 64) :
    Follows pool content header count (r.seek target).1 (c.seek target).1 ∧
      ReadAnswer.ofSeek (r.seek target).2 = ReadAnswer.ofSeek (c.seek target).2 := by
  rw [hbase, hcursor, Cursor.seekBy]
  by_cases hneg : (base : Int) + delta.toInt < 0
  · rw [if_pos hneg, if_pos (.inl hneg)]
    exact ⟨h, rfl⟩
  · have hin : ((base : Int) + delta.toInt) % 2 ^ 64 = base + delta.toInt :=
      Int.emod_eq_of_lt (Int.not_lt.mp hneg) hfits
    rw [if_neg hneg, if_neg (not_or.mpr ⟨hneg, Int.not_le.mpr hfits⟩), hin]
    exact ⟨h.moved _, rfl⟩

/-- Every call keeps the reader where the cursor is, and both give the same answer. -/
theorem Follows.call {call : ReadCall} (hfits : c.Fits call) :
    Follows pool content header count (r.call pool call).1 (c.call (c.cutOff call)).1 ∧
      (r.call pool call).2 = (c.call (c.cutOff call)).2 := by
  cases call with
  | read outLen =>
    obtain ⟨r', heq, hsound, hposition⟩ := read_within h.sound outLen
    have hread : r.call pool (.read outLen) = (r', .bytes ((content.bytes.drop r.position).take
        (min outLen (segmentSize - r.position % segmentSize)))) := by
      rw [PoolReader.call, heq]
    rw [hread, Cursor.cutOff, Cursor.call, Cursor.read, h.bytes, h.position]
    exact ⟨⟨hsound, rfl, hposition.symm⟩, rfl⟩
  | seek target =>
    have hboth : Follows pool content header count (r.seek target).1 (c.seek target).1 ∧
        ReadAnswer.ofSeek (r.seek target).2 = ReadAnswer.ofSeek (c.seek target).2 := by
      cases target with
      | start offset =>
        have hoffset : ((offset.toNat : Int) % 2 ^ 64).toNat = offset.toNat := by
          have hlt := offset.toNat_lt
          omega
        have hstart : r.seek (.start offset) =
            (r.seekStart offset.toNat, .ok offset.toNat) := by
          simp only [PoolReader.seek, hoffset]
          exact if_neg (by omega)
        rw [hstart]
        exact ⟨h.moved _, rfl⟩
      | «end» delta =>
        refine h.seekBy content.bytes.length delta ?_ ?_ ?_
        · rw [PoolReader.seek, h.sound.plainLen_eq]
        · rw [Cursor.seek, h.bytes]
        · rw [← h.bytes]
          exact hfits
      | current delta =>
        refine h.seekBy c.position delta ?_ rfl hfits
        rw [PoolReader.seek, h.position]
    exact hboth

end

/-- Whatever is called, the reader answers as the cursor does. -/
theorem Follows.answers :
    ∀ (calls : List ReadCall) {r : PoolReader} {c : Cursor},
      Follows pool content header count r c → c.AllFit calls →
      r.answers pool calls = c.answersCutOff calls := by
  intro calls
  induction calls with
  | nil =>
    intro r c _ _
    rfl
  | cons call calls ih =>
    intro r c h hfit
    obtain ⟨hnext, hanswer⟩ := h.call hfit.1
    rw [PoolReader.answers, Cursor.answersCutOff, hanswer, ih hnext hfit.2]

end Calls

section Finished

variable (pool : Pool) (mxc : List UInt8) (content : Content)

/-- A reader of a finished file starts where the cursor over the plaintext does. -/
theorem follows_of_finished (actions : List Action) {done : Finished}
    (hdone : (Runs.run (step pool mxc content) State.start actions).finished = some done) :
    ∃ r header,
      pool.openRead (Runs.run (step pool mxc content) State.start actions).disk.bytes = .ok r ∧
      Follows pool content header done.segments r ⟨content.bytes, 0⟩ := by
  have hsound := stateSound_run pool mxc content actions
  obtain ⟨header, hcomplete⟩ := (hsound.finished done hdone).complete
  obtain ⟨r, hopen, hreader, hposition⟩ := openRead_spec hcomplete
  exact ⟨r, header, hopen, hreader, rfl, hposition.symm⟩

/-- A reader of a finished file answers every sequence of calls as a cursor over the plaintext
does whose reads stop at the end of the segment they start in. -/
theorem poolReader_answers_as_cursor (actions : List Action) (done : Finished)
    (hdone : (Runs.run (step pool mxc content) State.start actions).finished = some done) :
    ∃ r, pool.openRead (Runs.run (step pool mxc content) State.start actions).disk.bytes = .ok r ∧
      ∀ calls, (Cursor.mk content.bytes 0).AllFit calls →
        r.answers pool calls = (Cursor.mk content.bytes 0).answersCutOff calls := by
  obtain ⟨r, header, hopen, hfollows⟩ := follows_of_finished pool mxc content actions hdone
  exact ⟨r, hopen, fun calls hfit => Follows.answers calls hfollows hfit⟩

/-- The actions of whoever writes a file without a fault. -/
def writeWhole : List Action :=
  [.create (Vector.replicate nonceBaseLen 0) none, .write content.bytes.length [], .finish none]

theorem writeWhole_finished (hpos : 0 < content.bytes.length) :
    ∃ done, (Runs.run (step pool mxc content) State.start (writeWhole content)).finished =
      some done := by
  have hcreated := stateSound_run pool mxc content
    [.create (Vector.replicate nonceBaseLen 0) none]
  exact Option.isSome_iff_exists.mp (write_rest_finish hcreated rfl hpos)

end Finished

/-- A pool whose hashes are the bytes themselves. -/
def examplePool : Pool :=
  { aead := Aead.marked _ _ _, key := [], blake3 := id, sha256 := id }

/-- One byte more than a segment. -/
def twoSegments : Content where
  bytes := List.replicate (segmentSize + 1) 0
  length_lt := by
    rw [List.length_replicate]
    decide

theorem twoSegments_pos : 0 < twoSegments.bytes.length := by
  rw [twoSegments, List.length_replicate]
  exact Nat.succ_pos _

/-- A read over the end of a segment, and a step back, are answered as the cursor answers them
with its read cut off. -/
theorem poolReader_answers_as_cursor_across :
    ∃ (done : Finished) (r : PoolReader),
      (Runs.run (step examplePool [] twoSegments) State.start
        (writeWhole twoSegments)).finished = some done ∧
      examplePool.openRead (Runs.run (step examplePool [] twoSegments) State.start
        (writeWhole twoSegments)).disk.bytes = .ok r ∧
      r.answers examplePool [.read (segmentSize + 1), .seek (.current (-1))] =
        (Cursor.mk twoSegments.bytes 0).answersCutOff
          [.read (segmentSize + 1), .seek (.current (-1))] := by
  obtain ⟨done, hdone⟩ := writeWhole_finished examplePool [] twoSegments twoSegments_pos
  obtain ⟨r, hopen, hanswers⟩ := poolReader_answers_as_cursor examplePool [] twoSegments
    (writeWhole twoSegments) done hdone
  refine ⟨done, r, hdone, hopen, hanswers _ ⟨trivial, ?_, trivial⟩⟩
  exact Cursor.fits_back _ _ ((Nat.min_le_left _ _).trans_lt (by decide))

/-- A read does not go over the end of a segment, and a seek past the last position that 64 bits
can hold goes to the start. -/
theorem poolReader_differs_from_cursor :
    ∃ (done : Finished) (r : PoolReader),
      (Runs.run (step examplePool [] twoSegments) State.start
        (writeWhole twoSegments)).finished = some done ∧
      examplePool.openRead (Runs.run (step examplePool [] twoSegments) State.start
        (writeWhole twoSegments)).disk.bytes = .ok r ∧
      r.answers examplePool [.read (segmentSize + 1)] ≠
        (Cursor.mk twoSegments.bytes 0).answers [.read (segmentSize + 1)] ∧
      r.answers examplePool [.seek (.start 18446744073709551615), .seek (.current 1)] ≠
        (Cursor.mk twoSegments.bytes 0).answers
          [.seek (.start 18446744073709551615), .seek (.current 1)] := by
  obtain ⟨done, hdone⟩ := writeWhole_finished examplePool [] twoSegments twoSegments_pos
  obtain ⟨r, header, hopen, hfollows⟩ :=
    follows_of_finished examplePool [] twoSegments (writeWhole twoSegments) hdone
  refine ⟨done, r, hdone, hopen, ?_, ?_⟩
  · rw [Follows.answers [.read (segmentSize + 1)] hfollows ⟨trivial, trivial⟩]
    refine Cursor.answersCutOff_ne ?_ (Nat.lt_succ_self _)
    rw [twoSegments, List.length_replicate]
    exact Nat.lt_succ_self _
  · -- the reader is sought to where the cursor fails
    have hlast : (18446744073709551615 : UInt64).toNat = 2 ^ 64 - 1 := rfl
    have hmore : (1 : Int64).toInt = 1 := by decide
    have hreader : r.answers examplePool
        [.seek (.start 18446744073709551615), .seek (.current 1)] =
          [.sought (2 ^ 64 - 1), .sought 0] := by
      simp [PoolReader.answers, PoolReader.call, PoolReader.seek, hlast, hmore, ReadAnswer.ofSeek]
    have hcursor : (Cursor.mk twoSegments.bytes 0).answers
        [.seek (.start 18446744073709551615), .seek (.current 1)] =
          [.sought (2 ^ 64 - 1), .failed] := by
      simp [Cursor.answers, Cursor.call, Cursor.seek, Cursor.seekBy, hlast, hmore,
        ReadAnswer.ofSeek]
    rw [hreader, hcursor]
    decide

end MediaPool
end WbfMatrixClient
