import WbfMatrixClient.Lib.ByteSource
import WbfMatrixClient.MediaPoolReader

/-!
# A range of a file, piece by piece

A range is given out in pieces, and one piece at most is in memory. The original on this machine
and the complete file of the pool are read from the position. Of a file that is still being
downloaded, the bytes at the position are asked for, and the answer is a piece that begins where it
says. What comes before the position is cut off, and what comes after the end.

Calls may fail, and the next one goes on from the same position.
-/

namespace WbfMatrixClient

open ByteSource
open MediaPool (Pool PoolReader)

/-- Where a piece of the plaintext begins, and its bytes. -/
structure SeekPiece where
  start : Nat
  plain : List UInt8

/-- A file of the machine. The reads to come give so many bytes after the first one, at most, or
fail; with none left they give what there is room for. -/
structure LocalFile where
  bytes : List UInt8
  position : Nat
  reads : List (Option Nat)

namespace LocalFile

def seek (file : LocalFile) (position : Nat) : LocalFile × Except SdkError Unit :=
  ({ file with position := position }, .ok ())

def read (file : LocalFile) (outLen : Nat) : LocalFile × Except SdkError (List UInt8) :=
  let found := (file.bytes.drop file.position).take outLen
  match file.reads with
  | [] => ({ file with position := file.position + found.length }, .ok found)
  | none :: reads => ({ file with reads := reads }, .error (.io "read failed"))
  | some more :: reads =>
      let found := found.take (more + 1)
      ({ file with position := file.position + found.length, reads := reads }, .ok found)

def source : Source UInt8 LocalFile SdkError where
  seek := seek
  read := read

end LocalFile

namespace MediaPool.PoolReader

def source (pool : Pool) : Source UInt8 PoolReader SdkError where
  seek r position := (r.seekStart position, .ok ())
  read r outLen :=
    match r.read pool outLen with
    | .ok (r, found) => (r, .ok found)
    | .error e => (r, .error e)

end MediaPool.PoolReader

/-- What a range is given out of. -/
inductive Origin where
  | localFile (file : LocalFile)
  | pool (reader : PoolReader)
  /-- The handler of the downloads is asked for every piece. -/
  | chunks
  /-- The transfer of a standard attachment is asked. -/
  | matrix

structure MediaSource where
  size : Nat
  origin : Origin

structure MediaStream where
  origin : Origin
  position : Nat
  stop : Nat

def MediaSource.intoStream (source : MediaSource) (start stop : Nat) : MediaStream where
  origin := source.origin
  position := start
  stop := min stop source.size

namespace MediaStream

/-- How much is read at once of a file. -/
def pieceSize : Nat := 64 * 1024

/-- The part of a piece that was asked for. A piece without the position is not taken. -/
def trim (position stop : Nat) (piece : SeekPiece) : Except SdkError (List UInt8) :=
  if piece.start ≤ position ∧ position - piece.start < piece.plain.length then
    .ok ((piece.plain.take (min (stop - piece.start) piece.plain.length)).drop
      (position - piece.start))
  else
    .error (.integrity ("the chunk at " ++ toString piece.start ++ " (" ++
      toString piece.plain.length ++ " bytes) does not cover position " ++ toString position))

/-- The bytes at the position. The answer is for who has to ask. -/
def fetch (pool : Pool) (s : MediaStream) (answer : Except SdkError SeekPiece) (want : Nat) :
    Origin × Except SdkError (List UInt8) :=
  match s.origin with
  | .localFile file =>
      let (file, piece) := LocalFile.source.readAt file s.position want
      (.localFile file, piece)
  | .pool reader =>
      let (reader, piece) := (PoolReader.source pool).readAt reader s.position want
      (.pool reader, piece)
  | .chunks => (.chunks, answer.bind (trim s.position s.stop))
  | .matrix => (.matrix, answer.bind (trim s.position s.stop))

def nextPiece (pool : Pool) (s : MediaStream) (answer : Except SdkError SeekPiece) :
    MediaStream × Except SdkError (Option (List UInt8)) :=
  if s.stop ≤ s.position then
    (s, .ok none)
  else
    match s.fetch pool answer (min (s.stop - s.position) pieceSize) with
    | (origin, .error e) => ({ s with origin := origin }, .error e)
    | (origin, .ok []) =>
        ({ s with origin := origin },
          .error (.io ("the source ended at " ++ toString s.position ++ " before " ++
            toString s.stop)))
    | (origin, .ok (byte :: bytes)) =>
        ({ s with origin := origin, position := s.position + (byte :: bytes).length },
          .ok (some (byte :: bytes)))

/-- A stream, and what the calls so far have come to. -/
structure Calls where
  stream : MediaStream
  results : List (Except SdkError (Option (List UInt8)))

def call (pool : Pool) (calls : Calls) (answer : Except SdkError SeekPiece) : Calls where
  stream := (calls.stream.nextPiece pool answer).1
  results := calls.results ++ [(calls.stream.nextPiece pool answer).2]

/-- One call after the other, with an answer for each of them. -/
def calls (pool : Pool) (s : MediaStream) (answers : List (Except SdkError SeekPiece)) : Calls :=
  Runs.run (call pool) { stream := s, results := [] } answers

/-- The piece that a call has given. -/
def given : Except SdkError (Option (List UInt8)) → Option (List UInt8)
  | .ok piece => piece
  | .error _ => none

def Calls.pieces (calls : Calls) : List (List UInt8) :=
  calls.results.filterMap given

/-- The plaintext stands where the source says. -/
inductive Origin.Holds (pool : Pool) (plaintext : List UInt8) : Origin → Prop where
  | localFile (position : Nat) (reads : List (Option Nat)) :
      Origin.Holds pool plaintext (.localFile ⟨plaintext, position, reads⟩)
  | pool {content : MediaPool.Content} {header : MediaPool.Header} {count : Nat}
      {reader : PoolReader}
      (hcontent : content.bytes = plaintext)
      (hreader : MediaPool.ReaderSound pool content header count reader) :
      Origin.Holds pool plaintext (.pool reader)
  | chunks : Origin.Holds pool plaintext .chunks
  | matrix : Origin.Holds pool plaintext .matrix

/-- An answer is a piece of the plaintext, from where it says on. -/
def AnswerHolds (plaintext : List UInt8) (answer : Except SdkError SeekPiece) : Prop :=
  ∀ piece, answer = .ok piece → piece.plain <+: plaintext.drop piece.start

theorem localFile_faithful (bytes : List UInt8) :
    LocalFile.source.Faithful bytes fun file position =>
      file.bytes = bytes ∧ file.position = position where
  seek := by
    rintro file position ⟨hbytes, _⟩ q
    exact ⟨⟨q, hbytes, rfl⟩, fun _ => ⟨hbytes, rfl⟩⟩
  read := by
    rintro file position ⟨rfl, rfl⟩ outLen
    obtain ⟨bytes, position, reads⟩ := file
    cases reads with
    | nil =>
      refine ⟨⟨_, rfl, rfl⟩, fun found hfound => ?_⟩
      cases hfound
      exact ⟨List.length_take_le _ _, List.take_prefix _ _, rfl, rfl⟩
    | cons next reads =>
      cases next with
      | none => exact ⟨⟨position, rfl, rfl⟩, fun _ hfound => by cases hfound⟩
      | some more =>
        refine ⟨⟨_, rfl, rfl⟩, fun found hfound => ?_⟩
        cases hfound
        refine ⟨?_, (List.take_prefix _ _).trans (List.take_prefix _ _), rfl, rfl⟩
        exact (List.length_take_le' _ _).trans (List.length_take_le _ _)

theorem poolReader_faithful (pool : Pool) (content : MediaPool.Content) (header : MediaPool.Header)
    (count : Nat) :
    (PoolReader.source pool).Faithful content.bytes fun reader position =>
      MediaPool.ReaderSound pool content header count reader ∧ reader.position = position where
  seek := by
    rintro reader position ⟨hsound, _⟩ q
    have hmoved : MediaPool.ReaderSound pool content header count (reader.seekStart q) :=
      ⟨hsound.complete, hsound.header_eq, hsound.segments_eq, hsound.plainLen_eq, hsound.loaded⟩
    exact ⟨⟨q, hmoved, rfl⟩, fun _ => ⟨hmoved, rfl⟩⟩
  read := by
    rintro reader position ⟨hsound, rfl⟩ outLen
    obtain ⟨reader', heq, hsound', hposition⟩ := MediaPool.read_within hsound outLen
    dsimp only [PoolReader.source]
    rw [heq]
    refine ⟨⟨_, hsound', rfl⟩, fun found hfound => ?_⟩
    cases hfound
    refine ⟨?_, List.take_prefix _ _, hsound', hposition⟩
    exact (List.length_take_le _ _).trans (Nat.min_le_left _ _)

section Calls

variable {pool : Pool} {plaintext : List UInt8} {s : MediaStream} {start : Nat}
  {answer : Except SdkError SeekPiece}

/-- What is cut out of a piece stands at the position, and does not go past the end. -/
theorem trim_spec {piece : SeekPiece} (hpiece : piece.plain <+: plaintext.drop piece.start)
    {position stop : Nat} {found : List UInt8} (htrim : trim position stop piece = .ok found) :
    found <+: plaintext.drop position ∧ found.length ≤ stop - position := by
  rw [trim] at htrim
  split_ifs at htrim with hcovers
  cases htrim
  refine ⟨slice_isPrefix hpiece hcovers.1 _, ?_⟩
  rw [List.length_drop, List.length_take]
  omega

/-- What is fetched stands at the position, and is not more than was wanted. -/
theorem fetch_spec (horigin : Origin.Holds pool plaintext s.origin)
    (hanswer : AnswerHolds plaintext answer) {want : Nat} (hwant : want ≤ s.stop - s.position) :
    Origin.Holds pool plaintext (s.fetch pool answer want).1 ∧
      ∀ found, (s.fetch pool answer want).2 = .ok found →
        found <+: plaintext.drop s.position ∧ found.length ≤ s.stop - s.position := by
  have hasked : ∀ found, answer.bind (trim s.position s.stop) = .ok found →
      found <+: plaintext.drop s.position ∧ found.length ≤ s.stop - s.position := by
    intro found hfound
    cases hone : answer with
    | error e =>
      rw [hone] at hfound
      cases hfound
    | ok piece =>
      rw [hone] at hfound
      exact trim_spec (hanswer piece hone) hfound
  obtain ⟨origin, position, stop⟩ := s
  cases horigin with
  | localFile standing reads =>
    obtain ⟨⟨p, hbytes, _⟩, hread⟩ := (localFile_faithful plaintext).readAt
      (r := ⟨plaintext, standing, reads⟩) ⟨rfl, rfl⟩ position want
    rw [fetch]
    dsimp only
    generalize LocalFile.source.readAt ⟨plaintext, standing, reads⟩ position want = result
      at hbytes hread
    obtain ⟨⟨bytes, standing', reads'⟩, found⟩ := result
    cases hbytes
    exact ⟨.localFile standing' reads', fun xs hxs =>
      ⟨(hread xs hxs).2, (hread xs hxs).1.trans hwant⟩⟩
  | @pool content header count reader hcontent hreader =>
    obtain ⟨⟨p, hsound, _⟩, hread⟩ := (poolReader_faithful pool content header count).readAt
      ⟨hreader, rfl⟩ position want
    rw [fetch]
    dsimp only
    refine ⟨.pool hcontent hsound, fun xs hxs => ?_⟩
    obtain ⟨hlen, hbegins⟩ := hread xs hxs
    rw [hcontent] at hbegins
    exact ⟨hbegins, hlen.trans hwant⟩
  | chunks => exact ⟨.chunks, hasked⟩
  | matrix => exact ⟨.matrix, hasked⟩

/-- What has been given makes up the range from the start to the position, and the position is
not past the end; a call that gives nothing is one at the end. -/
structure Sound (pool : Pool) (plaintext : List UInt8) (start stop : Nat) (calls : Calls) :
    Prop where
  origin : Origin.Holds pool plaintext calls.stream.origin
  stop_eq : calls.stream.stop = stop
  position_le : calls.stream.position ≤ stop
  gathered : Gathered plaintext start calls.stream.position calls.pieces
  ended : .ok none ∈ calls.results → calls.stream.position = stop

theorem Sound.call {stop : Nat} {calls : Calls} (h : Sound pool plaintext start stop calls)
    (hanswer : AnswerHolds plaintext answer) :
    Sound pool plaintext start stop (call pool calls answer) := by
  obtain ⟨s, results⟩ := calls
  obtain ⟨horigin, rfl, hle, hgathered, hended⟩ := h
  dsimp only at horigin hle hgathered hended
  -- a call that gives no piece leaves the position where it is
  have hquiet : ∀ origin result, given result = none → Origin.Holds pool plaintext origin →
      (result = .ok none → s.position = s.stop) →
      Sound pool plaintext start s.stop
        { stream := { s with origin := origin }, results := results ++ [result] } := by
    intro origin result hnone hholds hstop
    refine ⟨hholds, rfl, hle, ?_, fun hmem => ?_⟩
    · rw [Calls.pieces, List.filterMap_append, List.filterMap_cons_none hnone, List.filterMap_nil,
        List.append_nil]
      exact hgathered
    · rcases List.mem_append.mp hmem with hmem | hmem
      · exact hended hmem
      · exact hstop (List.mem_singleton.mp hmem).symm
  rw [MediaStream.call, nextPiece]
  dsimp only
  by_cases hdone : s.stop ≤ s.position
  · rw [if_pos hdone]
    exact hquiet s.origin (.ok none) rfl horigin fun _ => Nat.le_antisymm hle hdone
  rw [if_neg hdone]
  obtain ⟨hholds, hfound⟩ := fetch_spec horigin hanswer (Nat.min_le_left _ pieceSize)
  generalize s.fetch pool answer (min (s.stop - s.position) pieceSize) = fetched
    at hholds hfound
  obtain ⟨origin, result⟩ := fetched
  cases result with
  | error e => exact hquiet origin (.error e) rfl hholds fun hno => by cases hno
  | ok found =>
    cases found with
    | nil => exact hquiet origin (.error _) rfl hholds fun hno => by cases hno
    | cons byte bytes =>
      obtain ⟨hbegins, hlen⟩ := hfound (byte :: bytes) rfl
      refine ⟨hholds, rfl, ?_, ?_, fun hmem => ?_⟩
      · dsimp only
        omega
      · have hpieces : Calls.pieces
            { stream := { s with origin := origin,
                                 position := s.position + (byte :: bytes).length },
              results := results ++ [.ok (some (byte :: bytes))] } =
            Calls.pieces ⟨s, results⟩ ++ [byte :: bytes] := by
          rw [Calls.pieces, List.filterMap_append]
          rfl
        rw [hpieces]
        exact hgathered.snoc (List.cons_ne_nil _ _) hbegins
      · rcases List.mem_append.mp hmem with hmem | hmem
        · exact absurd (hended hmem).ge hdone
        · cases List.mem_singleton.mp hmem

/-- Whatever the answers are, as long as they are of the plaintext. -/
theorem calls_sound (horigin : Origin.Holds pool plaintext s.origin) (hle : s.position ≤ s.stop)
    (answers : List (Except SdkError SeekPiece))
    (hanswers : ∀ answer ∈ answers, AnswerHolds plaintext answer) :
    Sound pool plaintext s.position s.stop (s.calls pool answers) :=
  Runs.run_invariant_of_guard (AnswerHolds plaintext) (Sound pool plaintext s.position s.stop)
    (fun _ _ hanswer h => h.call hanswer) answers _ hanswers
    ⟨horigin, rfl, hle, gathered_nil plaintext s.position, fun hmem => by cases hmem⟩

theorem length_results (answers : List (Except SdkError SeekPiece)) :
    (s.calls pool answers).results.length = answers.length := by
  suffices hfrom : ∀ calls : Calls,
      (Runs.run (MediaStream.call pool) calls answers).results.length =
        calls.results.length + answers.length by
    exact (hfrom { stream := s, results := [] }).trans (Nat.zero_add _)
  induction answers with
  | nil => exact fun calls => rfl
  | cons answer answers ih =>
    intro calls
    rw [Runs.run_cons, ih, MediaStream.call, List.length_append, List.length_singleton,
      List.length_cons]
    omega

/-- A call that does not fail and is not at the end gives a byte, so there is not always one more
of them. -/
theorem Sound.settles {stop : Nat} {calls : Calls} (h : Sound pool plaintext start stop calls)
    (hmany : stop - start < calls.results.length) :
    .ok none ∈ calls.results ∨ ∃ e, .error e ∈ calls.results := by
  by_contra hneither
  obtain ⟨hnone, herror⟩ := not_or.mp hneither
  have hall : ∀ result ∈ calls.results, (given result).isSome = true := by
    intro result hresult
    cases result with
    | error e => exact absurd ⟨e, hresult⟩ herror
    | ok piece =>
      cases piece with
      | none => exact absurd hresult hnone
      | some piece => rfl
  have hcount : calls.pieces.length = calls.results.length := by
    rw [Calls.pieces, List.length_filterMap_eq_countP, List.countP_eq_length]
    exact hall
  have hpieces := h.gathered.length_le
  have hle := h.position_le
  omega

end Calls

end MediaStream
end WbfMatrixClient
