import WbfMatrixClient.Lib.PercentText

/-!
# Names and values of a form

The query of an address is a list of pairs of a name and a value. Blanks are written as
plus signs and all other bytes are escaped but for letters, digits and four marks, so that
the pairs are read back as they were, and in their order.
-/

namespace WbfMatrixClient
namespace FormText

open PercentText (hexPair)

/-- What is written as it is, or as a plus sign. -/
def keep (c : Char) : Bool :=
  ('a' ≤ c ∧ c ≤ 'z') ∨ ('A' ≤ c ∧ c ≤ 'Z') ∨ ('0' ≤ c ∧ c ≤ '9') ∨
    c = '*' ∨ c = '-' ∨ c = '.' ∨ c = '_' ∨ c = ' '

def blankToPlus (c : Char) : Char :=
  if c = ' ' then '+' else c

def plusToBlank (c : Char) : Char :=
  if c = '+' then ' ' else c

def encode (text : List Char) : List Char :=
  (PercentText.encode keep text).map blankToPlus

def decode (text : List Char) : Option (List Char) :=
  (PercentText.decodeBytes hexPair (text.map plusToBlank)).bind Utf8.decode

def encodePair (pair : List Char × List Char) : List Char :=
  encode pair.1 ++ '=' :: encode pair.2

/-- The name ends at the first equals sign. -/
def decodePair (text : List Char) : Option (List Char × List Char) :=
  (decode (text.takeWhile (· ≠ '='))).bind fun name =>
    (decode ((text.dropWhile (· ≠ '=')).drop 1)).map fun value => (name, value)

/-- The query with one more pair. -/
def append (query : Option (List Char)) (pair : List Char × List Char) : List Char :=
  match query with
  | none => encodePair pair
  | some query => query ++ '&' :: encodePair pair

def decodeQuery : Option (List Char) → Option (List (List Char × List Char))
  | none => some []
  | some query => (query.splitOn '&').mapM decodePair

section RoundTrip

variable {c : Char} {text : List Char} {pair : List Char × List Char}

theorem keep_or_digit (h : c ∈ PercentText.encode keep text) : c ≠ '+' ∧ c ≠ '&' ∧ c ≠ '=' := by
  rcases PercentText.mem_encode h with hkeep | rfl | ⟨d, hd⟩
  · refine ⟨?_, ?_, ?_⟩ <;>
    · rintro rfl
      revert hkeep
      decide
  · decide
  · refine ⟨?_, ?_, ?_⟩ <;>
    · rintro rfl
      cases hd

theorem decode_encode (text : List Char) : decode (encode text) = some text := by
  have hback : (encode text).map plusToBlank = PercentText.encode keep text := by
    rw [encode, List.map_map]
    refine (List.map_congr_left fun c hc => ?_).trans (List.map_id _)
    have hplus := (keep_or_digit hc).1
    rw [Function.comp_apply, blankToPlus, id_eq]
    split_ifs with hblank
    · rw [hblank]
      rfl
    · rw [plusToBlank, if_neg hplus]
  rw [decode, hback,
    PercentText.decodeBytes_of_escaped (PercentText.escaped_encode (by decide) text),
    Option.bind_some, Utf8.decode_encode]

theorem mem_encode (h : c ∈ encode text) : c ≠ '&' ∧ c ≠ '=' := by
  obtain ⟨d, hd, rfl⟩ := List.mem_map.mp h
  rw [blankToPlus]
  split_ifs
  · decide
  · exact (keep_or_digit hd).2

theorem decodePair_encodePair (pair : List Char × List Char) :
    decodePair (encodePair pair) = some pair := by
  have hname : ∀ c ∈ encode pair.1, decide (c ≠ '=') = true := fun c hc =>
    decide_eq_true (mem_encode hc).2
  rw [decodePair, encodePair, List.takeWhile_append_of_pos hname,
    List.dropWhile_append_of_pos hname, List.takeWhile_cons_of_neg (by simp),
    List.dropWhile_cons_of_neg (by simp), List.append_nil, List.drop_succ_cons, List.drop_zero,
    decode_encode, decode_encode]
  rfl

theorem ampersand_not_mem (pair : List Char × List Char) : '&' ∉ encodePair pair := by
  rw [encodePair, List.mem_append, List.mem_cons]
  rintro (hname | heq | hvalue)
  · exact (mem_encode hname).1 rfl
  · cases heq
  · exact (mem_encode hvalue).1 rfl

/-- A pair that is put behind a query is read behind it. -/
theorem decodeQuery_append {query : Option (List Char)} {pairs : List (List Char × List Char)}
    (h : decodeQuery query = some pairs) (pair : List Char × List Char) :
    decodeQuery (some (append query pair)) = some (pairs ++ [pair]) := by
  have hsingle : [encodePair pair].mapM decodePair = some [pair] := by
    rw [List.mapM_cons, decodePair_encodePair]
    rfl
  cases query with
  | none =>
    cases h
    rw [append, decodeQuery, List.splitOn_eq_singleton (ampersand_not_mem pair), hsingle]
    rfl
  | some query =>
    rw [decodeQuery] at h
    rw [append, decodeQuery, List.splitOn_append_cons_self,
      List.splitOn_eq_singleton (ampersand_not_mem pair), List.mapM_append, h, hsingle]
    rfl

/-- The pairs of a query are read in the order in which they were written. -/
theorem decodeQuery_foldl (pairs : List (List Char × List Char)) {query : Option (List Char)}
    {before : List (List Char × List Char)} (h : decodeQuery query = some before) :
    decodeQuery (pairs.foldl (fun query pair => some (append query pair)) query) =
      some (before ++ pairs) := by
  induction pairs generalizing query before with
  | nil => rw [List.foldl_nil, List.append_nil, h]
  | cons pair pairs ih =>
    rw [List.foldl_cons, ih (decodeQuery_append h pair), List.append_assoc]
    rfl

end RoundTrip

end FormText
end WbfMatrixClient
