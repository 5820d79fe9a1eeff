import Mathlib.Data.List.Infix
import WbfMatrixClient.Lib.SortedMap
import WbfMatrixClient.Lib.TextParsing
import WbfMatrixClient.Lib.Utf8
import WbfMatrixClient.TextSplits
import Mathlib.Algebra.Group.Nat.Even
import Mathlib.Data.Char
import Mathlib.Data.List.Lex
import Mathlib.Data.List.Nodup

/-!
# The configuration file

A line of wbf.conf is a key and its value. The reader cuts a comment off each line: a mark that
stands outside quotes after white space, where quotes and white space are looked for byte by byte.
The writer puts some values in quotes and a comment behind each. A value comes back exactly when
its own quotes come in pairs and none of its marks is taken for a comment.
-/

namespace WbfMatrixClient
namespace ConfFile

open AccountNames (Text splitOnce)
open TextParsing (trim trimStart trimEnd isWhitespace)

local instance : LawfulBEq Text := List.instLawfulBEq

structure Conf where
  values : List (Text × Text)
  warnings : List Text

def Conf.default : Conf where
  values := []
  warnings := []

def Conf.find (conf : Conf) (key : Text) : Option Text :=
  conf.values.lookup key

/-- An error of the kind of a usage error, with its message. -/
structure CoreError where
  message : Text

def refusedKeys : List Text :=
  ["ACCESS_TOKEN".toList, "TOKEN".toList, "PASSWORD".toList, "PASSPHRASE".toList]

def knownSections : List Text :=
  ["GENERAL".toList, "BACKUP".toList, "MEDIA".toList, "RECENT".toList, "READ".toList]

def toAsciiUppercase (text : Text) : Text :=
  text.map Char.toUpper

/-- A line without the carriage return before its line feed. -/
def stripCarriage (line : Text) : Text :=
  if line.getLast? = some '\r' then line.dropLast else line

/-- The lines of a text, with what was read of the first one already. -/
def linesFrom (line : Text) : Text → List Text
  | [] => if line = [] then [] else [line]
  | c :: rest =>
      if c = '\n' then stripCarriage line :: linesFrom [] rest else linesFrom (line ++ [c]) rest

def lines (text : Text) : List Text :=
  linesFrom [] text

def byteIsWhitespace (byte : UInt8) : Bool :=
  isWhitespace (Char.ofUInt8 byte)

/-- The byte at which a comment starts. -/
def commentStart (inQuotes previousIsSpace : Bool) (index : Nat) : List UInt8 → Option Nat
  | [] => none
  | byte :: rest =>
      if byte = '"'.toUInt8 then
        commentStart (!inQuotes) (byteIsWhitespace byte) (index + 1) rest
      else if (byte = ';'.toUInt8 ∨ byte = '#'.toUInt8) ∧ inQuotes = false ∧
          previousIsSpace = true then
        some index
      else
        commentStart inQuotes (byteIsWhitespace byte) (index + 1) rest

/-- The text up to a byte, if no character lies across it. -/
def getTo : Nat → Text → Option Text
  | 0, _ => some []
  | _ + 1, [] => none
  | index + 1, c :: rest =>
      if c.utf8Size ≤ index + 1 then (getTo (index + 1 - c.utf8Size) rest).map (c :: ·) else none

def stripComment (line : Text) : Text :=
  match commentStart false true 0 (Utf8.encode line) with
  | some index => (getTo index line).getD []
  | none => line

def unquote (value : Text) : Text :=
  match value with
  | '"' :: rest => if rest.getLast? = some '"' then rest.dropLast else value
  | _ => value

section Parse

variable (quoted : Text → Text) (source : Text)

/-- Where a message is about. -/
def place (lineNumber : Nat) : Text :=
  source ++ ":".toList ++ (toString lineNumber).toList ++ ": ".toList

/-- One line of the file. -/
def readLine (conf : Conf) (rawLine : Text) (lineNumber : Nat) : Except CoreError Conf :=
  let line := trim (stripComment rawLine)
  if line = [] then
    .ok conf
  else if line.head? = some '[' then
    let name := line.drop 1
    if name.getLast? = some ']' then
      let sectionName := toAsciiUppercase (trim name.dropLast)
      if sectionName ∈ knownSections then
        .ok conf
      else
        .ok { conf with
          warnings := conf.warnings ++ ["warning: ".toList ++ place source lineNumber ++
            "unknown section [".toList ++ sectionName ++
            "]; its keys still work but the name is probably a typo".toList] }
    else
      .error ⟨place source lineNumber ++ "a section header must end with ']'".toList⟩
  else
    match splitOnce ['='] line with
    | none => .error ⟨place source lineNumber ++ "expected KEY=value or [section]".toList⟩
    | some (first, rest) =>
        let key := toAsciiUppercase (trim first)
        let value := unquote (trim rest)
        if key = [] then
          .error ⟨place source lineNumber ++ "the key is empty".toList⟩
        else if value = [] then
          .ok conf
        else if key ∈ refusedKeys then
          .ok { conf with
            warnings := conf.warnings ++ ["warning: ".toList ++ place source lineNumber ++ key ++
              (" is not read from a config file" ++
                " (secrets do not go in plaintext files); ignoring it").toList] }
        else
          let warned :=
            match conf.find key with
            | some previous => ["warning: ".toList ++ place source lineNumber ++ key ++
                " was already set to ".toList ++ quoted previous ++ "; the later one wins".toList]
            | none => []
          .ok {
            values := SortedMap.insert key value conf.values
            warnings := conf.warnings ++ warned }

/-- The lines that are left, with the number of the first of them. -/
def readLines (conf : Conf) : List Text → Nat → Except CoreError Conf
  | [], _ => .ok conf
  | line :: rest, lineNumber =>
      match readLine quoted source conf line lineNumber with
      | .ok conf => readLines conf rest (lineNumber + 1)
      | .error error => .error error

def parse (text : Text) : Except CoreError Conf :=
  readLines quoted source Conf.default (lines text) 1

def parseFile (bytes : List UInt8) : Except CoreError Conf :=
  match Utf8.decode bytes with
  | some text => parse quoted source text
  | none => .error ⟨source ++
      ": stream did not contain valid UTF-8 (a config file must be UTF-8)".toList⟩

end Parse

structure Entry where
  sectionName : Text
  key : Text
  value : Text
  origin : Text

def needsQuotes (value : Text) : Bool :=
  trim value ≠ value ∨ value.head? = some '#' ∨ value.head? = some ';' ∨
    [' ', '#'] <:+: value ∨ [' ', ';'] <:+: value ∨
    (value.head? = some '"' ∧ value.getLast? = some '"')

def quoteIfNeeded (value : Text) : Text :=
  if needsQuotes value then '"' :: value ++ ['"'] else value

def Entry.line (entry : Entry) : Text :=
  entry.key ++ '=' :: quoteIfNeeded entry.value ++ "   ; ".toList ++ entry.origin

def headerLines : List Text :=
  ["; wbf.conf —— wbf-cli 自動生成的一份起手式（/docs/design/rpc-specs/wbf-cli-spec.md §10.3）".toList,
    "; 每個值後面註明它這次是哪來的。改這個檔不影響已經登入的帳號。".toList,
    "; 秘密不放這裡：token、password、passphrase 一律不從這裡讀。".toList,
    "; 已經存在的 wbf.conf 永遠不會被改寫——要重生成就先自己刪掉。".toList]

/-- The sections in the order in which they first come. -/
def sectionsOf (entries : List Entry) : List Text :=
  entries.foldl (fun sections entry =>
    if entry.sectionName ∈ sections then sections else sections ++ [entry.sectionName]) []

def sectionLines (entries : List Entry) (sectionName : Text) : List Text :=
  [] :: ('[' :: sectionName ++ [']']) ::
    (entries.filter fun entry => entry.sectionName = sectionName).map Entry.line

def fileLines (entries : List Entry) : List Text :=
  headerLines ++ (sectionsOf entries).flatMap (sectionLines entries)

def generatedText (entries : List Entry) : Text :=
  (fileLines entries).flatMap (· ++ ['\n'])

/-- Whether the file was written, and what it holds then. -/
def writeIfAbsent (file : Option (List UInt8)) (entries : List Entry) :
    Bool × Option (List UInt8) :=
  match file with
  | some bytes => (false, some bytes)
  | none => (true, some (Utf8.encode (generatedText entries)))

def isMark (c : Char) : Bool :=
  c = ';' ∨ c = '#'

/-- Whether the last byte is white space, if there is any. -/
def endsInSpace (previousIsSpace : Bool) (text : Text) : Bool :=
  ((Utf8.encode text).getLast?.map byteIsWhitespace).getD previousIsSpace

/-- Whether the end is in quotes. -/
def toggled (inQuotes : Bool) (text : Text) : Bool :=
  inQuotes ^^ (text.count '"' % 2 = 1)

/-- What stands before the first comment. -/
def cut (inQuotes previousIsSpace : Bool) : Text → Option Text
  | [] => none
  | c :: rest =>
      if isMark c ∧ inQuotes = false ∧ previousIsSpace = true then some []
      else (cut (toggled inQuotes [c]) (endsInSpace previousIsSpace [c]) rest).map (c :: ·)

section Scans

variable {inQuotes previousIsSpace : Bool} {index : Nat} {c : Char} {text kept rest : Text}
  {bytes : List UInt8}

theorem endsInSpace_append (previousIsSpace : Bool) (text rest : Text) :
    endsInSpace previousIsSpace (text ++ rest) =
      endsInSpace (endsInSpace previousIsSpace text) rest := by
  simp only [endsInSpace, Utf8.encode_append, List.getLast?_append]
  cases (Utf8.encode rest).getLast? <;> simp

theorem toggled_append (inQuotes : Bool) (text rest : Text) :
    toggled inQuotes (text ++ rest) = toggled (toggled inQuotes text) rest := by
  have hsum : (decide ((text ++ rest).count '"' % 2 = 1)) =
      ((decide (text.count '"' % 2 = 1)) ^^ (decide (rest.count '"' % 2 = 1))) := by
    rcases Nat.mod_two_eq_zero_or_one (text.count '"') with htext | htext <;>
      rcases Nat.mod_two_eq_zero_or_one (rest.count '"') with hrest | hrest <;>
      simp [List.count_append, Nat.add_mod, htext, hrest]
  rw [toggled, toggled, toggled, hsum, Bool.xor_assoc]

theorem endsInSpace_singleton_of_lt (h : c.toNat < 0x80) :
    endsInSpace previousIsSpace [c] = byteIsWhitespace c.toUInt8 := by
  rw [endsInSpace, Utf8.encode_cons, Utf8.encode_nil, List.append_nil,
    Utf8.utf8EncodeChar_of_lt h]
  rfl

theorem toggled_cons (inQuotes : Bool) (c : Char) (text : Text) :
    toggled inQuotes (c :: text) = toggled (toggled inQuotes [c]) text :=
  toggled_append inQuotes [c] text

theorem endsInSpace_cons (previousIsSpace : Bool) (c : Char) (text : Text) :
    endsInSpace previousIsSpace (c :: text) = endsInSpace (endsInSpace previousIsSpace [c]) text :=
  endsInSpace_append previousIsSpace [c] text

theorem toNat_toUInt8 (h : c.toNat < 0x80) :
    c.toUInt8.toNat = c.toNat :=
  (UInt32.toNat_toUInt8 c.val).trans (Nat.mod_eq_of_lt (h.trans (by decide)))

theorem toUInt8_eq_iff {d : Char} (hc : c.toNat < 0x80) (hd : d.toNat < 0x80) :
    c.toUInt8 = d.toUInt8 ↔ c = d := by
  refine ⟨fun h => ?_, congrArg Char.toUInt8⟩
  have hsame := congrArg UInt8.toNat h
  rw [toNat_toUInt8 hc, toNat_toUInt8 hd] at hsame
  exact Char.toNat_inj.mp hsame

/-- Bytes that are none of ASCII only move the place on. -/
theorem commentStart_append_of_le (h : ∀ byte ∈ bytes, 0x80 ≤ byte.toNat) (more : List UInt8) :
    commentStart inQuotes previousIsSpace index (bytes ++ more) =
      commentStart inQuotes ((bytes.getLast?.map byteIsWhitespace).getD previousIsSpace)
        (index + bytes.length) more := by
  induction bytes generalizing previousIsSpace index with
  | nil => rfl
  | cons byte bytes ih =>
    have hbyte := h byte List.mem_cons_self
    have hne : ∀ d : Char, d.toNat < 0x80 → byte ≠ d.toUInt8 := by
      rintro d hd rfl
      rw [toNat_toUInt8 hd] at hbyte
      omega
    rw [List.cons_append, commentStart, if_neg (hne _ (by decide)), if_neg,
      ih fun other hother => h other (List.mem_cons_of_mem _ hother)]
    · rw [List.getLast?_cons, List.length_cons, Nat.add_right_comm, Nat.add_assoc]
      cases bytes.getLast? <;> rfl
    · rintro ⟨hsemicolon | hhash, -⟩
      · exact hne _ (by decide) hsemicolon
      · exact hne _ (by decide) hhash

theorem commentStart_char (c : Char) (more : List UInt8) :
    commentStart inQuotes previousIsSpace index (String.utf8EncodeChar c ++ more) =
      if isMark c ∧ inQuotes = false ∧ previousIsSpace = true then some index
      else commentStart (toggled inQuotes [c]) (endsInSpace previousIsSpace [c])
        (index + (String.utf8EncodeChar c).length) more := by
  rcases Nat.lt_or_ge c.toNat 0x80 with hc | hc
  · have hquote := toUInt8_eq_iff hc (d := '"') (by decide)
    have hmark : c.toUInt8 = ';'.toUInt8 ∨ c.toUInt8 = '#'.toUInt8 ↔ isMark c = true := by
      rw [toUInt8_eq_iff hc (by decide), toUInt8_eq_iff hc (by decide), isMark, decide_eq_true_iff]
    rw [endsInSpace_singleton_of_lt hc, Utf8.utf8EncodeChar_of_lt hc, List.singleton_append,
      commentStart]
    simp only [hmark]
    by_cases hc' : c = '"'
    · subst hc'
      cases inQuotes <;> rfl
    · rw [if_neg (mt hquote.mp hc'), toggled, List.count_singleton]
      simp [hc']
  · have hne : ∀ d : Char, d.toNat < 0x80 → c ≠ d := by
      rintro d hd rfl
      omega
    have hmark : isMark c = false := by
      rw [isMark, decide_eq_false_iff_not]
      exact not_or.mpr ⟨hne _ (by decide), hne _ (by decide)⟩
    rw [commentStart_append_of_le fun byte => Utf8.le_of_mem_utf8EncodeChar hc, hmark,
      if_neg (by simp), toggled, List.count_singleton]
    simp [endsInSpace, hne '"' (by decide)]

theorem commentStart_encode (text : Text) :
    commentStart inQuotes previousIsSpace index (Utf8.encode text) =
      (cut inQuotes previousIsSpace text).map fun kept => index + (Utf8.encode kept).length := by
  induction text generalizing inQuotes previousIsSpace index with
  | nil => rfl
  | cons c rest ih =>
    rw [Utf8.encode_cons, commentStart_char, cut]
    split_ifs with hstop
    · simp
    · rw [ih, Option.map_map]
      refine congrArg (Option.map · _) (funext fun kept => ?_)
      simp [Nat.add_assoc]

theorem getTo_append (kept rest : Text) :
    getTo (Utf8.encode kept).length (kept ++ rest) = some kept := by
  induction kept with
  | nil => cases rest <;> rfl
  | cons c kept ih =>
    have hpos := c.utf8Size_pos
    rw [Utf8.encode_cons, List.length_append, String.length_utf8EncodeChar]
    obtain ⟨n, hn⟩ : ∃ n, c.utf8Size + (Utf8.encode kept).length = n + 1 :=
      ⟨_, (Nat.succ_pred_eq_of_pos (by omega)).symm⟩
    rw [hn, List.cons_append, getTo, if_pos (by omega), ← hn, Nat.add_sub_cancel_left, ih]
    rfl

/-- A comment starts with a mark that is not in quotes, after a byte of white space. -/
theorem cut_eq_some_iff :
    cut inQuotes previousIsSpace text = some kept ↔
      cut inQuotes previousIsSpace kept = none ∧
        ∃ c rest, text = kept ++ c :: rest ∧ isMark c = true ∧
          toggled inQuotes kept = false ∧ endsInSpace previousIsSpace kept = true := by
  induction text generalizing inQuotes previousIsSpace kept with
  | nil => simp [cut]
  | cons d text ih =>
    rw [cut]
    split_ifs with hstop
    · rw [Option.some.injEq]
      constructor
      · rintro rfl
        exact ⟨rfl, d, text, rfl, hstop.1, by simp [toggled, hstop.2.1],
          by simp [endsInSpace, hstop.2.2]⟩
      · rintro ⟨hkept, c, rest, htext, -⟩
        cases kept with
        | nil => rfl
        | cons e kept =>
          obtain ⟨rfl, -⟩ := List.cons_eq_cons.mp htext
          rw [cut, if_pos hstop] at hkept
          cases hkept
    · rw [Option.map_eq_some_iff]
      constructor
      · rintro ⟨kept, hkept, rfl⟩
        obtain ⟨hnone, c, rest, rfl, hmark, hquotes, hspace⟩ := ih.mp hkept
        refine ⟨by rw [cut, if_neg hstop, hnone]; rfl, c, rest, rfl, hmark, ?_, ?_⟩
        · rw [toggled_cons, hquotes]
        · rw [endsInSpace_cons, hspace]
      · rintro ⟨hnone, c, rest, htext, hmark, hquotes, hspace⟩
        cases kept with
        | nil =>
          obtain ⟨rfl, -⟩ := List.cons_eq_cons.mp htext
          exact absurd ⟨hmark, by simpa [toggled] using hquotes,
            by simpa [endsInSpace] using hspace⟩ hstop
        | cons e kept =>
          obtain ⟨rfl, rfl⟩ := List.cons_eq_cons.mp htext
          rw [cut, if_neg hstop, Option.map_eq_none_iff] at hnone
          rw [toggled_cons] at hquotes
          rw [endsInSpace_cons] at hspace
          exact ⟨kept, ih.mpr ⟨hnone, c, rest, rfl, hmark, hquotes, hspace⟩, rfl⟩

theorem stripComment_eq (line : Text) : stripComment line = (cut false true line).getD line := by
  rw [stripComment, commentStart_encode]
  cases hcut : cut false true line with
  | none => rfl
  | some kept =>
    obtain ⟨-, c, rest, rfl, -⟩ := cut_eq_some_iff.mp hcut
    simp [getTo_append]

theorem cut_append (text rest : Text) :
    cut inQuotes previousIsSpace (text ++ rest) =
      match cut inQuotes previousIsSpace text with
      | some kept => some kept
      | none => (cut (toggled inQuotes text) (endsInSpace previousIsSpace text) rest).map
          (text ++ ·) := by
  induction text generalizing inQuotes previousIsSpace with
  | nil => simp [cut, toggled, endsInSpace]
  | cons c text ih =>
    rw [List.cons_append, cut, cut]
    split_ifs with hstop
    · rfl
    · rw [ih, toggled_cons inQuotes c text, endsInSpace_cons previousIsSpace c text]
      cases cut (toggled inQuotes [c]) (endsInSpace previousIsSpace [c]) text with
      | some kept => rfl
      | none =>
        rw [Option.map_none, Option.map_map]
        rfl

theorem cut_eq_none_iff :
    cut inQuotes previousIsSpace text = none ↔
      ∀ before c after, text = before ++ c :: after → isMark c = true →
        endsInSpace previousIsSpace before = true → toggled inQuotes before = true := by
  constructor
  · rintro hnone before c after rfl hmark hspace
    by_contra hquotes
    rw [cut_append] at hnone
    cases hbefore : cut inQuotes previousIsSpace before with
    | some kept =>
      rw [hbefore] at hnone
      cases hnone
    | none =>
      rw [hbefore, cut, if_pos ⟨hmark, Bool.eq_false_iff.mpr hquotes, hspace⟩] at hnone
      cases hnone
  · intro h
    cases hcut : cut inQuotes previousIsSpace text with
    | none => rfl
    | some kept =>
      obtain ⟨-, c, rest, htext, hmark, hquotes, hspace⟩ := cut_eq_some_iff.mp hcut
      rw [h kept c rest htext hmark hspace] at hquotes
      cases hquotes

end Scans

/-- The quotes come in pairs, and a mark after a byte of white space stands in quotes, those
that the writer puts around the value included. -/
def Readable (value : Text) : Prop :=
  value.count '"' % 2 = 0 ∧
    ∀ before c after, value = before ++ c :: after → isMark c = true →
      endsInSpace false before = true → toggled (needsQuotes value) before = true

theorem readable_iff {value : Text} :
    Readable value ↔
      value.count '"' % 2 = 0 ∧ cut (needsQuotes value) false value = none := by
  rw [Readable, cut_eq_none_iff]

instance (value : Text) : Decidable (Readable value) :=
  decidable_of_iff _ readable_iff.symm

/-- What is read of a value with something behind it. -/
def readBack (written : Text) : Text :=
  unquote (trim ((cut false false written).getD written))

section Values

variable {value kept more : Text}

theorem unquote_sublist (value : Text) : List.Sublist (unquote value) value := by
  rw [unquote.eq_def]
  split
  · split_ifs
    · exact (List.dropLast_sublist _).trans (List.sublist_cons_self _ _)
    · exact List.Sublist.refl _
  · exact List.Sublist.refl _

theorem length_le_length_unquote (value : Text) : value.length ≤ (unquote value).length + 2 := by
  rw [unquote.eq_def]
  split
  · split_ifs
    · rw [List.length_cons, List.length_dropLast]
      omega
    · exact Nat.le_add_right _ _
  · exact Nat.le_add_right _ _

theorem unquote_quoted (value : Text) : unquote ('"' :: value ++ ['"']) = value := by simp [unquote]

theorem trim_sublist (text : Text) : List.Sublist (trim text) text := by
  obtain ⟨before, after, htext, -⟩ := TextParsing.exists_trim text
  conv_rhs => rw [htext]
  exact (List.sublist_append_left _ _).trans (List.sublist_append_right _ _)

/-- What the writer does not put in quotes stays as it is. -/
theorem of_not_needsQuotes (h : needsQuotes value = false) :
    trim value = value ∧ unquote value = value := by
  simp only [needsQuotes, decide_eq_false_iff_not, not_or, not_not, not_and] at h
  obtain ⟨htrim, -, -, -, -, hquoted⟩ := h
  refine ⟨htrim, ?_⟩
  rw [unquote.eq_def]
  split
  · rename_i rest
    rw [if_neg]
    intro hlast
    refine hquoted rfl ?_
    rw [List.getLast?_cons, hlast]
    rfl
  · rfl

/-- The quotes that the writer puts before a value and behind it. -/
def quotesOf (value : Text) : Text :=
  if needsQuotes value then ['"'] else []

theorem quoteIfNeeded_eq (value : Text) :
    quoteIfNeeded value = quotesOf value ++ (value ++ quotesOf value) := by
  rw [quoteIfNeeded, quotesOf]
  split_ifs <;> simp

theorem quotesOf_passed (inQuotes previousIsSpace : Bool) (value : Text) :
    cut inQuotes previousIsSpace (quotesOf value) = none ∧
      toggled inQuotes (quotesOf value) = (inQuotes ^^ needsQuotes value) ∧
      endsInSpace false (quotesOf value) = false := by
  rw [quotesOf]
  cases needsQuotes value <;> cases inQuotes <;> decide +revert

theorem toggled_xor (inQuotes inQuotes' : Bool) (text : Text) :
    toggled (inQuotes ^^ inQuotes') text = (inQuotes ^^ toggled inQuotes' text) :=
  Bool.xor_assoc inQuotes inQuotes' _

/-- A comment starts in the value, or else in what is behind it. -/
theorem cut_quoteIfNeeded (value more : Text) :
    ∃ previousIsSpace, (cut false false (quoteIfNeeded value ++ more)).getD
        (quoteIfNeeded value ++ more) =
      match cut (needsQuotes value) false value with
      | some kept => quotesOf value ++ kept
      | none =>
        quoteIfNeeded value ++ (cut (toggled false value) previousIsSpace more).getD more := by
  obtain ⟨hopening, hquotes, hspace⟩ := quotesOf_passed false false value
  rw [quoteIfNeeded_eq, List.append_assoc, cut_append, hopening]
  simp only [hquotes, hspace, Bool.false_xor]
  rw [List.append_assoc, cut_append]
  cases cut (needsQuotes value) false value with
  | some kept => exact ⟨false, rfl⟩
  | none =>
    obtain ⟨hclosing, hquotes, -⟩ := quotesOf_passed (toggled (needsQuotes value) value)
      (endsInSpace false value) value
    have hend : toggled (toggled (needsQuotes value) value) (quotesOf value) =
        toggled false value := by
      rw [hquotes, Bool.xor_comm, ← toggled_xor, Bool.xor_self]
    simp only [cut_append, hclosing, hend]
    generalize endsInSpace (endsInSpace false value) (quotesOf value) = previousIsSpace
    refine ⟨previousIsSpace, ?_⟩
    cases cut (toggled false value) previousIsSpace more <;> simp

theorem toggled_false_eq_false_iff : toggled false value = false ↔ value.count '"' % 2 = 0 := by
  rw [toggled, Bool.false_xor, decide_eq_false_iff_not]
  omega

/-- A comment in the value leaves less of it. -/
theorem unquote_trim_ne (h : cut (needsQuotes value) false value = some kept) :
    unquote (trim (quotesOf value ++ kept)) ≠ value := by
  obtain ⟨-, c, rest, hvalue, hmark, -⟩ := cut_eq_some_iff.mp h
  intro hsame
  have hsublist := (unquote_sublist (trim (quotesOf value ++ kept))).trans (trim_sublist _)
  rw [hsame] at hsublist
  have hlength := congrArg List.length hvalue
  rw [List.length_append, List.length_cons] at hlength
  have hquotes : (quotesOf value).length ≤ 1 := by
    rw [quotesOf]
    split_ifs <;> decide
  have hle := hsublist.length_le
  rw [List.length_append] at hle
  -- only the quote before the value could make up for the mark, and it is one quote more
  have hall : value = quotesOf value ++ kept := hsublist.eq_of_length (by
    rw [List.length_append]
    omega)
  have hrest : rest = [] := List.length_eq_zero_iff.mp (by omega)
  have hcount := congrArg (List.count '"') hvalue
  have hcount' := congrArg (List.count '"') hall
  have hone : (quotesOf value).count '"' = 1 := by
    rw [quotesOf] at hle ⊢
    split_ifs at hle ⊢ with hneeds
    · rfl
    · simp only [List.length_nil] at hle
      omega
  have hc : c ≠ '"' := by
    rintro rfl
    cases hmark
  rw [List.count_append, hrest, List.count_singleton, if_neg (by simpa using hc)] at hcount
  rw [List.count_append, hone] at hcount'
  omega

theorem trim_quoteIfNeeded (value : Text) : trim (quoteIfNeeded value) = quoteIfNeeded value := by
  rw [quoteIfNeeded]
  split_ifs with hneeds
  · have hquote : isWhitespace '"' = false := by decide
    have hvalue := TextParsing.trim_append_cons hquote ('"' :: value) []
    rw [trimStart, List.dropWhile_cons_of_neg (by simp [hquote])] at hvalue
    exact hvalue
  · exact (of_not_needsQuotes (Bool.eq_false_iff.mpr hneeds)).1

theorem unquote_quoteIfNeeded (value : Text) : unquote (quoteIfNeeded value) = value := by
  rw [quoteIfNeeded]
  split_ifs with hneeds
  · exact unquote_quoted value
  · exact (of_not_needsQuotes (Bool.eq_false_iff.mpr hneeds)).2

theorem length_le_quoteIfNeeded (value : Text) : value.length ≤ (quoteIfNeeded value).length := by
  rw [quoteIfNeeded_eq, List.length_append, List.length_append]
  omega

/-- Without a comment the value has more behind it. -/
theorem unquote_trim_ne_of_more (hvalue : value ≠ []) (more : Text) :
    unquote (trim (quoteIfNeeded value ++ ([' ', ' ', ' '] ++ ';' :: more))) ≠ value := by
  have hlong := length_le_quoteIfNeeded value
  have hpos := List.length_pos_iff.mpr hvalue
  have hstart : trimStart (quoteIfNeeded value ++ [' ', ' ', ' ']) =
      quoteIfNeeded value ++ [' ', ' ', ' '] := by
    have htrimmed : trimStart (quoteIfNeeded value) = quoteIfNeeded value := by
      rw [← trim_quoteIfNeeded value, TextParsing.trim_eq_trimStart_trimEnd,
        TextParsing.trimStart_trimStart]
    cases hwritten : quoteIfNeeded value with
    | nil =>
      rw [hwritten, List.length_nil] at hlong
      omega
    | cons c rest =>
      have hc : isWhitespace c = false := by
        have hhead := List.head?_dropWhile_not isWhitespace (quoteIfNeeded value)
        rw [← trimStart, htrimmed, hwritten] at hhead
        simpa using hhead
      rw [List.cons_append, trimStart, List.dropWhile_cons_of_neg (by simp [hc])]
  intro hsame
  have hlength := length_le_length_unquote
    (trim (quoteIfNeeded value ++ ([' ', ' ', ' '] ++ ';' :: more)))
  rw [hsame, ← List.append_assoc, TextParsing.trim_append_cons (by decide), hstart] at hlength
  simp only [List.length_append, List.length_cons, List.length_nil] at hlength
  omega

/-- The comment of the writer is found where the quotes before it come in pairs. -/
theorem cut_comment (inQuotes previousIsSpace : Bool) (more : Text) :
    ∃ more', (cut inQuotes previousIsSpace ([' ', ' ', ' '] ++ ';' :: more)).getD
        ([' ', ' ', ' '] ++ ';' :: more) =
      if inQuotes = false then [' ', ' ', ' '] else [' ', ' ', ' '] ++ ';' :: more' := by
  have hspaces : cut inQuotes previousIsSpace [' ', ' ', ' '] = none ∧
      toggled inQuotes [' ', ' ', ' '] = inQuotes ∧
      endsInSpace previousIsSpace [' ', ' ', ' '] = true := by
    cases inQuotes <;> cases previousIsSpace <;> decide
  rw [cut_append, hspaces.1]
  simp only [hspaces.2]
  cases inQuotes with
  | false => exact ⟨[], rfl⟩
  | true =>
    have hmark : isMark ';' = true := by decide
    rw [cut, if_neg (by simp)]
    cases cut (toggled true [';']) (endsInSpace true [';']) more with
    | none => exact ⟨more, rfl⟩
    | some kept => exact ⟨kept, rfl⟩

/-- What is read back of a written value with a comment behind it. -/
theorem readBack_eq_iff (hvalue : value ≠ []) (more : Text) :
    readBack (quoteIfNeeded value ++ ([' ', ' ', ' '] ++ ';' :: more)) = value ↔
      Readable value := by
  obtain ⟨previousIsSpace, hcut⟩ := cut_quoteIfNeeded value ([' ', ' ', ' '] ++ ';' :: more)
  obtain ⟨more', hmore⟩ := cut_comment (toggled false value) previousIsSpace more
  rw [readBack, hcut, hmore, readable_iff, ← toggled_false_eq_false_iff]
  cases hinside : cut (needsQuotes value) false value with
  | some kept => exact iff_of_false (unquote_trim_ne hinside) fun h => by cases h.2
  | none =>
    simp only
    split_ifs with hpaired
    · have hwhite : [' ', ' ', ' '].all isWhitespace = true := by decide
      refine iff_of_true ?_ ⟨hpaired, trivial⟩
      rw [← TextParsing.trim_trimEnd,
        TextParsing.trimEnd_append_of_white (List.all_eq_true.mp hwhite),
        TextParsing.trim_trimEnd, trim_quoteIfNeeded, unquote_quoteIfNeeded]
    · exact iff_of_false (unquote_trim_ne_of_more hvalue more') fun h => hpaired h.1

end Values

theorem linesFrom_append {line : Text} (h : '\n' ∉ line) (read rest : Text) :
    linesFrom read (line ++ '\n' :: rest) = stripCarriage (read ++ line) :: linesFrom [] rest := by
  induction line generalizing read with
  | nil => rw [List.nil_append, linesFrom, if_pos rfl, List.append_nil]
  | cons c line ih =>
    obtain ⟨hc, hline⟩ := List.ne_and_not_mem_of_not_mem_cons h
    rw [List.cons_append, linesFrom, if_neg (Ne.symm hc), ih hline, List.append_assoc]
    rfl

theorem lines_flatMap {texts : List Text} (h : ∀ line ∈ texts, '\n' ∉ line) :
    lines (texts.flatMap (· ++ ['\n'])) = texts.map stripCarriage := by
  induction texts with
  | nil => rfl
  | cons line texts ih =>
    rw [List.flatMap_cons, List.append_assoc, List.singleton_append, lines,
      linesFrom_append (h line List.mem_cons_self), List.map_cons, List.nil_append]
    exact congrArg _ (ih fun other hother => h other (List.mem_cons_of_mem _ hother))

/-- The letters, digits and the line that a key is made of. -/
def isKeyChar (c : Char) : Bool :=
  ('A' ≤ c ∧ c ≤ 'Z') ∨ ('0' ≤ c ∧ c ≤ '9') ∨ c = '_'

/-- A key that an entry can have. -/
structure KeyWritable (key : Text) : Prop where
  nonempty : key ≠ []
  chars : ∀ c ∈ key, isKeyChar c = true
  allowed : key ∉ refusedKeys

variable {c : Char}

theorem of_isKeyChar (h : isKeyChar c.toUpper = true) :
    isMark c = false ∧ isWhitespace c = false ∧ c ≠ '"' ∧ c ≠ '[' ∧ c ≠ '=' := by
  have hlt : c.toNat < 128 := by
    rw [isKeyChar, decide_eq_true_iff] at h
    delta Char.toUpper at h
    split_ifs at h with hlower
    · exact (show c.toNat ≤ 'z'.toNat from hlower.2).trans_lt (by decide)
    · rcases h with h | h | rfl
      · exact (show c.toNat ≤ 'Z'.toNat from h.2).trans_lt (by decide)
      · exact (show c.toNat ≤ '9'.toNat from h.2).trans_lt (by decide)
      · decide
  have hall : ∀ n < 128, isKeyChar (Char.ofNat n).toUpper = true →
      isMark (Char.ofNat n) = false ∧ isWhitespace (Char.ofNat n) = false ∧
        Char.ofNat n ≠ '"' ∧ Char.ofNat n ≠ '[' ∧ Char.ofNat n ≠ '=' := by
    decide +kernel
  have hc := hall c.toNat hlt
  rw [Char.ofNat_toNat] at hc
  exact hc h

theorem toUpper_of_isKeyChar (h : isKeyChar c = true) : c.toUpper = c := by
  refine dif_neg ?_
  rintro ⟨hlow, -⟩
  rw [isKeyChar, decide_eq_true_iff] at h
  rcases h with h | h | rfl
  · exact absurd (hlow.trans h.2) (by decide)
  · exact absurd (hlow.trans h.2) (by decide)
  · exact absurd hlow (by decide)

theorem not_newline {text : Text} (h : ∀ c ∈ text, isWhitespace c = false) :
    '\n' ∉ text := fun hc => by
  have hwhite := h _ hc
  rw [show isWhitespace '\n' = true by decide] at hwhite
  cases hwhite

theorem trim_eq_self {text : Text} (h : ∀ c ∈ text, isWhitespace c = false) :
    trimStart text = text ∧ trim text = text := by
  have hstart : trimStart text = text :=
    List.dropWhile_eq_self_iff.mpr fun hpos => by
      rw [h _ (List.getElem_mem hpos)]
      exact Bool.false_ne_true
  refine ⟨hstart, ?_⟩
  rw [trim, hstart]
  exact List.rdropWhile_eq_self_iff.mpr fun hpos => by
    rw [h _ (List.getLast_mem hpos)]
    exact Bool.false_ne_true

theorem KeyWritable.of_mem {key : Text} (hkey : KeyWritable key) (hc : c ∈ key) :
    isMark c = false ∧ isWhitespace c = false ∧ c ≠ '"' ∧ c ≠ '[' ∧ c ≠ '=' :=
  of_isKeyChar (by rw [toUpper_of_isKeyChar (hkey.chars c hc)]; exact hkey.chars c hc)

/-- The value is kept under its key, unless it is empty. -/
def Conf.set (conf : Conf) (key value : Text) : Conf :=
  if value = [] then conf else { conf with values := SortedMap.insert key value conf.values }

theorem Conf.find_set (conf : Conf) (key value k : Text) :
    (conf.set key value).find k = if k = key ∧ value ≠ [] then some value else conf.find k := by
  rw [Conf.set]
  by_cases hvalue : value = []
  · rw [if_pos hvalue, if_neg fun h => h.2 hvalue]
  · rw [if_neg hvalue, Conf.find, SortedMap.lookup_insert]
    by_cases hk : k = key
    · rw [if_pos hk, if_pos ⟨hk, hvalue⟩]
    · rw [if_neg hk, if_neg fun h => hk h.1, Conf.find]

theorem Conf.set_warnings (conf : Conf) (key value : Text) :
    (conf.set key value).warnings = conf.warnings := by
  rw [Conf.set]
  split_ifs <;> rfl

section Lines

variable {quoted : Text → Text} {source : Text} {key : Text}

/-- Without a mark there is no comment. -/
theorem cut_of_no_mark {text : Text} (h : ∀ c ∈ text, isMark c = false)
    (inQuotes previousIsSpace : Bool) : cut inQuotes previousIsSpace text = none := by
  rw [cut_eq_none_iff]
  intro before c after htext hmark
  rw [h c (by simp [htext])] at hmark
  cases hmark

theorem stripComment_entry (hkey : KeyWritable key) (rest : Text) :
    stripComment (key ++ '=' :: rest) = key ++ '=' :: (cut false false rest).getD rest := by
  have hchars : ∀ c ∈ key ++ ['='], isMark c = false ∧ c ≠ '"' := by
    intro c hc
    rcases List.mem_append.mp hc with hc | hc
    · have hfacts := hkey.of_mem hc
      exact ⟨hfacts.1, hfacts.2.2.1⟩
    · rw [List.mem_singleton.mp hc]
      decide
  have hnone := cut_of_no_mark (fun c hc => (hchars c hc).1) false true
  have hquotes : toggled false (key ++ ['=']) = false := by
    rw [toggled_false_eq_false_iff, List.count_eq_zero_of_not_mem fun hc => (hchars _ hc).2 rfl]
  have hspace : endsInSpace true (key ++ ['=']) = false := by
    rw [endsInSpace_append, endsInSpace_singleton_of_lt (by decide)]
    decide
  rw [stripComment_eq, ← List.singleton_append, ← List.append_assoc, cut_append, hnone]
  simp only [hquotes, hspace]
  cases cut false false rest <;> simp

theorem readLine_entry {conf : Conf} (hkey : KeyWritable key) (hfresh : conf.find key = none)
    (rest : Text) (lineNumber : Nat) :
    readLine quoted source conf (key ++ '=' :: rest) lineNumber =
      .ok (conf.set key (readBack rest)) := by
  obtain ⟨hstart, htrim⟩ := trim_eq_self fun c hc => (hkey.of_mem hc).2.1
  have hupper : toAsciiUppercase key = key :=
    (List.map_congr_left fun c hc => toUpper_of_isKeyChar (hkey.chars c hc)).trans
      (List.map_id' key)
  have hequals : '=' ∉ key := fun hc => (hkey.of_mem hc).2.2.2.2 rfl
  have hhead : (key ++ '=' :: trimEnd ((cut false false rest).getD rest)).head? ≠ some '[' := by
    intro hbracket
    cases key with
    | nil => exact hkey.nonempty rfl
    | cons c key => exact (hkey.of_mem List.mem_cons_self).2.2.2.1 (Option.some.inj hbracket)
  rw [readLine, stripComment_entry hkey, TextParsing.trim_append_cons (by decide), hstart]
  simp only [AccountNames.splitOnce_char hequals, htrim, hupper, TextParsing.trim_trimEnd]
  rw [if_neg (by simp), if_neg hhead, if_neg hkey.nonempty, Conf.set, ← readBack]
  split_ifs with hvalue hrefused
  · rfl
  · exact absurd hrefused hkey.allowed
  · simp [hfresh]

/-- A line that tells nothing, or a value under a key. -/
def Reads (quoted : Text → Text) (source line : Text) : Option (Text × Text) → Prop
  | none => ∀ conf lineNumber, readLine quoted source conf line lineNumber = .ok conf
  | some (key, value) => ∀ conf lineNumber, conf.find key = none →
      readLine quoted source conf line lineNumber = .ok (conf.set key value)

theorem reads_of_stripped {line : Text} (h : stripComment line = []) :
    Reads quoted source line none := by
  intro conf lineNumber
  rw [readLine, h]
  rfl

theorem reads_header : ∀ line ∈ headerLines, Reads quoted source line none := by
  intro line hline
  refine reads_of_stripped ?_
  have hhead : line.head? = some ';' := by
    rw [headerLines] at hline
    simp only [List.mem_cons, List.not_mem_nil, or_false] at hline
    rcases hline with rfl | rfl | rfl | rfl <;> rfl
  obtain ⟨rest, rfl⟩ := List.head?_eq_some_iff.mp hhead
  rw [stripComment_eq, cut, if_pos (by decide)]
  rfl

theorem isKeyChar_of_known {name : Text} {c : Char} (h : toAsciiUppercase name ∈ knownSections)
    (hc : c ∈ name) : isKeyChar c.toUpper = true := by
  have hall : knownSections.all (·.all isKeyChar) = true := by decide
  exact List.all_eq_true.mp (List.all_eq_true.mp hall _ h) _ (List.mem_map_of_mem hc)

theorem reads_section {name : Text} (h : toAsciiUppercase name ∈ knownSections) :
    Reads quoted source ('[' :: name ++ [']']) none := by
  have hname : ∀ c ∈ name, isMark c = false ∧ isWhitespace c = false := fun c hc =>
    ⟨(of_isKeyChar (isKeyChar_of_known h hc)).1, (of_isKeyChar (isKeyChar_of_known h hc)).2.1⟩
  have hline : ∀ c ∈ '[' :: name ++ [']'], isMark c = false ∧ isWhitespace c = false := by
    intro c hc
    rw [List.mem_append, List.mem_cons, List.mem_singleton] at hc
    rcases hc with (rfl | hc) | rfl
    · decide
    · exact hname c hc
    · decide
  intro conf lineNumber
  rw [readLine, stripComment_eq, cut_of_no_mark (fun c hc => (hline c hc).1), Option.getD_none,
    (trim_eq_self fun c hc => (hline c hc).2).2, if_neg (by simp), if_pos (by rfl)]
  simp only [List.cons_append, List.drop_succ_cons, List.drop_zero, List.getLast?_concat, if_true,
    List.dropLast_concat, (trim_eq_self fun c hc => (hname c hc).2).2, if_pos h]

/-- Lines that tell values under different keys, read after one another. -/
theorem readLines_of_reads {texts : List Text} {items : List (Option (Text × Text))} {conf : Conf}
    (h : List.Forall₂ (Reads quoted source) texts items)
    (hapart : ((items.filterMap id).map Prod.fst).Nodup)
    (hfresh : ∀ item ∈ items.filterMap id, conf.find item.1 = none) (lineNumber : Nat) :
    ∃ conf', readLines quoted source conf texts lineNumber = .ok conf' ∧
      conf'.warnings = conf.warnings ∧
      (∀ item ∈ items.filterMap id,
        conf'.find item.1 = if item.2 = [] then none else some item.2) ∧
      ∀ key, (∀ item ∈ items.filterMap id, item.1 ≠ key) → conf'.find key = conf.find key := by
  induction h generalizing conf lineNumber with
  | nil => exact ⟨conf, rfl, rfl, fun _ hitem => (by cases hitem), fun _ _ => rfl⟩
  | @cons line item texts items hline htexts ih =>
    cases item with
    | none =>
      rw [readLines, hline conf lineNumber]
      exact ih hapart hfresh (lineNumber + 1)
    | some item =>
      obtain ⟨key, value⟩ := item
      have hitems : (some (key, value) :: items).filterMap id =
          (key, value) :: items.filterMap id := rfl
      rw [hitems] at hapart hfresh ⊢
      obtain ⟨hnot, hrest⟩ := List.nodup_cons.mp hapart
      have hne : ∀ item ∈ items.filterMap id, item.1 ≠ key := fun item hitem heq =>
        hnot (List.mem_map.mpr ⟨item, hitem, heq⟩)
      have hfresh' : ∀ item ∈ items.filterMap id, (conf.set key value).find item.1 = none := by
        intro item hitem
        rw [Conf.find_set, if_neg fun h => hne item hitem h.1]
        exact hfresh item (List.mem_cons_of_mem _ hitem)
      obtain ⟨conf', hread, hwarnings, hfind, hother⟩ := ih hrest hfresh' (lineNumber + 1)
      refine ⟨conf', ?_, hwarnings.trans (conf.set_warnings key value), ?_, ?_⟩
      · rw [readLines, hline conf lineNumber (hfresh _ List.mem_cons_self)]
        exact hread
      · intro item hitem
        rcases List.mem_cons.mp hitem with rfl | hitem
        · rw [hother key hne, Conf.find_set, hfresh _ List.mem_cons_self]
          by_cases hvalue : value = []
          · rw [if_neg fun h => h.2 hvalue, if_pos hvalue]
          · rw [if_pos ⟨rfl, hvalue⟩, if_neg hvalue]
        · exact hfind item hitem
      · intro k hk
        rw [hother k fun item hitem => hk item (List.mem_cons_of_mem _ hitem), Conf.find_set,
          if_neg fun h => hk _ List.mem_cons_self h.1.symm]

end Lines

/-- Entries that a file is written of: of different keys, and each on a line of its own. -/
structure Writable (entries : List Entry) : Prop where
  apart : (entries.map Entry.key).Nodup
  keys : ∀ entry ∈ entries, KeyWritable entry.key
  sections : ∀ entry ∈ entries, toAsciiUppercase entry.sectionName ∈ knownSections
  values : ∀ entry ∈ entries, entry.value ≠ [] ∧ '\n' ∉ entry.value
  origins : ∀ entry ∈ entries, '\n' ∉ entry.origin

/-- What the line of an entry is read as. -/
def Entry.back (entry : Entry) : Text :=
  readBack (quoteIfNeeded entry.value ++
    ([' ', ' ', ' '] ++ ';' :: stripCarriage (' ' :: entry.origin)))

/-- The entries in the order in which they stand in the file. -/
def written (entries : List Entry) : List Entry :=
  (sectionsOf entries).flatMap fun name => entries.filter fun entry => entry.sectionName = name

def fileItems (entries : List Entry) : List (Option (Text × Text)) :=
  headerLines.map (fun _ => none) ++ (sectionsOf entries).flatMap fun name =>
    none :: none :: (entries.filter fun entry => entry.sectionName = name).map fun entry =>
      some (entry.key, entry.back)

section File

variable {quoted : Text → Text} {source : Text} {entries : List Entry} {entry : Entry}

theorem stripCarriage_append {rest : Text} (h : rest ≠ []) (text : Text) :
    stripCarriage (text ++ rest) = text ++ stripCarriage rest := by
  rw [stripCarriage, stripCarriage, List.getLast?_append_of_ne_nil _ h,
    List.dropLast_append_of_ne_nil h]
  split_ifs <;> rfl

theorem stripCarriage_line (entry : Entry) :
    stripCarriage entry.line = entry.key ++ '=' :: (quoteIfNeeded entry.value ++
      ([' ', ' ', ' '] ++ ';' :: stripCarriage (' ' :: entry.origin))) := by
  have hline : entry.line = (entry.key ++ '=' :: (quoteIfNeeded entry.value ++
      [' ', ' ', ' ', ';'])) ++ ' ' :: entry.origin := by
    rw [Entry.line, show "   ; ".toList = [' ', ' ', ' ', ';', ' '] by rfl]
    simp
  rw [hline, stripCarriage_append (List.cons_ne_nil _ _)]
  simp

theorem mem_sectionsOf (entries : List Entry) :
    (sectionsOf entries).Nodup ∧
      ∀ name, name ∈ sectionsOf entries ↔ ∃ entry ∈ entries, entry.sectionName = name := by
  induction entries using List.reverseRecOn with
  | nil => exact ⟨List.nodup_nil, fun name => by simp [sectionsOf]⟩
  | append_singleton entries entry ih =>
    obtain ⟨hnodup, hmem⟩ := ih
    have hstep : sectionsOf (entries ++ [entry]) =
        if entry.sectionName ∈ sectionsOf entries then sectionsOf entries
        else sectionsOf entries ++ [entry.sectionName] := by
      rw [sectionsOf, List.foldl_append]
      rfl
    rw [hstep]
    split_ifs with hthere
    · refine ⟨hnodup, fun name => ?_⟩
      rw [hmem]
      constructor
      · rintro ⟨other, hother, hname⟩
        exact ⟨other, List.mem_append_left _ hother, hname⟩
      · rintro ⟨other, hother, rfl⟩
        rcases List.mem_append.mp hother with hother | hother
        · exact ⟨other, hother, rfl⟩
        · rw [List.mem_singleton.mp hother]
          exact (hmem _).mp hthere
    · refine ⟨hnodup.append (List.nodup_singleton _) (by simpa using hthere), fun name => ?_⟩
      rw [List.mem_append, hmem, List.mem_singleton]
      simp [List.mem_append, or_and_right, exists_or, eq_comm]

theorem mem_written_iff : entry ∈ written entries ↔ entry ∈ entries := by
  rw [written, List.mem_flatMap]
  constructor
  · rintro ⟨name, -, hentry⟩
    exact List.mem_of_mem_filter hentry
  · intro hentry
    exact ⟨entry.sectionName, ((mem_sectionsOf entries).2 _).mpr ⟨entry, hentry, rfl⟩,
      List.mem_filter.mpr ⟨hentry, decide_eq_true rfl⟩⟩

theorem nodup_written (h : (entries.map Entry.key).Nodup) :
    ((written entries).map Entry.key).Nodup := by
  refine List.Nodup.map_on ?_ ?_
  · intro entry hentry other hother hkey
    exact List.inj_on_of_nodup_map h (mem_written_iff.mp hentry) (mem_written_iff.mp hother) hkey
  · refine List.nodup_flatMap.mpr ⟨fun name _ => h.of_map.filter _, ?_⟩
    refine (mem_sectionsOf entries).1.imp fun {name other} hne => ?_
    intro entry hentry hentry'
    have hname := of_decide_eq_true (List.mem_filter.mp hentry).2
    have hother := of_decide_eq_true (List.mem_filter.mp hentry').2
    exact hne (hname.symm.trans hother)

theorem filterMap_fileItems (entries : List Entry) :
    (fileItems entries).filterMap id =
      (written entries).map fun entry => (entry.key, entry.back) := by
  rw [fileItems, List.filterMap_append, written, List.map_flatMap, List.filterMap_flatMap]
  simp

theorem reads_line (hkey : KeyWritable entry.key) :
    Reads quoted source (stripCarriage entry.line) (some (entry.key, entry.back)) := by
  intro conf lineNumber hfresh
  rw [stripCarriage_line]
  exact readLine_entry hkey hfresh _ lineNumber

theorem stripCarriage_concat {c : Char} (hc : c ≠ '\r') (text : Text) :
    stripCarriage (text ++ [c]) = text ++ [c] := by
  rw [stripCarriage, List.getLast?_concat, if_neg (by simpa using hc)]

theorem reads_fileLines (h : Writable entries) :
    List.Forall₂ (Reads quoted source) ((fileLines entries).map stripCarriage)
      (fileItems entries) := by
  rw [fileLines, fileItems, List.map_append, List.map_flatMap]
  refine List.rel_append ?_ ?_
  · have hsame : headerLines.map stripCarriage = headerLines := by decide +kernel
    rw [hsame, List.forall₂_map_right_iff, List.forall₂_same]
    exact reads_header
  · have hnames := fun name hname => ((mem_sectionsOf entries).2 name).mp hname
    generalize sectionsOf entries = names at hnames
    induction names with
    | nil => exact .nil
    | cons name names ih =>
      rw [List.flatMap_cons, List.flatMap_cons]
      refine List.rel_append ?_ (ih fun other hother =>
        hnames other (List.mem_cons_of_mem _ hother))
      obtain ⟨entry, hentry, rfl⟩ := hnames name List.mem_cons_self
      rw [sectionLines, List.map_cons, List.map_cons, stripCarriage_concat (by decide)]
      refine .cons (reads_of_stripped rfl) (.cons (reads_section (h.sections entry hentry)) ?_)
      rw [List.map_map, List.forall₂_map_left_iff, List.forall₂_map_right_iff, List.forall₂_same]
      exact fun other hother => reads_line (h.keys other (List.mem_of_mem_filter hother))

theorem newline_not_mem_line (h : Writable entries) (hentry : entry ∈ entries) :
    '\n' ∉ entry.line := by
  have hkey := not_newline fun c hc => ((h.keys entry hentry).of_mem hc).2.1
  have hvalue : '\n' ∉ quoteIfNeeded entry.value := by
    rw [quoteIfNeeded]
    split_ifs <;> simp [(h.values entry hentry).2]
  have horigin := h.origins entry hentry
  simp [Entry.line, hkey, hvalue, horigin]

theorem newline_not_mem_fileLines (h : Writable entries) :
    ∀ line ∈ fileLines entries, '\n' ∉ line := by
  intro line hline
  rcases List.mem_append.mp hline with hline | hline
  · have hall : headerLines.all (fun line => !line.contains '\n') = true := by decide +kernel
    simpa using List.all_eq_true.mp hall line hline
  · obtain ⟨name, hname, hline⟩ := List.mem_flatMap.mp hline
    obtain ⟨entry, hentry, rfl⟩ := ((mem_sectionsOf entries).2 name).mp hname
    rw [sectionLines, List.mem_cons, List.mem_cons, List.mem_map] at hline
    rcases hline with rfl | rfl | ⟨other, hother, rfl⟩
    · exact List.not_mem_nil
    · have hchars := not_newline fun c hc =>
        (of_isKeyChar (isKeyChar_of_known (h.sections entry hentry) hc)).2.1
      simpa using hchars
    · exact newline_not_mem_line h (List.mem_of_mem_filter hother)

/-- The file has every entry with what its line is read as. -/
theorem parseFile_written (quoted : Text → Text) (source : Text) (h : Writable entries) :
    ∃ conf, parseFile quoted source (Utf8.encode (generatedText entries)) = .ok conf ∧
      conf.warnings = [] ∧
      (∀ entry ∈ entries, conf.find entry.key = if entry.back = [] then none else some entry.back) ∧
      ∀ key, (∀ entry ∈ entries, entry.key ≠ key) → conf.find key = none := by
  have hitems := filterMap_fileItems entries
  have hreads : List.Forall₂ (Reads quoted source) _ _ := reads_fileLines h
  have hapart : (((fileItems entries).filterMap id).map Prod.fst).Nodup := by
    rw [hitems, List.map_map]
    exact nodup_written h.apart
  have hfresh : ∀ item ∈ (fileItems entries).filterMap id, Conf.default.find item.1 = none :=
    fun _ _ => rfl
  obtain ⟨conf, hread, hwarnings, hfind, hother⟩ := readLines_of_reads hreads hapart hfresh 1
  refine ⟨conf, ?_, hwarnings, fun entry hentry => ?_, fun key hkey => ?_⟩
  · rw [parseFile, Utf8.decode_encode]
    simp only
    rw [parse, generatedText, lines_flatMap (newline_not_mem_fileLines h)]
    exact hread
  · refine hfind (entry.key, entry.back) ?_
    rw [hitems]
    exact List.mem_map_of_mem (mem_written_iff.mpr hentry)
  · refine hother key fun item hitem => ?_
    rw [hitems] at hitem
    obtain ⟨entry, hentry, rfl⟩ := List.mem_map.mp hitem
    exact hkey entry (mem_written_iff.mp hentry)

end File

/-- The generated file is read without a warning, and gives every entry its value and nothing
under other keys. -/
def ReadsBack (quoted : Text → Text) (source : Text) (entries : List Entry) : Prop :=
  ∃ bytes conf, writeIfAbsent none entries = (true, some bytes) ∧
    parseFile quoted source bytes = .ok conf ∧ conf.warnings = [] ∧
    (∀ entry ∈ entries, conf.find entry.key = some entry.value) ∧
    ∀ key, (∀ entry ∈ entries, entry.key ≠ key) → conf.find key = none

/-- A generated file reads back the same exactly when all its values are readable. -/
theorem reads_back_iff (quoted : Text → Text) (source : Text) {entries : List Entry}
    (h : Writable entries) :
    ReadsBack quoted source entries ↔ ∀ entry ∈ entries, Readable entry.value := by
  obtain ⟨conf, hparse, hwarnings, hfind, hother⟩ := parseFile_written quoted source h
  have hback : ∀ entry ∈ entries,
      conf.find entry.key = some entry.value ↔ Readable entry.value := by
    intro entry hentry
    obtain ⟨hvalue, -⟩ := h.values entry hentry
    rw [hfind entry hentry, ← readBack_eq_iff hvalue, ← Entry.back]
    constructor
    · intro hsome
      split_ifs at hsome
      exact Option.some.inj hsome
    · intro hsame
      rw [hsame, if_neg hvalue]
  constructor
  · rintro ⟨bytes, conf', hwritten, hparse', -, hfind', -⟩ entry hentry
    cases hwritten
    rw [hparse] at hparse'
    cases hparse'
    exact (hback entry hentry).mp (hfind' entry hentry)
  · intro hreadable
    exact ⟨_, conf, rfl, hparse, hwarnings,
      fun entry hentry => (hback entry hentry).mpr (hreadable entry hentry), hother⟩

/-- The entries of a first run. -/
def exampleEntries : List Entry :=
  [⟨"general".toList, "SERVER".toList, "http://localhost:6167".toList, "flag or env".toList⟩,
    ⟨"general".toList, "ACCOUNT".toList, "  #odd  ".toList, "built-in default".toList⟩,
    ⟨"media".toList, "TRANSPORT".toList, "\"quoted\"".toList, "built-in default".toList⟩]

instance (key : Text) : Decidable (KeyWritable key) :=
  decidable_of_iff (key ≠ [] ∧ key.all isKeyChar = true ∧ key ∉ refusedKeys)
    ⟨fun h => ⟨h.1, List.all_eq_true.mp h.2.1, h.2.2⟩,
      fun h => ⟨h.nonempty, List.all_eq_true.mpr h.chars, h.allowed⟩⟩

theorem exampleEntries_writable : Writable exampleEntries where
  apart := by decide +kernel
  keys := by decide +kernel
  sections := by decide +kernel
  values := by decide +kernel
  origins := by decide +kernel

theorem reads_back_example :
    ReadsBack id "wbf.conf".toList exampleEntries ↔
      ∀ entry ∈ exampleEntries, Readable entry.value :=
  reads_back_iff id "wbf.conf".toList exampleEntries_writable

example : ∀ entry ∈ exampleEntries, Readable entry.value := by decide +kernel

/-- One quote in a value takes the comment of the writer into it. -/
def oneQuote : List Entry :=
  [⟨"general".toList, "SERVER".toList, "a\"b".toList, "flag or env".toList⟩]

theorem one_quote_not_read_back :
    Writable oneQuote ∧ ¬ ReadsBack id "wbf.conf".toList oneQuote := by
  refine ⟨⟨by decide +kernel, by decide +kernel, by decide +kernel, by decide +kernel,
    by decide +kernel⟩, ?_⟩
  rintro ⟨bytes, conf, hwritten, hparse, -, hfind, -⟩
  cases hwritten
  have hread : (parse id "wbf.conf".toList (generatedText oneQuote)).toOption.map
      (Conf.find · "SERVER".toList) = some (some "a\"b   ; flag or env".toList) := by
    decide +kernel
  rw [parseFile, Utf8.decode_encode] at hparse
  simp only at hparse
  have hvalue := hfind _ List.mem_cons_self
  rw [hparse, Except.toOption, Option.map_some, hvalue, Option.some.injEq] at hread
  revert hread
  decide +kernel

end ConfFile
end WbfMatrixClient
