import WbfMatrixClient.Lib.PercentText
import WbfMatrixClient.TextSplits

/-!
# File URIs

The user's file is named by a URI, and the path in it is the file that is read
or written. The URI must name no other host, neither before the path nor in it.
-/

namespace WbfMatrixClient
namespace LocalSource

open AccountNames (Text eqIgnoreAsciiCase splitOnce)
open PercentText (Escaped hexPair numberPair)

def scheme : Text := "file://".toList

def localhost : Text := "localhost".toList

/-- The path as the URI has it, without the query and the fragment. -/
def encodedPath (uri : Text) : Option Text :=
  if eqIgnoreAsciiCase (uri.take scheme.length) scheme then
    let afterScheme := uri.drop scheme.length
    let withoutSuffix := afterScheme.takeWhile fun c => c ≠ '?' ∧ c ≠ '#'
    match splitOnce ['/'] withoutSuffix with
    | none => none
    | some (host, path) =>
        if host = [] ∨ eqIgnoreAsciiCase host localhost then some ('/' :: path) else none
  else
    none

/-- A number is read from every two characters after a percent sign. -/
def percentDecode (text : Text) : Option Text :=
  (PercentText.decodeBytes numberPair text).bind Utf8.decode

def isSlashDrive : Text → Bool
  | '/' :: letter :: ':' :: rest => letter.isAlpha && (rest.head?.all (· = '/'))
  | _ => false

/-- One slash and then another, or a backslash. -/
def isNetworkPath : Text → Bool
  | '/' :: c :: _ => c = '/' || c = '\\'
  | _ => false

def fileUriToPathText (uri : Text) (windows : Bool) : Option Text :=
  match (encodedPath uri).bind percentDecode with
  | none => none
  | some path =>
      if '\x00' ∈ path then
        none
      else if isNetworkPath path then
        none
      else if windows && isSlashDrive path then
        some (path.drop 1)
      else
        some path

/-- The path in a URI: after the scheme and a host that is this one, and before
the query and the fragment. -/
def HasPath (uri path : Text) : Prop :=
  ∃ given host suffix, uri = given ++ (host ++ (path ++ suffix)) ∧
    eqIgnoreAsciiCase given scheme = true ∧
    (host = [] ∨ eqIgnoreAsciiCase host localhost = true) ∧
    path.head? = some '/' ∧ (∀ c ∈ path, c ≠ '?' ∧ c ≠ '#') ∧
    ∀ c, suffix.head? = some c → c = '?' ∨ c = '#'

/-- A path whose first name is that of a host. -/
def NetworkPath (path : Text) : Prop :=
  ∃ a b rest, path = a :: b :: rest ∧ (a = '/' ∨ a = '\\') ∧ (b = '/' ∨ b = '\\')

/-- The path in a URI is the escaped form of a text that may be a local path. -/
structure Says (pair : Char → Char → Option UInt8) (uri encoded path : Text) : Prop where
  hasPath : HasPath uri encoded
  escaped : Escaped pair encoded (Utf8.encode path)
  noNul : '\x00' ∉ path
  notNetwork : ¬ NetworkPath path

/-- On Windows the slash before a drive is no part of the path. -/
def localPath (windows : Bool) (path : Text) : Text :=
  if windows && isSlashDrive path then path.drop 1 else path

/-- The local path that a URI names, with two hexadecimal digits after every percent sign. -/
def NamesFile (windows : Bool) (uri result : Text) : Prop :=
  ∃ encoded path, Says hexPair uri encoded path ∧ result = localPath windows path

/-- A plus sign and a digit stand for a byte somewhere in a path that may be local. -/
def HasPlus (uri : Text) : Prop :=
  ∃ encoded path, Says numberPair uri encoded path ∧ ['%', '+'] <:+: encoded

section Reading

variable {uri encoded encoded' path host text text' : Text} {windows : Bool}

theorem length_of_eqIgnoreAsciiCase (h : eqIgnoreAsciiCase text text' = true) :
    text.length = text'.length := by
  have hmap := congrArg List.length (of_decide_eq_true h)
  simpa only [List.length_map] using hmap

/-- The name of this host has none of the characters that end a host. -/
theorem ne_of_mem_host (h : host = [] ∨ eqIgnoreAsciiCase host localhost = true) {c : Char}
    (hc : c ∈ host) : c ≠ '/' ∧ c ≠ '?' ∧ c ≠ '#' := by
  obtain rfl | heq := h
  · cases hc
  · have hmem : c.toLower ∈ localhost.map Char.toLower := by
      rw [← of_decide_eq_true heq]
      exact List.mem_map_of_mem hc
    refine ⟨?_, ?_, ?_⟩
    all_goals
      rintro rfl
      revert hmem
      decide

theorem encodedPath_eq_some_iff : encodedPath uri = some encoded ↔ HasPath uri encoded := by
  constructor
  · intro h
    simp only [encodedPath] at h
    split at h
    case isFalse => cases h
    case isTrue hscheme =>
      split at h
      case h_1 => cases h
      case h_2 host path hsplit =>
        split at h
        case isFalse => cases h
        case isTrue hhost =>
          obtain rfl := Option.some.inj h
          obtain ⟨hparts, -⟩ := AccountNames.splitOnce_char_eq_some_iff.mp hsplit
          refine ⟨uri.take scheme.length, host, (uri.drop scheme.length).dropWhile
            fun c => c ≠ '?' ∧ c ≠ '#', ?_, hscheme, hhost, rfl, ?_, ?_⟩
          · rw [← List.append_assoc host, ← hparts, List.takeWhile_append_dropWhile,
              List.take_append_drop]
          · intro c hc
            have hmem := List.mem_append_right host hc
            rw [← hparts] at hmem
            simpa using List.mem_takeWhile_imp hmem
          · intro c hc
            have hend := AccountNames.eq_false_of_head?_dropWhile hc
            rw [decide_eq_false_iff_not, not_and_or, not_not, not_not] at hend
            exact hend
  · rintro ⟨given, host, suffix, rfl, hscheme, hhost, hhead, hpath, hsuffix⟩
    obtain ⟨path, rfl⟩ := List.head?_eq_some_iff.mp hhead
    have hlength := length_of_eqIgnoreAsciiCase hscheme
    have hbefore : (host ++ (('/' :: path) ++ suffix)).takeWhile
        (fun c => decide (c ≠ '?' ∧ c ≠ '#')) = host ++ '/' :: path := by
      rw [← List.append_assoc]
      refine AccountNames.takeWhile_append_eq (fun c hc => ?_) (fun c hc => ?_)
      · rw [decide_eq_true_eq]
        obtain hc | hc := List.mem_append.mp hc
        · exact (ne_of_mem_host hhost hc).2
        · exact hpath c hc
      · rw [decide_eq_false_iff_not, not_and_or, not_not, not_not]
        exact hsuffix c hc
    rw [encodedPath]
    simp only [← hlength, List.take_left', List.drop_left', hscheme, if_true, hbefore,
      AccountNames.splitOnce_char fun hin => (ne_of_mem_host hhost hin).1 rfl, if_pos hhost]

theorem HasPath.unique (h : HasPath uri encoded) (h' : HasPath uri encoded') :
    encoded = encoded' :=
  Option.some.inj
    ((encodedPath_eq_some_iff.mpr h).symm.trans (encodedPath_eq_some_iff.mpr h'))

theorem isNetworkPath_iff (rest : Text) :
    isNetworkPath ('/' :: rest) = true ↔ NetworkPath ('/' :: rest) := by
  cases rest with
  | nil =>
    constructor
    · exact nofun
    · rintro ⟨a, b, rest, h, -⟩
      cases h
  | cons c rest =>
    rw [isNetworkPath, Bool.or_eq_true, decide_eq_true_eq, decide_eq_true_eq]
    constructor
    · intro h
      exact ⟨'/', c, rest, rfl, .inl rfl, h⟩
    · rintro ⟨a, b, rest, heq, -, h⟩
      cases heq
      exact h

variable {pair : Char → Char → Option UInt8}

theorem exists_cons_of_escaped (hpath : HasPath uri encoded)
    (h : Escaped pair encoded (Utf8.encode path)) : ∃ rest, path = '/' :: rest := by
  obtain ⟨-, -, -, -, -, -, hhead, -⟩ := hpath
  obtain ⟨rest, rfl⟩ := List.head?_eq_some_iff.mp hhead
  generalize hbytes : Utf8.encode path = bytes at h
  cases h with
  | plain hc hrest =>
    obtain ⟨path', rfl, -⟩ := Utf8.exists_cons_of_encode hbytes
    exact ⟨path', rfl⟩

/-- What is read is what the URI says, with a number after every percent sign. -/
theorem fileUriToPathText_eq_some_iff {result : Text} :
    fileUriToPathText uri windows = some result ↔
      ∃ encoded path, Says numberPair uri encoded path ∧ result = localPath windows path := by
  have hdecode : ∀ path, (encodedPath uri).bind percentDecode = some path ↔
      ∃ encoded, HasPath uri encoded ∧ Escaped numberPair encoded (Utf8.encode path) := by
    intro path
    rw [Option.bind_eq_some_iff]
    refine exists_congr fun encoded => ?_
    rw [encodedPath_eq_some_iff, percentDecode, Option.bind_eq_some_iff]
    simp only [PercentText.decodeBytes_eq_some_iff, Utf8.decode_eq_some_iff, exists_eq_right']
  constructor
  · intro h
    rw [fileUriToPathText] at h
    split at h
    · cases h
    · next path hpath =>
        obtain ⟨encoded, hhas, hescaped⟩ := (hdecode path).mp hpath
        obtain ⟨rest, rfl⟩ := exists_cons_of_escaped hhas hescaped
        split_ifs at h with hnul hnetwork hdrive
        all_goals
          obtain rfl := Option.some.inj h
          refine ⟨encoded, '/' :: rest, ⟨hhas, hescaped, hnul,
            fun hbad => hnetwork ((isNetworkPath_iff rest).mpr hbad)⟩, ?_⟩
          simp only [localPath, hdrive, if_true, Bool.false_eq_true, if_false]
  · rintro ⟨encoded, path, huri, rfl⟩
    obtain ⟨rest, rfl⟩ := exists_cons_of_escaped huri.hasPath huri.escaped
    rw [fileUriToPathText, (hdecode _).mpr ⟨encoded, huri.hasPath, huri.escaped⟩]
    simp only [if_neg huri.noNul, if_neg (mt (isNetworkPath_iff rest).mp huri.notNetwork),
      localPath]
    split_ifs <;> rfl

theorem exists_letter_of_slashDrive (h : isSlashDrive path = true) :
    ∃ letter rest, path = '/' :: letter :: ':' :: rest ∧ letter ≠ '/' ∧ letter ≠ '\\' := by
  rw [isSlashDrive.eq_def] at h
  split at h
  · next letter rest =>
      rw [Bool.and_eq_true] at h
      refine ⟨letter, rest, rfl, ?_, ?_⟩
      all_goals
        rintro rfl
        exact absurd h.1 (by decide)
  · cases h

theorem not_networkPath_of_slashDrive (h : isSlashDrive path = true) : ¬ NetworkPath path := by
  obtain ⟨letter, rest, rfl, hslash, hbackslash⟩ := exists_letter_of_slashDrive h
  rintro ⟨a, b, rest', heq, -, hb⟩
  cases heq
  exact hb.elim hslash hbackslash

theorem not_networkPath_localPath (h : ¬ NetworkPath path) :
    ¬ NetworkPath (localPath windows path) := by
  rw [localPath]
  split_ifs with hdrive
  · obtain ⟨letter, rest, rfl, hslash, hbackslash⟩ :=
      exists_letter_of_slashDrive (Bool.and_eq_true_iff.mp hdrive).2
    rintro ⟨a, b, rest', heq, ha, -⟩
    cases heq
    exact ha.elim hslash hbackslash
  · exact h

theorem Says.numbers (h : Says hexPair uri encoded path) :
    Says numberPair uri encoded path :=
  ⟨h.hasPath, PercentText.escaped_numberPair h.escaped, h.noNul, h.notNetwork⟩

/-- Without a plus sign after a percent sign a URI is read as it says. -/
theorem namesFile_iff_of_not_hasPlus {result : Text} (h : ¬ HasPlus uri) :
    fileUriToPathText uri windows = some result ↔ NamesFile windows uri result := by
  rw [fileUriToPathText_eq_some_iff]
  refine exists_congr fun encoded => exists_congr fun path =>
    and_congr_left' ⟨fun huri => ?_, fun huri => ?_⟩
  · exact ⟨huri.hasPath, PercentText.escaped_hexPair huri.escaped
      fun hplus => h ⟨encoded, path, huri, hplus⟩, huri.noNul, huri.notNetwork⟩
  · exact huri.numbers

/-- What an encoder makes of a path, with this host or none before it. -/
theorem says_encode {given suffix rest : Text} {keep : Char → Bool}
    (hscheme : eqIgnoreAsciiCase given scheme = true)
    (hhost : host = [] ∨ eqIgnoreAsciiCase host localhost = true)
    (hsuffix : ∀ c, suffix.head? = some c → c = '?' ∨ c = '#') (hslash : keep '/' = true)
    (hkeep : keep '%' = false ∧ keep '?' = false ∧ keep '#' = false) (hnul : '\x00' ∉ '/' :: rest)
    (hnetwork : ¬ NetworkPath ('/' :: rest)) :
    Says hexPair (given ++ (host ++ (PercentText.encode keep ('/' :: rest) ++ suffix)))
      (PercentText.encode keep ('/' :: rest)) ('/' :: rest) where
  hasPath := by
    refine ⟨given, host, suffix, rfl, hscheme, hhost, ?_, fun c hc => ?_, hsuffix⟩
    · rw [PercentText.encode, List.flatMap_cons, hslash, if_pos rfl]
      rfl
    · constructor
      · rintro rfl
        obtain h | h | ⟨d, h⟩ := PercentText.mem_encode hc
        · exact absurd (h.symm.trans hkeep.2.1) (by decide)
        · cases h
        · cases h
      · rintro rfl
        obtain h | h | ⟨d, h⟩ := PercentText.mem_encode hc
        · exact absurd (h.symm.trans hkeep.2.2) (by decide)
        · cases h
        · cases h
  escaped := PercentText.escaped_encode hkeep.1 _
  noNul := hnul
  notNetwork := hnetwork

/-- A URI is read exactly as it says, if and only if no byte of a path that may be
local is written with a plus sign. No URI is read as a path on another host, and
the escaped form of a path is read as this path. -/
theorem uris_exact_iff (windows : Bool) (uri : Text) :
    ((∀ result, fileUriToPathText uri windows = some result ↔ NamesFile windows uri result) ↔
      ¬ HasPlus uri) ∧
    (∀ result, fileUriToPathText uri windows = some result →
      ¬ NetworkPath result ∧ ∃ path, HasPath uri path) ∧
    ∀ given host suffix path keep, eqIgnoreAsciiCase given scheme = true →
      (host = [] ∨ eqIgnoreAsciiCase host localhost = true) →
      (∀ c, suffix.head? = some c → c = '?' ∨ c = '#') →
      keep '/' = true → (keep '%' = false ∧ keep '?' = false ∧ keep '#' = false) →
      '\x00' ∉ path → ¬ NetworkPath path →
      (path.head? = some '/' →
        fileUriToPathText (given ++ (host ++ (PercentText.encode keep path ++ suffix))) windows =
          some (localPath windows path)) ∧
      (isSlashDrive ('/' :: path) = true →
        fileUriToPathText (given ++ (host ++ (PercentText.encode keep ('/' :: path) ++ suffix)))
          true = some path) := by
  refine ⟨⟨fun hexact => ?_, fun h result => namesFile_iff_of_not_hasPlus h⟩, ?_, ?_⟩
  · rintro ⟨encoded, path, huri, hplus⟩
    have hread : fileUriToPathText uri windows = some (localPath windows path) :=
      fileUriToPathText_eq_some_iff.mpr ⟨encoded, path, huri, rfl⟩
    obtain ⟨encoded', path', huri', -⟩ := (hexact _).mp hread
    obtain rfl := huri.hasPath.unique huri'.hasPath
    exact PercentText.not_plus_of_escaped huri'.escaped hplus
  · intro result hresult
    obtain ⟨encoded, path, huri, rfl⟩ := fileUriToPathText_eq_some_iff.mp hresult
    exact ⟨not_networkPath_localPath huri.notNetwork, encoded, huri.hasPath⟩
  · intro given host suffix path keep hscheme hhost hsuffix hslash hkeep hnul hnetwork
    constructor
    · intro hhead
      obtain ⟨rest, rfl⟩ := List.head?_eq_some_iff.mp hhead
      have huri := says_encode hscheme hhost hsuffix hslash hkeep hnul hnetwork
      exact fileUriToPathText_eq_some_iff.mpr ⟨_, _, huri.numbers, rfl⟩
    · intro hdrive
      have hnul' : '\x00' ∉ '/' :: path := List.not_mem_cons_of_ne_of_not_mem (by decide) hnul
      have huri := says_encode hscheme hhost hsuffix hslash hkeep hnul'
        (not_networkPath_of_slashDrive hdrive)
      refine fileUriToPathText_eq_some_iff.mpr ⟨_, _, huri.numbers, ?_⟩
      rw [localPath, hdrive]
      rfl

/-- One hexadecimal digit after a plus sign is read as a byte. -/
theorem plus_is_decoded :
    fileUriToPathText "file:///a%+fb".toList false = some "/a\x0fb".toList ∧
      ¬ NamesFile false "file:///a%+fb".toList "/a\x0fb".toList := by
  refine ⟨by decide, ?_⟩
  rintro ⟨encoded, path, huri, -⟩
  obtain rfl := huri.hasPath.unique
    (encodedPath_eq_some_iff.mp (by decide : _ = some "/a%+fb".toList))
  exact PercentText.not_plus_of_escaped huri.escaped ⟨"/a".toList, "fb".toList, rfl⟩

end Reading

end LocalSource
end WbfMatrixClient
