import Mathlib.Data.Bool.AllAny
import WbfMatrixClient.Lib.Lowercase
import WbfMatrixClient.TextSplits

/-!
# The server that was typed

A server is typed as a URL, or as a part of one, and its host with the port is
what its data are kept under. Of two texts that name one server the host must
therefore be the same, and of others not.
-/

namespace WbfMatrixClient
namespace AccountNames

def withoutScheme (lowered : Text) : Text :=
  match splitOnce [':', '/', '/'] (lowered.reverse.dropWhile fun c => c = '/').reverse with
  | some (_, rest) => rest
  | none => lowered

def withoutCredentials (text : Text) : Text :=
  match rsplitOnce '@' text with
  | some (_, host) => host
  | none => text

def withoutPath (text : Text) : Text :=
  text.takeWhile fun c => c ≠ '/' ∧ c ≠ '?' ∧ c ≠ '#'

def withoutPort (defaultPort hostPort : Text) : Text :=
  match rsplitOnce ':' hostPort with
  | some (host, port) =>
      if port.all Char.isDigit then
        if port = defaultPort then host else host ++ ':' :: port
      else
        hostPort
  | none => hostPort

theorem serverHostOf_eq (toLowercase : Text → Text) (server : Text) :
    serverHostOf toLowercase server =
      withoutPort
        (if "https://".toList.isPrefixOf (toLowercase server) then "443".toList else "80".toList)
        (withoutPath (withoutCredentials (withoutScheme (toLowercase server)))) := rfl

/-- What ends a host. -/
def hostEnds : List Char := ['/', '?', '#']

/-- A name, or the address of IPv6 in brackets. -/
inductive HostForm : Text → Prop
  | name {text : Text} (hne : text ≠ [])
      (hplain : ∀ c ∈ ['/', '?', '#', '@', ':'], c ∉ text) : HostForm text
  | address {inner : Text} (hplain : ∀ c ∈ ['/', '?', '#', '@'], c ∉ inner) :
      HostForm ('[' :: (inner ++ [']']))

/-- A server as it is typed, in parts. The port is digits, if it is anything. -/
structure Server where
  scheme : Option Text
  credentials : Option Text
  host : Text
  port : Option Text
  tail : Text
  schemeForm : ∀ text, scheme = some text → ∀ c ∈ text, c.isAlphanum ∨ c ∈ ['+', '-', '.']
  credentialsForm : ∀ text, credentials = some text → ∀ c ∈ hostEnds, c ∉ text
  hostForm : HostForm host
  portForm : ∀ digits, port = some digits → ∀ c ∈ digits, c.isDigit
  tailForm : ∀ c, tail.head? = some c → c ∈ hostEnds

namespace Server

def schemeMark : Text := [':', '/', '/']

/-- A part with what tells it apart from the rest, if it is there. -/
def marked (mark : Text) : Option Text → Text
  | none => []
  | some part => part ++ mark

def portText : Option Text → Text
  | none => []
  | some digits => ':' :: digits

/-- What comes after the credentials and before the path. -/
def hostPort (s : Server) : Text :=
  s.host ++ portText s.port

def text (s : Server) : Text :=
  marked schemeMark s.scheme ++ (marked ['@'] s.credentials ++ (s.hostPort ++ s.tail))

def isHttps (s : Server) : Bool :=
  s.scheme.any fun scheme => scheme.map Char.toLower = "https".toList

def defaultPort (s : Server) : Nat :=
  if s.isHttps then 443 else 80

/-- The port that is meant. -/
def effectivePort (s : Server) : Nat :=
  match s.port with
  | none => s.defaultPort
  | some digits => if digits = [] then s.defaultPort else Nat.ofDigitChars 10 digits 0

/-- The port that is meant, unless it is the one of the scheme. -/
def ownPort (s : Server) : Option Nat :=
  if s.effectivePort = s.defaultPort then none else some s.effectivePort

/-- The port is written without zeros before it, and what comes after it has
neither an at sign nor, where there is no scheme, the mark of one. -/
structure Plain (s : Server) : Prop where
  port : ∀ digits, s.port = some digits → ∃ n, digits = Nat.toDigits 10 n
  noAt : '@' ∉ s.tail
  noMark : s.scheme = none → ¬ schemeMark <:+: s.tail

variable {tables : CaseTables} {s : Server}

variable {c : Char}

theorem ascii_of_digit (h : c.isDigit = true) : 48 ≤ c.toNat ∧ c.toNat ≤ 57 :=
  Char.isDigit_iff_toNat.mp h

theorem not_alpha_of_digit (h : c.isDigit = true) : c.isAlpha = false := by
  have hall : ∀ n < 128, (Char.ofNat n).isDigit = true → (Char.ofNat n).isAlpha = false := by decide
  have hbounds := ascii_of_digit h
  have hc := hall c.toNat (by omega)
  rw [Char.ofNat_toNat] at hc
  exact hc h

theorem stops_of_digit (h : c.isDigit = true) : tables.Stops c := by
  have hbounds := ascii_of_digit h
  refine CaseTables.stops_of_ascii (by omega) (not_alpha_of_digit h) ?_
  simp only [List.mem_cons, List.not_mem_nil, or_false, not_or]
  omega

theorem stops_of_hostEnd (h : c ∈ hostEnds) : tables.Stops c := by
  simp only [hostEnds, List.mem_cons, List.not_mem_nil, or_false] at h
  obtain rfl | rfl | rfl := h
  all_goals exact CaseTables.stops_of_ascii (by decide) (by decide) (by decide)

theorem toLowercase_digits {digits : Text} (h : ∀ c ∈ digits, c.isDigit = true) :
    tables.toLowercase digits = digits :=
  CaseTables.lowerFrom_eq_self (fun c hc => by
    have hbounds := ascii_of_digit (h c hc)
    exact CaseTables.lower_of_ascii_not_alpha (by omega) (not_alpha_of_digit (h c hc))) []

theorem lowered_hostPort (hs : s.Plain) :
    tables.toLowercase s.hostPort = tables.toLowercase s.host ++ portText s.port := by
  rw [hostPort]
  cases hport : s.port with
  | none => rw [portText, List.append_nil, List.append_nil]
  | some digits =>
    have hdigits := s.portForm digits hport
    obtain ⟨n, rfl⟩ := hs.port digits hport
    obtain ⟨c, rest, hcons⟩ := List.exists_cons_of_ne_nil (Nat.toDigits_ne_nil (n := n) (b := 10))
    rw [hcons] at hdigits ⊢
    obtain ⟨hc, hrest⟩ := List.forall_mem_cons.mp hdigits
    rw [portText, CaseTables.toLowercase_append_colon (stops_of_digit hc),
      toLowercase_digits hrest]

theorem lowered_tail (first : Text) :
    tables.toLowercase (first ++ s.tail) =
      tables.toLowercase first ++ tables.toLowercase s.tail :=
  CaseTables.toLowercase_append (fun c hc => stops_of_hostEnd (s.tailForm c hc)) first

theorem lowered_credentials (rest : Text) :
    tables.toLowercase (marked ['@'] s.credentials ++ rest) =
      marked ['@'] (s.credentials.map tables.toLowercase) ++ tables.toLowercase rest := by
  cases s.credentials with
  | none => rfl
  | some text =>
    simp only [marked, Option.map_some, List.append_assoc, List.singleton_append]
    exact CaseTables.toLowercase_append_cons
      (CaseTables.stops_of_ascii (by decide) (by decide) (by decide)) text rest

theorem ascii_of_scheme (h : c.isAlphanum ∨ c ∈ ['+', '-', '.']) :
    c.toNat < 128 ∧ c.toLower ≠ ':' := by
  have hascii : c.toNat < 128 := by
    obtain h | h := h
    · delta Char.isAlphanum Char.isAlpha Char.isUpper Char.isLower Char.isDigit at h
      simp only [Bool.or_eq_true, Bool.and_eq_true, decide_eq_true_eq, ge_iff_le, UInt32.le_iff_toNat_le,
        Char.toNat_val] at h
      have hbounds : (65 ≤ c.toNat ∧ c.toNat ≤ 90 ∨ 97 ≤ c.toNat ∧ c.toNat ≤ 122) ∨
          48 ≤ c.toNat ∧ c.toNat ≤ 57 := h
      omega
    · revert h
      simp only [List.mem_cons, List.not_mem_nil, or_false]
      rintro (rfl | rfl | rfl) <;> decide
  have hall : ∀ n < 128, ((Char.ofNat n).isAlphanum ∨ Char.ofNat n ∈ ['+', '-', '.']) →
      (Char.ofNat n).toLower ≠ ':' := by
    decide
  have hc := hall c.toNat hascii
  rw [Char.ofNat_toNat] at hc
  exact ⟨hascii, hc h⟩

theorem lowered_scheme (rest : Text) :
    tables.toLowercase (marked schemeMark s.scheme ++ rest) =
      marked schemeMark (s.scheme.map (List.map Char.toLower)) ++ tables.toLowercase rest := by
  cases hscheme : s.scheme with
  | none => rfl
  | some text =>
    have hascii : ∀ c ∈ text, c.toNat < 128 := fun c hc =>
      (ascii_of_scheme (s.schemeForm text hscheme c hc)).1
    have hslash : tables.Stops '/' :=
      CaseTables.stops_of_ascii (by decide) (by decide) (by decide)
    have hlast : tables.toLowercase ('/' :: rest) = '/' :: tables.toLowercase rest :=
      CaseTables.lowerFrom_cons_of_stops hslash [] rest
    have hwhole := CaseTables.toLowercase_append_colon hslash text ('/' :: rest)
    have hlower : tables.toLowercase text = text.map Char.toLower :=
      CaseTables.lowerFrom_of_ascii hascii []
    rw [hlast, hlower] at hwhole
    simpa only [marked, schemeMark, Option.map_some, List.append_assoc, List.cons_append,
      List.nil_append] using hwhole

variable (tables) in
/-- The whole text in lower case is its parts in lower case. -/
theorem lowered_text (hs : s.Plain) :
    tables.toLowercase s.text =
      marked schemeMark (s.scheme.map (List.map Char.toLower)) ++
        (marked ['@'] (s.credentials.map tables.toLowercase) ++
          ((tables.toLowercase s.host ++ portText s.port) ++ tables.toLowercase s.tail)) := by
  rw [text, lowered_scheme, lowered_credentials, lowered_tail, lowered_hostPort hs]

theorem trimmed_le (text : Text) : (text.reverse.dropWhile fun c => c = '/').reverse <+: text := by
  have hsuffix := List.reverse_prefix.mpr (List.dropWhile_suffix (fun c => decide (c = '/'))
    (l := text.reverse))
  rwa [List.reverse_reverse] at hsuffix

/-- Slashes are taken off the end no further than a part that has none. -/
theorem exists_trimmed {part : Text} (hne : part ≠ []) (hslash : '/' ∉ part) (first rest : Text) :
    ∃ kept, kept <+: rest ∧
      ((first ++ (part ++ rest)).reverse.dropWhile fun c => c = '/').reverse =
        first ++ (part ++ kept) := by
  have hpart : (part.reverse ++ first.reverse).dropWhile (fun c => decide (c = '/')) =
      part.reverse ++ first.reverse := by
    cases hreverse : part.reverse with
    | nil => exact absurd (List.reverse_eq_nil_iff.mp hreverse) hne
    | cons c more =>
      have hc : c ≠ '/' := by
        rintro rfl
        exact hslash (List.mem_reverse.mp (hreverse ▸ List.mem_cons_self))
      exact List.dropWhile_cons_of_neg (by simpa using hc)
  rw [List.reverse_append, List.reverse_append, List.append_assoc, List.dropWhile_append]
  split
  · refine ⟨[], List.nil_prefix, ?_⟩
    rw [hpart]
    simp
  · exact ⟨(rest.reverse.dropWhile fun c => decide (c = '/')).reverse, trimmed_le rest,
      by simp⟩

/-- The mark of a scheme is not in what has no slash and does not end with a colon. -/
theorem not_infix_append {first rest : Text} {last : Char} (hslash : '/' ∉ first)
    (hlast : last ≠ ':' ∧ last ≠ '/') (hrest : ¬ schemeMark <:+: rest) :
    ¬ schemeMark <:+: first ++ last :: rest := by
  induction first with
  | nil =>
    rw [List.nil_append, List.infix_cons_iff, schemeMark, List.cons_prefix_cons]
    rintro (⟨h, -⟩ | h)
    · exact hlast.1 h.symm
    · exact hrest h
  | cons c first ih =>
    obtain ⟨-, hfirst⟩ := List.ne_and_not_mem_of_not_mem_cons hslash
    rw [List.cons_append, List.infix_cons_iff, schemeMark, List.cons_prefix_cons]
    rintro (⟨-, h⟩ | h)
    · cases first with
      | nil =>
        rw [List.nil_append, List.cons_prefix_cons] at h
        exact hlast.2 h.1.symm
      | cons d first =>
        rw [List.cons_append, List.cons_prefix_cons] at h
        exact hfirst (h.1 ▸ List.mem_cons_self)
    · exact ih hfirst h

theorem not_mem_host (hc : c ∈ ['/', '?', '#', '@']) : c ∉ s.host := by
  have hform := s.hostForm
  generalize s.host = host at hform
  cases hform with
  | name hne hplain =>
    refine hplain c ?_
    simp only [List.mem_cons, List.not_mem_nil, or_false] at hc ⊢
    tauto
  | address hplain =>
    intro hmem
    simp only [List.mem_cons, List.mem_append, List.not_mem_nil, or_false] at hmem
    obtain rfl | hmem | rfl := hmem
    · exact absurd hc (by decide)
    · exact hplain c hc hmem
    · exact absurd hc (by decide)

theorem host_ne_nil : s.host ≠ [] := by
  have hform := s.hostForm
  generalize s.host = host at hform
  cases hform with
  | name hne hplain => exact hne
  | address hplain => exact nofun

theorem not_mem_portText (hc : c ∈ ['/', '?', '#', '@']) : c ∉ portText s.port := by
  cases hport : s.port with
  | none => exact List.not_mem_nil
  | some digits =>
    rw [portText, List.mem_cons]
    rintro (rfl | hmem)
    · exact absurd hc (by decide)
    · have hdigit := s.portForm digits hport c hmem
      simp only [List.mem_cons, List.not_mem_nil, or_false] at hc
      obtain rfl | rfl | rfl | rfl := hc
      all_goals cases hdigit

variable (tables) in
/-- Nothing that ends a host, and no at sign, is in the host and the port, in
lower case or as they were typed. -/
theorem not_mem_hostPort (hc : c ∈ ['/', '?', '#', '@']) :
    c ∉ s.hostPort ∧ c ∉ tables.toLowercase s.host ++ portText s.port := by
  have hmarks : ∀ c ∈ ['/', '?', '#', '@'], CaseTables.IsMark c :=
    List.all_iff_forall_prop.mp (by decide)
  have hhost : c ∉ tables.toLowercase s.host := fun hmem =>
    not_mem_host (s := s) hc (CaseTables.mem_of_mem_lowerFrom (hmarks c hc) hmem)
  rw [hostPort, List.mem_append, List.mem_append, not_or, not_or]
  exact ⟨⟨not_mem_host hc, not_mem_portText hc⟩, hhost, not_mem_portText hc⟩

theorem exists_last (hs : s.Plain) : ∃ first last, s.hostPort = first ++ [last] ∧ last ≠ ':' := by
  rw [hostPort]
  cases hport : s.port with
  | none =>
    rw [portText, List.append_nil]
    have hform := s.hostForm
    generalize s.host = host at hform
    cases hform with
    | name hne hplain =>
      refine ⟨host.dropLast, host.getLast hne, (List.dropLast_append_getLast hne).symm, ?_⟩
      intro hlast
      exact hplain ':' (by decide) (hlast ▸ List.getLast_mem hne)
    | @address inner hplain => exact ⟨'[' :: inner, ']', rfl, by decide⟩
  | some digits =>
    have hdigits := s.portForm digits hport
    obtain ⟨n, rfl⟩ := hs.port digits hport
    have hne := Nat.toDigits_ne_nil (n := n) (b := 10)
    refine ⟨s.host ++ ':' :: (Nat.toDigits 10 n).dropLast, (Nat.toDigits 10 n).getLast hne, ?_, ?_⟩
    · rw [portText, List.append_assoc, List.cons_append, List.dropLast_append_getLast hne]
    · intro hlast
      have hcolon := hdigits _ (List.getLast_mem hne)
      rw [hlast] at hcolon
      cases hcolon

variable (tables) in
theorem not_infix_text (hs : s.Plain) (hscheme : s.scheme = none) :
    ¬ schemeMark <:+: tables.toLowercase s.text := by
  intro hlowered
  have hmarks : ∀ c ∈ schemeMark, CaseTables.IsMark c :=
    List.all_iff_forall_prop.mp (by decide)
  have hmarked := CaseTables.infix_of_infix_lowerFrom hmarks hlowered
  obtain ⟨first, last, hparts, hcolon⟩ := exists_last hs
  have hslash : '/' ∉ first ++ [last] :=
    hparts ▸ (not_mem_hostPort tables (s := s) (c := '/') (by decide)).1
  rw [List.mem_append, List.mem_singleton, not_or] at hslash
  have hcredentials : '/' ∉ marked ['@'] s.credentials := by
    cases hc : s.credentials with
    | none => exact List.not_mem_nil
    | some text =>
      rw [marked, List.mem_append, not_or]
      exact ⟨s.credentialsForm text hc '/' (by decide), by decide⟩
  have hbefore : '/' ∉ marked ['@'] s.credentials ++ first :=
    List.mem_append.not.mpr (not_or.mpr ⟨hcredentials, hslash.1⟩)
  refine not_infix_append hbefore ⟨hcolon, Ne.symm hslash.2⟩ (hs.noMark hscheme) ?_
  rw [text, hscheme, hparts] at hmarked
  simpa only [marked, List.nil_append, List.append_assoc, List.singleton_append] using hmarked

theorem not_colon_mem_scheme {scheme : Text} (h : s.scheme = some scheme) :
    ':' ∉ scheme.map Char.toLower := by
  intro hmem
  obtain ⟨c, hc, hcolon⟩ := List.mem_map.mp hmem
  exact (ascii_of_scheme (s.schemeForm scheme h c hc)).2 hcolon

variable (tables) in
/-- The scheme is cut off, with some of the slashes at the end or none. -/
theorem exists_withoutScheme (hs : s.Plain) :
    ∃ kept, kept <+: tables.toLowercase s.tail ∧
      withoutScheme (tables.toLowercase s.text) =
        marked ['@'] (s.credentials.map tables.toLowercase) ++
          ((tables.toLowercase s.host ++ portText s.port) ++ kept) := by
  rw [withoutScheme]
  cases hscheme : s.scheme with
  | none =>
    have hnone := splitOnce_eq_none_of_not_infix
      (fun hmarked => not_infix_text tables hs hscheme
        (hmarked.trans (trimmed_le _).isInfix))
    rw [schemeMark] at hnone
    refine ⟨tables.toLowercase s.tail, List.prefix_rfl, ?_⟩
    rw [hnone, lowered_text tables hs, hscheme]
    rfl
  | some scheme =>
    have hne : tables.toLowercase s.host ++ portText s.port ≠ [] :=
      List.append_ne_nil_of_left_ne_nil (CaseTables.lowerFrom_ne_nil host_ne_nil []) _
    obtain ⟨kept, hkept, htrimmed⟩ := exists_trimmed hne (not_mem_hostPort tables (by decide)).2
      (scheme.map Char.toLower ++ (schemeMark ++
        marked ['@'] (s.credentials.map tables.toLowercase))) (tables.toLowercase s.tail)
    have hsplit := splitOnce_append (not_colon_mem_scheme hscheme) ['/', '/']
      (marked ['@'] (s.credentials.map tables.toLowercase) ++
        ((tables.toLowercase s.host ++ portText s.port) ++ kept))
    have hwhole := lowered_text tables hs
    rw [hscheme, Option.map_some, marked] at hwhole
    simp only [List.append_assoc, schemeMark, List.cons_append, List.nil_append]
      at htrimmed hsplit hwhole
    refine ⟨kept, hkept, ?_⟩
    rw [hwhole, htrimmed, hsplit]
    simp only [List.append_assoc]

theorem isPrefixOf_https (hs : s.Plain) :
    "https://".toList.isPrefixOf (tables.toLowercase s.text) = s.isHttps := by
  have hmark : "https://".toList = "https".toList ++ schemeMark := by decide
  have hnot : ':' ∉ "https".toList := by decide
  rw [Bool.eq_iff_iff, List.isPrefixOf_iff_prefix, hmark, isHttps]
  cases hscheme : s.scheme with
  | none =>
    constructor
    · intro hbegins
      exact absurd ((List.suffix_append _ _).isInfix.trans hbegins.isInfix)
        (not_infix_text tables hs hscheme)
    · exact nofun
  | some scheme =>
    rw [lowered_text tables hs, hscheme, Option.map_some, marked, Option.any_some, decide_eq_true_eq]
    constructor
    · rintro ⟨rest, hrest⟩
      simp only [schemeMark, List.append_assoc, List.cons_append, List.nil_append] at hrest
      have hfirst : splitOnce [':'] ("https".toList ++ ':' :: '/' :: '/' :: rest) = _ :=
        splitOnce_char hnot
      rw [hrest, splitOnce_char (not_colon_mem_scheme hscheme)] at hfirst
      exact (Prod.mk.inj (Option.some.inj hfirst)).1
    · intro heq
      rw [heq]
      exact List.prefix_append _ _

/-- Of the credentials, the host and what is left of the rest only the host is kept. -/
theorem withoutPath_withoutCredentials {kept : Text} (hs : s.Plain)
    (hkept : kept <+: tables.toLowercase s.tail) :
    withoutPath (withoutCredentials (marked ['@'] (s.credentials.map tables.toLowercase) ++
        ((tables.toLowercase s.host ++ portText s.port) ++ kept))) =
      tables.toLowercase s.host ++ portText s.port := by
  have hat : '@' ∉ (tables.toLowercase s.host ++ portText s.port) ++ kept := by
    rw [List.mem_append, not_or]
    refine ⟨(not_mem_hostPort tables (by decide)).2, fun hmem => hs.noAt ?_⟩
    exact CaseTables.mem_of_mem_lowerFrom (by decide) (hkept.subset hmem)
  have hcut : withoutPath ((tables.toLowercase s.host ++ portText s.port) ++ kept) =
      tables.toLowercase s.host ++ portText s.port := by
    refine takeWhile_append_eq (fun c hc => ?_) (fun c hc => ?_)
    · rw [decide_eq_true_eq]
      refine ⟨?_, ?_, ?_⟩
      all_goals
        rintro rfl
        exact (not_mem_hostPort tables (by decide)).2 hc
    · have hhead : (tables.toLowercase s.tail).head? = some c := by
        obtain ⟨rest, hrest⟩ := hkept
        rw [← hrest, List.head?_append_of_ne_nil _ (by rintro rfl; cases hc)]
        exact hc
      have hend : c ∈ hostEnds := by
        cases htail : s.tail with
        | nil =>
          rw [htail] at hhead
          cases hhead
        | cons d rest =>
          have hd := s.tailForm d (by rw [htail]; rfl)
          rw [htail, CaseTables.toLowercase,
            CaseTables.lowerFrom_cons_of_stops (stops_of_hostEnd hd)] at hhead
          rwa [← Option.some.inj hhead]
      revert hend
      simp only [hostEnds, List.mem_cons, List.not_mem_nil, or_false]
      rintro (rfl | rfl | rfl) <;> decide
  rw [withoutCredentials]
  cases hcredentials : s.credentials with
  | none =>
    simp only [Option.map_none, marked, List.nil_append, rsplitOnce_eq_none_iff.mpr hat]
    exact hcut
  | some credentials =>
    simp only [Option.map_some, marked, List.append_assoc, List.singleton_append]
    rw [← List.append_assoc (tables.toLowercase s.host), rsplitOnce_append hat]
    exact hcut

variable (tables s) in
theorem lowered_host_cases :
    ':' ∉ tables.toLowercase s.host ∨ ∃ first, tables.toLowercase s.host = first ++ [']'] := by
  have hform := s.hostForm
  generalize s.host = host at hform
  cases hform with
  | name hne hplain =>
    exact .inl fun hmem => hplain ':' (by decide)
      (CaseTables.mem_of_mem_lowerFrom (by decide) hmem)
  | @address inner hplain =>
    refine .inr ⟨tables.toLowercase ('[' :: inner), ?_⟩
    exact CaseTables.toLowercase_append_cons
      (CaseTables.stops_of_ascii (by decide) (by decide) (by decide)) ('[' :: inner) []

theorem no_port_of_host {first digits : Text}
    (h : rsplitOnce ':' (tables.toLowercase s.host) = some (first, digits)) :
    digits.all Char.isDigit = false := by
  obtain ⟨hparts, -⟩ := rsplitOnce_eq_some_iff.mp h
  obtain hnot | ⟨before, hbefore⟩ := lowered_host_cases tables s
  · rw [hparts] at hnot
    exact absurd (List.mem_append_right first List.mem_cons_self) hnot
  · rw [hparts] at hbefore
    obtain rfl | ⟨digits, last, rfl⟩ := List.eq_nil_or_concat' digits
    · exact absurd (List.append_inj_right' hbefore rfl) (by decide)
    · rw [← List.cons_append, ← List.append_assoc] at hbefore
      obtain ⟨-, hlast⟩ := List.append_inj' hbefore rfl
      rw [List.cons.inj hlast |>.1, List.all_append, List.all_cons]
      simp

theorem toDigits_injective {n m : Nat} (h : Nat.toDigits 10 n = Nat.toDigits 10 m) : n = m := by
  have hvalue := congrArg (fun digits => Nat.ofDigitChars 10 digits 0) h
  simpa only [Nat.ofDigitChars_ten_toDigits] using hvalue

theorem effectivePort_of_digits {n : Nat} (h : s.port = some (Nat.toDigits 10 n)) :
    s.effectivePort = n := by
  simp only [effectivePort, h, if_neg Nat.toDigits_ne_nil, Nat.ofDigitChars_ten_toDigits]

theorem toDigits_defaultPort :
    (if s.isHttps then "443".toList else "80".toList) = Nat.toDigits 10 s.defaultPort := by
  rw [defaultPort]
  split_ifs <;> decide

/-- The value is the host in lower case, with the port where it is not the one
of the scheme. -/
theorem serverHostOf_text (hs : s.Plain) :
    serverHostOf tables.toLowercase s.text =
      tables.toLowercase s.host ++ portText (s.ownPort.map (Nat.toDigits 10)) := by
  obtain ⟨kept, hkept, hscheme⟩ := exists_withoutScheme tables hs
  rw [serverHostOf_eq, hscheme, withoutPath_withoutCredentials hs hkept, isPrefixOf_https hs,
    toDigits_defaultPort, withoutPort]
  cases hport : s.port with
  | none =>
    have hown : s.ownPort = none := by
      rw [ownPort, if_pos]
      simp only [effectivePort, hport]
    rw [hown, Option.map_none, portText.eq_def, List.append_nil]
    cases hsplit : rsplitOnce ':' (tables.toLowercase s.host) with
    | none => rfl
    | some parts => simp only [no_port_of_host hsplit, Bool.false_eq_true, if_false]
  | some digits =>
    have hdigits := s.portForm digits hport
    obtain ⟨n, rfl⟩ := hs.port digits hport
    have hcolon : ':' ∉ Nat.toDigits 10 n := fun hmem => by cases hdigits ':' hmem
    rw [portText, rsplitOnce_append hcolon]
    simp only [List.all_eq_true.mpr hdigits, if_true]
    rw [ownPort, effectivePort_of_digits hport]
    by_cases hn : n = s.defaultPort
    · rw [if_pos (congrArg _ hn), if_pos hn, Option.map_none, portText, List.append_nil]
    · rw [if_neg (fun h => hn (toDigits_injective h)), if_neg hn, Option.map_some, portText]

theorem isDigit_of_mem_toDigits {n : Nat} {c : Char} (h : c ∈ Nat.toDigits 10 n) :
    c.isDigit = true := Nat.isDigit_of_mem_toDigits (by decide) (by decide) h

variable (tables s) in
theorem rsplitOnce_value (n : Nat) :
    rsplitOnce ':' (tables.toLowercase s.host ++ portText (some (Nat.toDigits 10 n))) =
      some (tables.toLowercase s.host, Nat.toDigits 10 n) :=
  rsplitOnce_append fun hmem => by cases isDigit_of_mem_toDigits hmem

variable {s' : Server}

/-- A host without a port is not a host with one. -/
theorem host_ne_value (n : Nat) :
    tables.toLowercase s.host ≠
      tables.toLowercase s'.host ++ portText (some (Nat.toDigits 10 n)) := by
  intro h
  have hsplit := rsplitOnce_value tables s' n
  rw [← h] at hsplit
  have hall : (Nat.toDigits 10 n).all Char.isDigit = true :=
    List.all_eq_true.mpr fun c hc => isDigit_of_mem_toDigits hc
  rw [no_port_of_host hsplit] at hall
  cases hall

/-- The host and the port are told by the value. -/
theorem value_inj {port port' : Option Nat} :
    tables.toLowercase s.host ++ portText (port.map (Nat.toDigits 10)) =
        tables.toLowercase s'.host ++ portText (port'.map (Nat.toDigits 10)) ↔
      tables.toLowercase s.host = tables.toLowercase s'.host ∧ port = port' := by
  constructor
  · intro h
    cases port with
    | none =>
      rw [Option.map_none, portText, List.append_nil] at h
      cases port' with
      | none =>
        rw [Option.map_none, portText, List.append_nil] at h
        exact ⟨h, rfl⟩
      | some m => exact absurd h (host_ne_value m)
    | some n =>
      cases port' with
      | none =>
        rw [Option.map_none, portText, List.append_nil] at h
        exact absurd h.symm (host_ne_value n)
      | some m =>
        rw [Option.map_some, Option.map_some] at h
        have hsplit := rsplitOnce_value tables s n
        rw [h, rsplitOnce_value tables s'] at hsplit
        obtain ⟨hhost, hdigits⟩ := Prod.mk.inj (Option.some.inj hsplit)
        exact ⟨hhost.symm, congrArg some (toDigits_injective hdigits).symm⟩
  · rintro ⟨hhost, rfl⟩
    rw [hhost]

theorem lowered_hostForm : HostForm (tables.toLowercase s.host) := by
  have hform := s.hostForm
  have hne : tables.toLowercase s.host ≠ [] := CaseTables.lowerFrom_ne_nil host_ne_nil []
  generalize s.host = host at hform hne
  cases hform with
  | name _ hplain =>
    have hmarks : ∀ c ∈ ['/', '?', '#', '@', ':'], CaseTables.IsMark c :=
      List.all_iff_forall_prop.mp (by decide)
    exact .name hne fun c hc hmem =>
      hplain c hc (CaseTables.mem_of_mem_lowerFrom (hmarks c hc) hmem)
  | @address inner hplain =>
    have hbracket : ∀ {c}, c = '[' ∨ c = ']' → tables.Stops c := by
      rintro c (rfl | rfl)
      all_goals exact CaseTables.stops_of_ascii (by decide) (by decide) (by decide)
    have hlowered : tables.toLowercase ('[' :: (inner ++ [']'])) =
        '[' :: (tables.toLowercase inner ++ [']']) := by
      rw [CaseTables.toLowercase, CaseTables.lowerFrom_cons_of_stops (hbracket (.inl rfl)),
        CaseTables.toLowercase_append_cons (hbracket (.inr rfl))]
      rfl
    rw [hlowered]
    have hmarks : ∀ c ∈ ['/', '?', '#', '@'], CaseTables.IsMark c :=
      List.all_iff_forall_prop.mp (by decide)
    exact .address fun c hc hmem =>
      hplain c hc (CaseTables.mem_of_mem_lowerFrom (hmarks c hc) hmem)

/-- The value as a server that is typed. -/
def named (tables : CaseTables) (s : Server) : Server where
  scheme := none
  credentials := none
  host := tables.toLowercase s.host
  port := s.ownPort.map (Nat.toDigits 10)
  tail := []
  schemeForm _ h := nomatch h
  credentialsForm _ h := nomatch h
  hostForm := lowered_hostForm
  portForm digits h := by
    obtain ⟨n, -, rfl⟩ := Option.map_eq_some_iff.mp h
    exact fun c hc => isDigit_of_mem_toDigits hc
  tailForm _ h := nomatch h

theorem plain_named : (named tables s).Plain where
  port digits h := by
    obtain ⟨n, -, rfl⟩ := Option.map_eq_some_iff.mp h
    exact ⟨n, rfl⟩
  noAt := List.not_mem_nil
  noMark _ := by
    rw [schemeMark, named]
    exact fun h => by cases List.eq_nil_of_infix_nil h

/-- The port of the value is the own port, but for the one that is the default without a scheme. -/
theorem ownPort_named (h : ¬ (s.isHttps = true ∧ s.effectivePort = 80)) :
    (named tables s).ownPort = s.ownPort := by
  have hdefault : (named tables s).defaultPort = 80 := rfl
  rw [ownPort, hdefault]
  cases hown : s.ownPort with
  | none =>
    have hport : (named tables s).port = none :=
      (congrArg (Option.map (Nat.toDigits 10)) hown :)
    rw [if_pos]
    simp only [effectivePort, hport]
    rfl
  | some n =>
    have hport : (named tables s).port = some (Nat.toDigits 10 n) :=
      (congrArg (Option.map (Nat.toDigits 10)) hown :)
    rw [effectivePort_of_digits hport, if_neg]
    rintro rfl
    rw [ownPort] at hown
    split_ifs at hown with hsame
    rw [Option.some.inj hown] at h hsame
    rw [defaultPort] at hsame
    split_ifs at hsame with hhttps
    · exact h ⟨hhttps, rfl⟩
    · exact hsame rfl

/-- Of two servers the values are the same exactly if the hosts are, but for the
case of their letters, and the ports, where the port of a scheme counts as none.
The value has the host and the port and nothing else, and is its own value but
where the port of http is asked for with https. -/
theorem servers_named (tables : CaseTables) (a b : Server) (ha : a.Plain) (hb : b.Plain) :
    (serverHostOf tables.toLowercase a.text = serverHostOf tables.toLowercase b.text ↔
      tables.toLowercase a.host = tables.toLowercase b.host ∧ a.ownPort = b.ownPort) ∧
    (a.defaultPort = b.defaultPort →
      (serverHostOf tables.toLowercase a.text = serverHostOf tables.toLowercase b.text ↔
        tables.toLowercase a.host = tables.toLowercase b.host ∧
          a.effectivePort = b.effectivePort)) ∧
    serverHostOf tables.toLowercase a.text =
      tables.toLowercase a.host ++ portText (a.ownPort.map (Nat.toDigits 10)) ∧
    (∀ c ∈ ['/', '?', '#', '@'], c ∉ serverHostOf tables.toLowercase a.text) ∧
    (¬ (a.isHttps = true ∧ a.effectivePort = 80) →
      serverHostOf tables.toLowercase (serverHostOf tables.toLowercase a.text) =
        serverHostOf tables.toLowercase a.text) := by
  have hiff : serverHostOf tables.toLowercase a.text = serverHostOf tables.toLowercase b.text ↔
      tables.toLowercase a.host = tables.toLowercase b.host ∧ a.ownPort = b.ownPort := by
    rw [serverHostOf_text ha, serverHostOf_text hb]
    exact value_inj
  have htext : (named tables a).text = serverHostOf tables.toLowercase a.text := by
    rw [serverHostOf_text ha]
    exact List.append_nil _
  refine ⟨hiff, fun hdefault => hiff.trans (and_congr_right' ?_), serverHostOf_text ha,
    fun c hc => ?_, fun hnot => ?_⟩
  · rw [ownPort, ownPort, hdefault]
    split_ifs with hsame hsame' hsame'
    · exact iff_of_true rfl (hsame.trans hsame'.symm)
    · exact iff_of_false nofun fun h => hsame' (h ▸ hsame)
    · exact iff_of_false nofun fun h => hsame (h ▸ hsame')
    · exact Option.some_inj
  · have hnot := (not_mem_hostPort tables (s := named tables a) hc).1
    rw [← htext, text]
    simpa only [named, marked, List.nil_append, List.append_nil] using hnot
  · rw [← htext, serverHostOf_text plain_named, ownPort_named hnot, htext, serverHostOf_text ha]
    exact congrArg (· ++ _) (CaseTables.toLowercase_toLowercase a.host)

/-- A server with everything that may be typed. -/
def typedUrl : Server where
  scheme := some "HTTPS".toList
  credentials := some "user:pw".toList
  host := "Matrix.Example.org".toList
  port := some "443".toList
  tail := "/x?y".toList
  schemeForm := by
    rintro _ ⟨⟩
    exact List.all_iff_forall_prop.mp (by decide)
  credentialsForm := by
    rintro _ ⟨⟩
    exact List.all_iff_forall_prop.mp (by decide)
  hostForm := .name (by decide) (List.all_iff_forall_prop.mp (by decide))
  portForm := by
    rintro _ ⟨⟩
    exact List.all_iff_forall_prop.mp (by decide)
  tailForm := by
    rintro _ ⟨⟩
    decide

def plainServer (scheme : Text) (h : ∀ c ∈ scheme, c.isAlphanum ∨ c ∈ ['+', '-', '.']) :
    Server where
  scheme := some scheme
  credentials := none
  host := "matrix.example.org".toList
  port := none
  tail := []
  schemeForm := by
    rintro _ ⟨⟩
    exact h
  credentialsForm := nofun
  hostForm := .name (by decide) (List.all_iff_forall_prop.mp (by decide))
  portForm := nofun
  tailForm := nofun

def httpServer : Server := plainServer "http".toList (List.all_iff_forall_prop.mp (by decide))

def httpsServer : Server := plainServer "https".toList (List.all_iff_forall_prop.mp (by decide))

theorem servers_named_of_typedUrl :
    serverHostOf CaseTables.ascii.toLowercase typedUrl.text =
      serverHostOf CaseTables.ascii.toLowercase httpsServer.text :=
  (servers_named CaseTables.ascii typedUrl httpsServer
    ⟨by rintro _ ⟨⟩; exact ⟨443, by decide⟩, by decide, nofun⟩
    ⟨nofun, List.not_mem_nil, nofun⟩).1.mpr ⟨by decide, by decide⟩

/-- The ports of both schemes are dropped, so the values are the same. What is
cut off goes wrong after an at sign in the path, after the mark of a scheme in
the query, and with a port that is empty, has zeros before it or is the one of
the other scheme. -/
theorem schemes_and_cuts :
    (serverHostOf CaseTables.ascii.toLowercase httpServer.text =
        serverHostOf CaseTables.ascii.toLowercase httpsServer.text ∧
      httpServer.effectivePort ≠ httpsServer.effectivePort) ∧
    serverHostOf CaseTables.ascii.toLowercase "https://x/a@b".toList = "b".toList ∧
    serverHostOf CaseTables.ascii.toLowercase "x?u=http://y".toList = "y".toList ∧
    serverHostOf CaseTables.ascii.toLowercase "https://x:".toList = "x:".toList ∧
    serverHostOf CaseTables.ascii.toLowercase "https://x:0443".toList = "x:0443".toList ∧
    serverHostOf CaseTables.ascii.toLowercase "https://x:80".toList = "x:80".toList ∧
    serverHostOf CaseTables.ascii.toLowercase "x:80".toList = "x".toList := by decide +kernel

end Server

end AccountNames
end WbfMatrixClient
