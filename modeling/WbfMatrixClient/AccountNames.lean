import Mathlib.Data.List.Basic

/-!
# Names of accounts

What a user types is compared with the names that are known by one rule: a name that is the same
is taken, else the only one that is the same but for the case of its letters. Here are this rule,
the parts of a Matrix ID and of the address of a server, and the snapshot of a data directory in
which accounts are found.
-/

namespace WbfMatrixClient
namespace AccountNames

abbrev Text := List Char

/-- Rust's `eq_ignore_ascii_case`. -/
def eqIgnoreAsciiCase (a b : Text) : Bool :=
  a.map Char.toLower = b.map Char.toLower

/-- The text before and after the first place where a part is found. -/
def splitOnce (part : Text) : Text → Option (Text × Text)
  | [] => if part = [] then some ([], []) else none
  | c :: rest =>
      if part.isPrefixOf (c :: rest) then some ([], (c :: rest).drop part.length)
      else (splitOnce part rest).map fun split => (c :: split.1, split.2)

/-- The text before and after the last place of a character. -/
def rsplitOnce (c : Char) (text : Text) : Option (Text × Text) :=
  (splitOnce [c] text.reverse).map fun split => (split.2.reverse, split.1.reverse)

/-- The localpart of a Matrix ID, or what was typed for it. -/
def localpartOf (user : Text) : Text :=
  let stripped := if ['@'].isPrefixOf user then user.drop 1 else user
  match splitOnce [':'] stripped with
  | some (localpart, _) => localpart
  | none => stripped

/-- The host of a server, with its port unless that is the one of the scheme. -/
def serverHostOf (toLowercase : Text → Text) (server : Text) : Text :=
  let lowered := toLowercase server
  let trimmed := (lowered.reverse.dropWhile fun c => c = '/').reverse
  let withoutScheme :=
    match splitOnce [':', '/', '/'] trimmed with
    | some (_, rest) => rest
    | none => lowered
  let withoutCredentials :=
    match rsplitOnce '@' withoutScheme with
    | some (_, host) => host
    | none => withoutScheme
  let hostPort := withoutCredentials.takeWhile fun c => c ≠ '/' ∧ c ≠ '?' ∧ c ≠ '#'
  let isHttps := "https://".toList.isPrefixOf lowered
  match rsplitOnce ':' hostPort with
  | some (host, port) =>
      if port.all Char.isDigit then
        let defaultPort := if isHttps then "443".toList else "80".toList
        if port = defaultPort then host else host ++ ':' :: port
      else
        hostPort
  | none => hostPort

example : serverHostOf (List.map Char.toLower) "HTTPS://Matrix.Example.org:443/".toList =
    "matrix.example.org".toList := by decide +kernel

/-- Why nothing is found: several names differ in the case of their letters only, or nothing is
there that could be meant. -/
inductive UsageError where
  | ambiguous
  | notFullId
  | noAccount
  | manyServers
  | notLoggedIn
deriving DecidableEq

section FindOne

variable {α : Type}

def findOne (entries : List α) (plaintextOf : α → Text) (wanted : Text) :
    Except UsageError (Option α) :=
  match entries.find? fun entry => plaintextOf entry = wanted with
  | some exact => .ok (some exact)
  | none =>
      match entries.filter fun entry => eqIgnoreAsciiCase (plaintextOf entry) wanted with
      | [] => .ok none
      | [only] => .ok (some only)
      | _ => .error .ambiguous

/-- An entry is the first one of a list for which something holds, and the only one. -/
def Single (p : α → Prop) (entries : List α) (entry : α) : Prop :=
  ∃ before after, entries = before ++ entry :: after ∧ p entry ∧
    (∀ other ∈ before, ¬p other) ∧ ∀ other ∈ after, ¬p other

/-- What was typed is the name of an entry: it is the same, or no name is the same and it is the
only one that is the same but for the case. -/
def Names (entries : List α) (plaintextOf : α → Text) (wanted : Text) (entry : α) : Prop :=
  (∃ before after, entries = before ++ entry :: after ∧ plaintextOf entry = wanted ∧
    ∀ other ∈ before, plaintextOf other ≠ wanted) ∨
  (∀ other ∈ entries, plaintextOf other ≠ wanted) ∧
    Single (fun entry => eqIgnoreAsciiCase (plaintextOf entry) wanted = true) entries entry

/-- No name is what was typed, up to the case. -/
def NamesNone (entries : List α) (plaintextOf : α → Text) (wanted : Text) : Prop :=
  ∀ entry ∈ entries, eqIgnoreAsciiCase (plaintextOf entry) wanted = false

theorem eqIgnoreAsciiCase_refl (text : Text) :
    eqIgnoreAsciiCase text text = true := decide_eq_true rfl

variable {entries : List α}

theorem filter_eq_singleton_iff {p : α → Bool} {entry : α} :
    entries.filter p = [entry] ↔ Single (fun entry => p entry = true) entries entry := by
  constructor
  · intro h
    induction entries with
    | nil => cases h
    | cons first rest ih =>
      by_cases hfirst : p first = true
      · rw [List.filter_cons_of_pos hfirst, List.cons.injEq] at h
        obtain ⟨rfl, hnone⟩ := h
        refine ⟨[], rest, rfl, hfirst, fun other hother => (List.not_mem_nil hother).elim, ?_⟩
        exact fun other hother => List.filter_eq_nil_iff.mp hnone other hother
      · rw [List.filter_cons_of_neg hfirst] at h
        obtain ⟨before, after, rfl, hentry, hbefore, hafter⟩ := ih h
        refine ⟨first :: before, after, rfl, hentry, fun other hother => ?_, hafter⟩
        rcases List.mem_cons.mp hother with rfl | hrest
        · exact hfirst
        · exact hbefore other hrest
  · rintro ⟨before, after, rfl, hentry, hbefore, hafter⟩
    rw [List.filter_append, List.filter_eq_nil_iff.mpr hbefore, List.filter_cons_of_pos hentry,
      List.filter_eq_nil_iff.mpr hafter]
    rfl

variable {plaintextOf : α → Text} {wanted : Text}

theorem find?_eq_none_of_forall :
    (entries.find? fun entry => plaintextOf entry = wanted) = none ↔
      ∀ entry ∈ entries, plaintextOf entry ≠ wanted := by
  rw [List.find?_eq_none]
  simp

/-- What is found is what was named. -/
theorem findOne_eq_some_iff {entry : α} :
    findOne entries plaintextOf wanted = .ok (some entry) ↔
      Names entries plaintextOf wanted entry := by
  unfold findOne
  cases hexact : entries.find? fun entry => plaintextOf entry = wanted with
  | some exact =>
    constructor
    · intro h
      cases h
      obtain ⟨hentry, before, after, rfl, hbefore⟩ := List.find?_eq_some_iff_append.mp hexact
      refine .inl ⟨before, after, rfl, of_decide_eq_true hentry, fun other hother => ?_⟩
      simpa using hbefore other hother
    · rintro (⟨before, after, rfl, hentry, hbefore⟩ | ⟨hnone, -⟩)
      · have hfound : ((before ++ entry :: after).find? fun entry => plaintextOf entry = wanted) =
            some entry := by
          refine List.find?_eq_some_iff_append.mpr ⟨decide_eq_true hentry, before, after, rfl, ?_⟩
          intro other hother
          simpa using hbefore other hother
        rw [hfound] at hexact
        cases hexact
        rfl
      · rw [find?_eq_none_of_forall.mpr hnone] at hexact
        cases hexact
  | none =>
    have hnone := find?_eq_none_of_forall.mp hexact
    constructor
    · intro h
      refine .inr ⟨hnone, filter_eq_singleton_iff.mp ?_⟩
      simp only at h
      split at h
      · cases h
      · rename_i only hfilter
        cases h
        exact hfilter
      · cases h
    · rintro (⟨before, after, rfl, hentry, -⟩ | ⟨-, hsingle⟩)
      · exact (hnone entry (by simp) hentry).elim
      · simp only [filter_eq_singleton_iff.mpr hsingle]

theorem findOne_eq_none_iff :
    findOne entries plaintextOf wanted = .ok none ↔ NamesNone entries plaintextOf wanted := by
  unfold findOne
  cases hexact : entries.find? fun entry => plaintextOf entry = wanted with
  | some exact =>
    refine ⟨fun h => (by cases h), fun h => ?_⟩
    have hsame := of_decide_eq_true (List.find?_some hexact :)
    have hno := h exact (List.mem_of_find?_eq_some hexact)
    rw [hsame, eqIgnoreAsciiCase_refl] at hno
    cases hno
  | none =>
    constructor
    · intro h
      simp only at h
      split at h
      · rename_i hfilter
        intro entry hentry
        have hnot := List.filter_eq_nil_iff.mp hfilter entry hentry
        simpa using hnot
      · cases h
      · cases h
    · intro h
      have hfilter : (entries.filter fun entry => eqIgnoreAsciiCase (plaintextOf entry) wanted) =
          [] := by
        rw [List.filter_eq_nil_iff]
        intro entry hentry hyes
        rw [h entry hentry] at hyes
        cases hyes
      simp only [hfilter]

end FindOne

end AccountNames
end WbfMatrixClient
