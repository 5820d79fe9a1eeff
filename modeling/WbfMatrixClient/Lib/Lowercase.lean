import Mathlib.Data.List.Basic

/-!
# Texts in lower case

Every character of a text has its lower case of one or more characters, but the
capital sigma, whose lower case depends on whether it ends a word: a letter is
before it and none after it, where some characters are passed over. The tables
of the characters are a parameter, with what they say of the first 128.
-/

namespace WbfMatrixClient

structure CaseTables where
  lower : Char → List Char
  cased : Char → Bool
  ignorable : Char → Bool
  lower_of_ascii : ∀ c, c.toNat < 128 → lower c = [c.toLower]
  /-- Other characters have nothing of the first 128 in their lower case but letters. -/
  isLower_of_mem : ∀ c d, 128 ≤ c.toNat → d ∈ lower c → d.toNat < 128 → d.isLower = true
  lower_of_mem : ∀ c d, d ∈ lower c → lower d = [d]
  lower_ne_nil : ∀ c, lower c ≠ []
  lower_sigma : lower 'Σ' = ['σ']
  lower_finalSigma : lower 'ς' = ['ς']
  cased_of_ascii : ∀ c, c.toNat < 128 → cased c = c.isAlpha
  ignorable_of_ascii : ∀ c, c.toNat < 128 →
    ignorable c = decide (c.toNat ∈ [0x27, 0x2e, 0x3a, 0x5e, 0x60])

namespace CaseTables

variable (tables : CaseTables)

/-- Whether the first character that is not passed over is a letter. -/
def casedFirst (text : List Char) : Bool :=
  (text.find? fun c => !tables.ignorable c).any tables.cased

/-- The lower case of a text after another, which is given from its end. -/
def lowerFrom : List Char → List Char → List Char
  | _, [] => []
  | before, c :: rest =>
      (if c = 'Σ' then
        if tables.casedFirst before && !tables.casedFirst rest then ['ς'] else ['σ']
      else
        tables.lower c) ++ lowerFrom (c :: before) rest

def toLowercase (text : List Char) : List Char :=
  tables.lowerFrom [] text

variable {tables} {text first rest before : List Char} {c d : Char}

theorem toLower_of_ascii (h : c.toNat < 128) :
    (c.isAlpha = false → c.toLower = c) ∧ (c.toLower = c ∨ c.toLower.isLower = true) := by
  have hall : ∀ n < 128, ((Char.ofNat n).isAlpha = false → (Char.ofNat n).toLower = Char.ofNat n) ∧
      ((Char.ofNat n).toLower = Char.ofNat n ∨ (Char.ofNat n).toLower.isLower = true) := by
    decide
  simpa only [Char.ofNat_toNat] using hall c.toNat h

theorem casedFirst_append (h : tables.casedFirst rest = false) (first : List Char) :
    tables.casedFirst (first ++ rest) = tables.casedFirst first := by
  rw [casedFirst, List.find?_append, casedFirst]
  cases first.find? fun c => !tables.ignorable c with
  | none => exact h
  | some c => rfl

theorem lowerFrom_append (h : tables.casedFirst rest = false) (before first : List Char) :
    tables.lowerFrom before (first ++ rest) =
      tables.lowerFrom before first ++ tables.lowerFrom (first.reverse ++ before) rest := by
  induction first generalizing before with
  | nil => rfl
  | cons c first ih =>
    rw [List.cons_append, lowerFrom, casedFirst_append h, ih, lowerFrom, List.append_assoc,
      List.reverse_cons, List.append_assoc, List.singleton_append]

theorem lowerFrom_before (h : tables.casedFirst before = false) (near text : List Char) :
    tables.lowerFrom (near ++ before) text = tables.lowerFrom near text := by
  induction text generalizing near with
  | nil => rfl
  | cons c text ih => rw [lowerFrom, casedFirst_append h, ← List.cons_append, ih, lowerFrom]

variable (tables) in
/-- No letter, and not passed over. -/
structure Stops (c : Char) : Prop where
  lower : tables.lower c = [c]
  ne_sigma : c ≠ 'Σ'
  cased : tables.cased c = false
  ignorable : tables.ignorable c = false

theorem stops_of_ascii (hascii : c.toNat < 128) (halpha : c.isAlpha = false)
    (hnot : c.toNat ∉ [0x27, 0x2e, 0x3a, 0x5e, 0x60]) :
    tables.Stops c where
  lower := by
    rw [tables.lower_of_ascii c hascii, (toLower_of_ascii hascii).1 halpha]
  ne_sigma := by
    rintro rfl
    exact absurd hascii (by decide)
  cased := (tables.cased_of_ascii c hascii).trans halpha
  ignorable := (tables.ignorable_of_ascii c hascii).trans (decide_eq_false hnot)

theorem casedFirst_cons_of_stops (h : tables.Stops c) (rest : List Char) :
    tables.casedFirst (c :: rest) = false := by
  rw [casedFirst, List.find?_cons_of_pos (by simp [h.ignorable]), Option.any_some]
  exact h.cased

theorem lowerFrom_cons_of_stops (h : tables.Stops c) (before rest : List Char) :
    tables.lowerFrom before (c :: rest) = c :: tables.toLowercase rest := by
  have hrest := lowerFrom_before (casedFirst_cons_of_stops h before) [] rest
  rw [List.nil_append] at hrest
  rw [lowerFrom, if_neg h.ne_sigma, h.lower, hrest, toLowercase, List.singleton_append]

/-- The text is cut at a character that is no letter and not passed over. -/
theorem toLowercase_append_cons (h : tables.Stops c) (first rest : List Char) :
    tables.toLowercase (first ++ c :: rest) =
      tables.toLowercase first ++ c :: tables.toLowercase rest := by
  rw [toLowercase, lowerFrom_append (casedFirst_cons_of_stops h rest),
    lowerFrom_cons_of_stops h]
  rfl

theorem toLowercase_append (h : ∀ c, rest.head? = some c → tables.Stops c) (first : List Char) :
    tables.toLowercase (first ++ rest) = tables.toLowercase first ++ tables.toLowercase rest := by
  cases rest with
  | nil => rw [List.append_nil, toLowercase, toLowercase, lowerFrom, List.append_nil]
  | cons c rest =>
    rw [toLowercase_append_cons (h c rfl)]
    exact congrArg (tables.toLowercase first ++ ·)
      (lowerFrom_cons_of_stops (h c rfl) [] rest).symm

theorem lower_of_ascii_not_alpha (hascii : c.toNat < 128) (halpha : c.isAlpha = false) :
    tables.lower c = [c] := by
  rw [tables.lower_of_ascii c hascii, (toLower_of_ascii hascii).1 halpha]

/-- A colon is passed over, so the text is cut at it if it is cut right after it. -/
theorem toLowercase_append_colon (h : tables.Stops c) (first rest : List Char) :
    tables.toLowercase (first ++ ':' :: c :: rest) =
      tables.toLowercase first ++ ':' :: c :: tables.toLowercase rest := by
  have hpassed : tables.ignorable ':' = true := tables.ignorable_of_ascii ':' (by decide)
  have hcased : tables.casedFirst (':' :: c :: rest) = false := by
    rw [casedFirst, List.find?_cons_of_neg (by simp [hpassed])]
    exact casedFirst_cons_of_stops h rest
  rw [toLowercase, lowerFrom_append hcased, lowerFrom, if_neg (by decide),
    lower_of_ascii_not_alpha (by decide) (by decide), lowerFrom_cons_of_stops h,
    List.singleton_append]
  rfl

/-- The lower case of one character is this character, or has of the first 128
small letters only. -/
theorem lowerFrom_cons_cases (tables : CaseTables) (before rest : List Char) (c : Char) :
    ∃ block, block ≠ [] ∧
      tables.lowerFrom before (c :: rest) = block ++ tables.lowerFrom (c :: before) rest ∧
      (block = [c] ∨ ∀ d ∈ block, d.toNat < 128 → d.isLower = true) := by
  refine ⟨_, ?_, rfl, ?_⟩
  · split_ifs
    · exact nofun
    · exact nofun
    · exact tables.lower_ne_nil c
  · by_cases hascii : c.toNat < 128
    · have hsigma : c ≠ 'Σ' := by
        rintro rfl
        exact absurd hascii (by decide)
      rw [if_neg hsigma, tables.lower_of_ascii c hascii]
      obtain hsame | hletter := (toLower_of_ascii hascii).2
      · exact .inl (by rw [hsame])
      · refine .inr fun d hd _ => ?_
        rw [List.mem_singleton.mp hd]
        exact hletter
    · right
      intro d hd hdascii
      split_ifs at hd
      · rw [List.mem_singleton.mp hd] at hdascii
        exact absurd hdascii (by decide)
      · rw [List.mem_singleton.mp hd] at hdascii
        exact absurd hdascii (by decide)
      · exact tables.isLower_of_mem c d (by omega) hd hdascii

/-- A character of the first 128 that is no small letter. -/
def IsMark (c : Char) : Prop :=
  c.toNat < 128 ∧ c.isLower = false

instance (c : Char) : Decidable (IsMark c) :=
  inferInstanceAs (Decidable (c.toNat < 128 ∧ c.isLower = false))

theorem not_mem_letters {block : List Char} (hmark : IsMark c)
    (h : ∀ d ∈ block, d.toNat < 128 → d.isLower = true) : c ∉ block := by
  intro hc
  cases hmark.2.symm.trans (h c hc hmark.1)

/-- A mark is there only where it was. -/
theorem mem_of_mem_lowerFrom (hmark : IsMark c) (h : c ∈ tables.lowerFrom before text) :
    c ∈ text := by
  induction text generalizing before with
  | nil => cases h
  | cons d text ih =>
    obtain ⟨block, -, hblock, hcases⟩ := lowerFrom_cons_cases tables before text d
    rw [hblock, List.mem_append] at h
    obtain h | h := h
    · obtain rfl | hletters := hcases
      · rw [List.mem_singleton.mp h]
        exact List.mem_cons_self
      · exact absurd h (not_mem_letters hmark hletters)
    · exact List.mem_cons_of_mem _ (ih h)

variable {marks : List Char}

theorem prefix_of_prefix_lowerFrom (hmarks : ∀ c ∈ marks, IsMark c)
    (h : marks <+: tables.lowerFrom before text) : marks <+: text := by
  induction text generalizing before marks with
  | nil => exact h
  | cons c text ih =>
    cases marks with
    | nil => exact List.nil_prefix
    | cons d marks =>
      obtain ⟨hd, htail⟩ := List.forall_mem_cons.mp hmarks
      obtain ⟨block, hne, hblock, hcases⟩ := lowerFrom_cons_cases tables before text c
      rw [hblock] at h
      obtain rfl | hletters := hcases
      · rw [List.singleton_append, List.cons_prefix_cons] at h
        exact List.cons_prefix_cons.mpr ⟨h.1, ih htail h.2⟩
      · cases block with
        | nil => exact absurd rfl hne
        | cons e block =>
          rw [List.cons_append, List.cons_prefix_cons] at h
          exact absurd (h.1 ▸ List.mem_cons_self) (not_mem_letters hd hletters)

/-- Marks are there one after another only where they were. -/
theorem infix_of_infix_lowerFrom (hmarks : ∀ c ∈ marks, IsMark c)
    (h : marks <:+: tables.lowerFrom before text) : marks <:+: text := by
  induction text generalizing before with
  | nil => exact h
  | cons c text ih =>
    obtain hfirst | hlater : marks <+: c :: text ∨
        marks <:+: tables.lowerFrom (c :: before) text := by
      obtain ⟨block, -, hblock, hcases⟩ := lowerFrom_cons_cases tables before text c
      obtain rfl | hletters := hcases
      · rw [hblock, List.singleton_append, List.infix_cons_iff] at h
        refine h.imp_left fun hbegins => ?_
        have hwhole : marks <+: tables.lowerFrom before (c :: text) := by
          rw [hblock]
          exact hbegins
        exact prefix_of_prefix_lowerFrom hmarks hwhole
      · rw [hblock] at h
        clear hblock
        cases marks with
        | nil => exact .inl List.nil_prefix
        | cons d marks =>
          right
          induction block with
          | nil => exact h
          | cons e block ihblock =>
            obtain ⟨he, hblock⟩ := List.forall_mem_cons.mp hletters
            rw [List.cons_append, List.infix_cons_iff, List.cons_prefix_cons] at h
            obtain ⟨rfl, -⟩ | h := h
            · exact absurd List.mem_cons_self
                (not_mem_letters (hmarks d List.mem_cons_self) hletters)
            · exact ihblock hblock h
    · exact hfirst.isInfix
    · exact List.infix_cons_iff.mpr (.inr (ih hlater))

theorem lowerFrom_of_ascii (h : ∀ c ∈ text, c.toNat < 128) (before : List Char) :
    tables.lowerFrom before text = text.map Char.toLower := by
  induction text generalizing before with
  | nil => rfl
  | cons c text ih =>
    obtain ⟨hc, htext⟩ := List.forall_mem_cons.mp h
    have hsigma : c ≠ 'Σ' := by
      rintro rfl
      exact absurd hc (by decide)
    rw [lowerFrom, if_neg hsigma, tables.lower_of_ascii c hc, ih htext, List.map_cons,
      List.singleton_append]

theorem lowerFrom_ne_nil (h : text ≠ []) (before : List Char) :
    tables.lowerFrom before text ≠ [] := by
  cases text with
  | nil => exact absurd rfl h
  | cons c text =>
    obtain ⟨block, hne, hblock, -⟩ := lowerFrom_cons_cases tables before text c
    rw [hblock]
    exact List.append_ne_nil_of_left_ne_nil hne _

/-- A text in lower case stays as it is. -/
theorem lowerFrom_eq_self (h : ∀ c ∈ text, tables.lower c = [c]) (before : List Char) :
    tables.lowerFrom before text = text := by
  induction text generalizing before with
  | nil => rfl
  | cons c text ih =>
    obtain ⟨hc, htext⟩ := List.forall_mem_cons.mp h
    have hsigma : c ≠ 'Σ' := by
      rintro rfl
      exact absurd (tables.lower_sigma.symm.trans hc) (by decide)
    rw [lowerFrom, if_neg hsigma, hc, ih htext, List.singleton_append]

theorem lower_of_mem_lowerFrom (h : c ∈ tables.lowerFrom before text) : tables.lower c = [c] := by
  induction text generalizing before with
  | nil => cases h
  | cons d text ih =>
    rw [lowerFrom, List.mem_append] at h
    obtain h | h := h
    · split_ifs at h
      · rw [List.mem_singleton.mp h, tables.lower_finalSigma]
      · rw [List.mem_singleton.mp h]
        exact tables.lower_of_mem 'Σ' 'σ' (by simp [tables.lower_sigma])
      · exact tables.lower_of_mem d c h
    · exact ih h

theorem toLowercase_toLowercase (text : List Char) :
    tables.toLowercase (tables.toLowercase text) = tables.toLowercase text :=
  lowerFrom_eq_self (fun _ => lower_of_mem_lowerFrom) []

theorem toLower_of_not_ascii (h : 128 ≤ c.toNat) : c.toLower = c := by
  refine dif_neg ?_
  rintro ⟨-, hle⟩
  have hbound : c.toNat ≤ 90 := UInt32.le_iff_toNat_le.mp hle
  omega

theorem toLower_toLower (c : Char) : c.toLower.toLower = c.toLower := by
  by_cases h : c.toNat < 128
  · have hall : ∀ n < 128, (Char.ofNat n).toLower.toLower = (Char.ofNat n).toLower := by decide
    simpa only [Char.ofNat_toNat] using hall c.toNat h
  · have hsame := toLower_of_not_ascii (c := c) (by omega)
    rw [hsame, hsame]

/-- Other characters have no other case, but the capital sigma. -/
def ascii : CaseTables where
  lower c := if c = 'Σ' then ['σ'] else [c.toLower]
  cased c := c.isAlpha
  ignorable c := decide (c.toNat ∈ [0x27, 0x2e, 0x3a, 0x5e, 0x60])
  lower_of_ascii c h := by
    rw [if_neg]
    rintro rfl
    exact absurd h (by decide)
  isLower_of_mem c d h hd hascii := by
    split_ifs at hd
    · rw [List.mem_singleton.mp hd] at hascii
      exact absurd hascii (by decide)
    · rw [List.mem_singleton.mp hd, toLower_of_not_ascii h] at hascii
      omega
  lower_of_mem c d hd := by
    split_ifs at hd with hsigma
    · rw [List.mem_singleton.mp hd]
      decide
    · obtain rfl := List.mem_singleton.mp hd
      rw [toLower_toLower, if_neg]
      intro hlower
      by_cases h : c.toNat < 128
      · have hall : ∀ n < 128, (Char.ofNat n).toLower ≠ 'Σ' := by decide
        exact hall c.toNat h (by rwa [Char.ofNat_toNat])
      · exact hsigma ((toLower_of_not_ascii (by omega)).symm.trans hlower)
  lower_ne_nil c := by
    split_ifs
    · exact nofun
    · exact nofun
  lower_sigma := by decide
  lower_finalSigma := by decide
  cased_of_ascii _ _ := rfl
  ignorable_of_ascii _ _ := rfl

end CaseTables
end WbfMatrixClient
