import Mathlib.Data.List.Forall2
import WbfMatrixClient.Incoming
import WbfMatrixClient.Lib.Bytes
import WbfMatrixClient.Lib.SortedMap
import WbfMatrixClient.Lib.Utf8

/-!
# The fingerprint of the keys of an account

The keys of an account as everyone sees them: without what the server adds and
without the signatures of others. The fingerprint is a hash of these keys behind
their lengths, so that two answers of the server with the same keys have the same
fingerprint and others are hashed from other bytes.

The canonical form of JSON and the hash are parameters.
-/

namespace WbfMatrixClient

/-- The fields of every object are in the order of their names, as a map of the source keeps
them. -/
inductive Json.Sorted : Json → Prop where
  | null : Sorted .null
  | bool (b : Bool) : Sorted (.bool b)
  | number (n : Int) : Sorted (.number n)
  | decimal (text : String) : Sorted (.decimal text)
  | string (text : String) : Sorted (.string text)
  | array {items : List Json} (hitems : ∀ item ∈ items, Sorted item) : Sorted (.array items)
  | object {fields : List (String × Json)} (hkeys : SortedMap.Sorted fields)
      (hfields : ∀ field ∈ fields, Sorted field.2) : Sorted (.object fields)

namespace DeviceKeys

def hashHexLen : Nat := 10

structure Packages where
  toVec : Json → Option (List UInt8)
  sha256 : List UInt8 → List UInt8

/-- What of a key does not depend on who has asked for it. -/
def onlyWhatEveryoneSees (userId : String) (key : Json) : Json :=
  match key with
  | .object fields =>
      let visible := SortedMap.erase "unsigned" fields
      match (visible.lookup "signatures").bind (Json.get userId) with
      | none => .object (SortedMap.erase "signatures" visible)
      | some own => .object (SortedMap.insert "signatures" (.object [(userId, own)]) visible)
  | other => other

def keyOf (userId : String) (keysQuery : Json) (table : String) : Option Json :=
  (keysQuery.get table).bind (Json.get userId)

/-- The devices in the order of their ids. -/
def devicesOf (userId : String) (keysQuery : Json) : List Json :=
  match keyOf userId keysQuery "device_keys" with
  | some (.object byDeviceId) => byDeviceId.map Prod.snd
  | _ => []

/-- The two keys of the account and those of its devices. -/
def itemsOf (userId : String) (keysQuery : Json) : List (Option Json) :=
  keyOf userId keysQuery "master_keys" :: keyOf userId keysQuery "self_signing_keys" ::
    (devicesOf userId keysQuery).map some

section Hashing

variable (packages : Packages)

def canonicalOf (userId : String) : Option Json → Option (List UInt8)
  | none => some []
  | some key => packages.toVec (onlyWhatEveryoneSees userId key)

/-- The items behind their lengths, unless one cannot be written or is too long. -/
def frameItems (userId : String) : List (Option Json) → Option (List UInt8)
  | [] => some []
  | item :: rest =>
      match canonicalOf packages userId item with
      | none => none
      | some canonical =>
          if canonical.length < 2 ^ 32 then
            (frameItems userId rest).map fun framed =>
              Bytes.toBigEndian 4 canonical.length ++ (canonical ++ framed)
          else
            none

/-- The bytes that are hashed. -/
def hashedBytes (userId : String) (keysQuery : Json) : Option (List UInt8) :=
  frameItems packages userId (itemsOf userId keysQuery)

def computeDeviceKeysHash (userId : String) (keysQuery : Json) : Option (List Char) :=
  match hashedBytes packages userId keysQuery with
  | none => none
  | some framed =>
      let hash := Bytes.toHex (packages.sha256 framed)
      if hashHexLen ≤ hash.length then some (hash.take hashHexLen) else none

end Hashing

/-- What is relied on: sorted JSON has one canonical form, which is not empty. -/
structure Packages.Canonical (packages : Packages) : Prop where
  toVec_injective : ∀ a b text, a.Sorted → b.Sorted → packages.toVec a = some text →
    packages.toVec b = some text → a = b
  toVec_ne_nil : ∀ a, packages.toVec a ≠ some []

/-- The signatures of the account itself on one of its keys. -/
def ownSignatures (userId : String) (key : Json) : Option Json :=
  (key.get "signatures").bind (Json.get userId)

/-- Two keys with the same fields, apart from what the server adds and the signatures of others. -/
def SeenAlike (userId : String) : Json → Json → Prop
  | .object fields, .object fields' =>
      (∀ name, name ≠ "unsigned" → name ≠ "signatures" →
        fields.lookup name = fields'.lookup name) ∧
      ownSignatures userId (.object fields) = ownSignatures userId (.object fields')
  | key, key' => key = key'

/-- Two answers with the same keys of an account, one after another, and the same missing. -/
structure KeysAlike (userId : String) (keysQuery keysQuery' : Json) : Prop where
  master : Option.Rel (SeenAlike userId) (keyOf userId keysQuery "master_keys")
    (keyOf userId keysQuery' "master_keys")
  selfSigning : Option.Rel (SeenAlike userId) (keyOf userId keysQuery "self_signing_keys")
    (keyOf userId keysQuery' "self_signing_keys")
  devices : List.Forall₂ (SeenAlike userId) (devicesOf userId keysQuery)
    (devicesOf userId keysQuery')

section Alike

variable {userId : String} {key key' : Json} {fields fields' : List (String × Json)}

variable {value : Json}

theorem sorted_get (h : key.Sorted) {name : String} (hget : key.get name = some value) :
    value.Sorted := by
  cases h with
  | object hkeys hfields => exact hfields _ (SortedMap.mem_of_lookup hget)
  | null | bool b | number n | decimal text | string text | array hitems => cases hget

theorem sorted_bind_get {outer : Option Json} (h : ∀ json, outer = some json → json.Sorted)
    {name : String} (hget : outer.bind (Json.get name) = some value) : value.Sorted := by
  obtain ⟨inner, hinner, hvalue⟩ := Option.bind_eq_some_iff.mp hget
  exact sorted_get (h inner hinner) hvalue

theorem sorted_keyOf (h : key.Sorted) {table : String}
    (hget : keyOf userId key table = some value) :
    value.Sorted := sorted_bind_get (fun _ hjson => sorted_get h hjson) hget

theorem sorted_of_mem_devicesOf (h : key.Sorted) {device : Json}
    (hdevice : device ∈ devicesOf userId key) : device.Sorted := by
  rw [devicesOf] at hdevice
  split at hdevice
  · rename_i byDeviceId hdevices
    obtain ⟨entry, hentry, rfl⟩ := List.mem_map.mp hdevice
    cases sorted_keyOf h hdevices with
    | object hkeys hfields => exact hfields entry hentry
  · cases hdevice

theorem sorted_visible (h : key.Sorted) : (onlyWhatEveryoneSees userId key).Sorted := by
  cases h with
  | object hkeys hfields =>
    rename_i fields
    rw [onlyWhatEveryoneSees]
    have hvisible : ∀ field ∈ SortedMap.erase "unsigned" fields, field.2.Sorted :=
      fun field hfield => hfields field (List.mem_of_mem_filter hfield)
    cases hown : ((SortedMap.erase "unsigned" fields).lookup "signatures").bind
        (Json.get userId) with
    | none =>
      exact .object ((hkeys.erase _).erase _) fun field hfield =>
        hvisible field (List.mem_of_mem_filter hfield)
    | some own =>
      refine .object ((hkeys.erase _).insert _ _) fun field hfield => ?_
      rcases SortedMap.mem_insert hfield with rfl | hfield
      · refine .object (List.pairwise_singleton _ _) fun entry hentry => ?_
        rw [List.mem_singleton.mp hentry]
        refine sorted_bind_get (fun json hjson => ?_) hown
        exact hvisible _ (SortedMap.mem_of_lookup hjson)
      · exact hvisible field hfield
  | null => exact .null
  | bool b => exact .bool b
  | number n => exact .number n
  | decimal text => exact .decimal text
  | string text => exact .string text
  | array hitems => exact .array hitems

/-- What is found in the visible part of a key. -/
theorem visible_object (userId : String) (fields : List (String × Json)) :
    ∃ visible, onlyWhatEveryoneSees userId (.object fields) = .object visible ∧
      (∀ name, name ≠ "unsigned" → name ≠ "signatures" →
        visible.lookup name = fields.lookup name) ∧
      visible.lookup "unsigned" = none ∧
      visible.lookup "signatures" =
        (ownSignatures userId (.object fields)).map fun own => .object [(userId, own)] := by
  have hown : ((SortedMap.erase "unsigned" fields).lookup "signatures").bind (Json.get userId) =
      ownSignatures userId (.object fields) := by
    rw [SortedMap.lookup_erase, if_neg (by decide)]
    rfl
  rw [onlyWhatEveryoneSees, hown]
  cases ownSignatures userId (.object fields) with
  | none =>
    refine ⟨_, rfl, fun name hunsigned hsignatures => ?_, ?_, ?_⟩
    · rw [SortedMap.lookup_erase, if_neg hsignatures, SortedMap.lookup_erase, if_neg hunsigned]
    · rw [SortedMap.lookup_erase, if_neg (by decide), SortedMap.lookup_erase, if_pos rfl]
    · rw [SortedMap.lookup_erase, if_pos rfl]
      rfl
  | some own =>
    refine ⟨_, rfl, fun name hunsigned hsignatures => ?_, ?_, ?_⟩
    · rw [SortedMap.lookup_insert, if_neg hsignatures, SortedMap.lookup_erase, if_neg hunsigned]
    · rw [SortedMap.lookup_insert, if_neg (by decide), SortedMap.lookup_erase, if_pos rfl]
    · rw [SortedMap.lookup_insert, if_pos rfl]
      rfl

theorem isObject_visible (userId : String) (key : Json) :
    (onlyWhatEveryoneSees userId key).isObject = key.isObject := by
  cases key with
  | object fields =>
    obtain ⟨visible, hvisible, -⟩ := visible_object userId fields
    rw [hvisible]
    rfl
  | null | bool b | number n | decimal text | string text | array items => rfl

theorem visible_of_not_object (h : key.isObject = false) :
    onlyWhatEveryoneSees userId key = key := by
  cases key with
  | object fields => cases h
  | null | bool b | number n | decimal text | string text | array items => rfl

theorem seenAlike_of_not_object (h : key.isObject = false) :
    SeenAlike userId key key' ↔ key = key' := by
  cases key with
  | object fields => cases h
  | null | bool b | number n | decimal text | string text | array items => exact Iff.rfl

/-- Two objects are seen alike exactly where their visible parts find the same under every name. -/
theorem visible_object_eq_iff (h : (Json.object fields).Sorted)
    (h' : (Json.object fields').Sorted) :
    onlyWhatEveryoneSees userId (.object fields) = onlyWhatEveryoneSees userId (.object fields') ↔
      SeenAlike userId (.object fields) (.object fields') := by
  obtain ⟨visible, hvisible, hother, hunsigned, hown⟩ := visible_object userId fields
  obtain ⟨visible', hvisible', hother', hunsigned', hown'⟩ := visible_object userId fields'
  rw [hvisible, hvisible', Json.object.injEq]
  constructor
  · rintro rfl
    refine ⟨fun name hname hname' => (hother name hname hname').symm.trans
      (hother' name hname hname'), ?_⟩
    refine Option.map_injective (fun own own' heq => ?_) (hown.symm.trans hown')
    simpa using heq
  · rintro ⟨hsame, hsameOwn⟩
    have hsorted := (sorted_visible h : (onlyWhatEveryoneSees userId _).Sorted)
    have hsorted' := (sorted_visible h' : (onlyWhatEveryoneSees userId _).Sorted)
    rw [hvisible] at hsorted
    rw [hvisible'] at hsorted'
    cases hsorted with
    | object hkeys hfields =>
      cases hsorted' with
      | object hkeys' hfields' =>
        refine SortedMap.ext hkeys hkeys' fun name => ?_
        by_cases hname : name = "unsigned"
        · rw [hname, hunsigned, hunsigned']
        · by_cases hname' : name = "signatures"
          · rw [hname', hown, hown', hsameOwn]
          · rw [hother name hname hname', hother' name hname hname', hsame name hname hname']

/-- The visible parts are the same exactly where the keys are seen alike. -/
theorem visible_eq_iff (h : key.Sorted) (h' : key'.Sorted) :
    onlyWhatEveryoneSees userId key = onlyWhatEveryoneSees userId key' ↔
      SeenAlike userId key key' := by
  cases hobject : key.isObject with
  | false =>
    rw [visible_of_not_object hobject, seenAlike_of_not_object hobject]
    cases hobject' : key'.isObject with
    | false => rw [visible_of_not_object hobject']
    | true =>
      constructor
      · intro heq
        rw [heq, isObject_visible, hobject'] at hobject
        cases hobject
      · intro heq
        rw [heq, hobject'] at hobject
        cases hobject
  | true =>
    cases key with
    | object fields =>
      cases key' with
      | object fields' => exact visible_object_eq_iff h h'
      | _ =>
        obtain ⟨visible, hvisible, -⟩ := visible_object userId fields
        rw [hvisible]
        exact ⟨nofun, nofun⟩
    | _ => cases hobject

end Alike

section Framing

variable {packages : Packages} {userId : String}

/-- An item stops the hashing where it cannot be written or is too long. -/
def Unhashable (packages : Packages) (userId : String) (item : Option Json) : Prop :=
  ∀ canonical, canonicalOf packages userId item = some canonical → 2 ^ 32 ≤ canonical.length

variable {items : List (Option Json)}

theorem frameItems_eq_none_iff :
    frameItems packages userId items = none ↔ ∃ item ∈ items, Unhashable packages userId item := by
  induction items with
  | nil => simp [frameItems]
  | cons item rest ih =>
    simp only [List.exists_mem_cons_iff, ← ih]
    rw [frameItems, Unhashable]
    cases hcanonical : canonicalOf packages userId item with
    | none => simp
    | some canonical =>
      simp only [Option.some.injEq, forall_eq']
      split_ifs with hlength
      · rw [Option.map_eq_none_iff, or_iff_right (by omega)]
      · simp only [true_iff]
        exact .inl (by omega)

theorem frameItems_congr {items' : List (Option Json)}
    (h : List.Forall₂ (fun item item' => canonicalOf packages userId item = canonicalOf packages
      userId item') items items') :
    frameItems packages userId items = frameItems packages userId items' := by
  induction h with
  | nil => rfl
  | cons hitem hrest ih => rw [frameItems, frameItems, hitem, ih]

theorem frameItems_cons_eq_some_iff {item : Option Json} {rest : List (Option Json)}
    {framed : List UInt8} :
    frameItems packages userId (item :: rest) = some framed ↔
      ∃ canonical framedRest, canonicalOf packages userId item = some canonical ∧
        canonical.length < 2 ^ 32 ∧ frameItems packages userId rest = some framedRest ∧
        Bytes.toBigEndian 4 canonical.length ++ (canonical ++ framedRest) = framed := by
  rw [frameItems]
  cases hcanonical : canonicalOf packages userId item with
  | none => simp
  | some canonical =>
    simp only [Option.some.injEq]
    split_ifs with hlength
    · rw [Option.map_eq_some_iff]
      constructor
      · rintro ⟨framedRest, hrest, rfl⟩
        exact ⟨canonical, framedRest, rfl, hlength, hrest, rfl⟩
      · rintro ⟨_, framedRest, rfl, -, hrest, rfl⟩
        exact ⟨framedRest, hrest, rfl⟩
    · constructor
      · exact nofun
      · rintro ⟨_, -, rfl, hshort, -⟩
        exact absurd hshort hlength

theorem ne_nil_of_frameItems {item : Option Json} {rest : List (Option Json)}
    (h : frameItems packages userId (item :: rest) = some []) : False := by
  obtain ⟨canonical, framedRest, -, -, -, hempty⟩ := frameItems_cons_eq_some_iff.mp h
  have hlength := congrArg List.length hempty
  rw [List.length_append, Bytes.length_toBigEndian] at hlength
  simp at hlength

/-- The framed bytes give back what was framed, one item after another. -/
theorem canonical_of_frameItems {items' : List (Option Json)} {framed : List UInt8}
    (h : frameItems packages userId items = some framed)
    (h' : frameItems packages userId items' = some framed) :
    List.Forall₂ (fun item item' => ∃ canonical,
      canonicalOf packages userId item = some canonical ∧
        canonicalOf packages userId item' = some canonical) items items' := by
  induction items generalizing items' framed with
  | nil =>
    cases h
    cases items' with
    | nil => exact .nil
    | cons item' rest' => exact (ne_nil_of_frameItems h').elim
  | cons item rest ih =>
    cases items' with
    | nil =>
      cases h'
      exact (ne_nil_of_frameItems h).elim
    | cons item' rest' =>
      obtain ⟨canonical, framedRest, hitem, hlength, hrest, rfl⟩ :=
        frameItems_cons_eq_some_iff.mp h
      obtain ⟨canonical', framedRest', hitem', hlength', hrest', heq⟩ :=
        frameItems_cons_eq_some_iff.mp h'
      -- The lengths take four bytes each, and then the items have one length.
      obtain ⟨hlead, hbytes⟩ := List.append_inj heq (by simp)
      have hsame := Bytes.toBigEndian_injective hlength' hlength hlead
      obtain ⟨rfl, rfl⟩ := List.append_inj hbytes hsame
      exact .cons ⟨canonical', hitem, hitem'⟩ (ih hrest hrest')

end Framing

section Fingerprints

variable {packages : Packages} {userId : String} {key key' : Json}

variable {item : Option Json}

theorem canonicalOf_congr {item' : Option Json} (hsorted : ∀ key ∈ item, Json.Sorted key)
    (hsorted' : ∀ key ∈ item', Json.Sorted key) (h : Option.Rel (SeenAlike userId) item item') :
    canonicalOf packages userId item = canonicalOf packages userId item' := by
  cases h with
  | none => rfl
  | some halike =>
    rw [canonicalOf, canonicalOf, (visible_eq_iff (hsorted _ rfl) (hsorted' _ rfl)).mpr halike]

/-- Two items with one canonical form are both missing or are seen alike. -/
theorem rel_of_canonicalOf (h : packages.Canonical) {item' : Option Json}
    (hsorted : ∀ key ∈ item, Json.Sorted key) (hsorted' : ∀ key ∈ item', Json.Sorted key)
    {canonical : List UInt8} (hitem : canonicalOf packages userId item = some canonical)
    (hitem' : canonicalOf packages userId item' = some canonical) :
    Option.Rel (SeenAlike userId) item item' := by
  cases item with
  | none =>
    cases item' with
    | none => exact .none
    | some key' =>
      cases hitem
      exact absurd hitem' (h.toVec_ne_nil _)
  | some key =>
    cases item' with
    | none =>
      cases hitem'
      exact absurd hitem (h.toVec_ne_nil _)
    | some key' =>
      refine .some ((visible_eq_iff (hsorted _ rfl) (hsorted' _ rfl)).mp ?_)
      exact h.toVec_injective _ _ _ (sorted_visible (hsorted _ rfl))
        (sorted_visible (hsorted' _ rfl)) hitem hitem'

theorem sorted_of_mem_itemsOf (h : key.Sorted) (hitem : item ∈ itemsOf userId key) :
    ∀ key ∈ item, Json.Sorted key := by
  rintro found rfl
  rcases List.mem_cons.mp hitem with hmaster | hitem
  · exact sorted_keyOf h hmaster.symm
  · rcases List.mem_cons.mp hitem with hself | hitem
    · exact sorted_keyOf h hself.symm
    · obtain ⟨device, hdevice, hsame⟩ := List.mem_map.mp hitem
      cases hsame
      exact sorted_of_mem_devicesOf h hdevice

/-- Two answers have the keys of an account alike exactly where all items are so, in order. -/
theorem keysAlike_iff :
    KeysAlike userId key key' ↔
      List.Forall₂ (Option.Rel (SeenAlike userId)) (itemsOf userId key) (itemsOf userId key') := by
  have hsome : (fun a b => Option.Rel (SeenAlike userId) (some a) (some b)) =
      SeenAlike userId := by
    funext a b
    refine propext ⟨fun hrel => ?_, .some⟩
    cases hrel with
    | some halike => exact halike
  rw [itemsOf, itemsOf, List.forall₂_cons, List.forall₂_cons, List.forall₂_map_left_iff,
    List.forall₂_map_right_iff, hsome]
  exact ⟨fun h => ⟨h.master, h.selfSigning, h.devices⟩, fun h => ⟨h.1, h.2.1, h.2.2⟩⟩

/-- A relation of the items one by one, weakened where they are from. -/
theorem forall₂_imp_of_mem {α β : Type} {R S : α → β → Prop} {as : List α} {bs : List β}
    (h : List.Forall₂ R as bs) (himp : ∀ a ∈ as, ∀ b ∈ bs, R a b → S a b) :
    List.Forall₂ S as bs := by
  induction h with
  | nil => exact .nil
  | cons hab hrest ih =>
    refine .cons (himp _ List.mem_cons_self _ List.mem_cons_self hab) (ih fun a ha b hb => ?_)
    exact himp a (List.mem_cons_of_mem _ ha) b (List.mem_cons_of_mem _ hb)

theorem hashedBytes_congr (hsorted : key.Sorted) (hsorted' : key'.Sorted)
    (h : KeysAlike userId key key') :
    hashedBytes packages userId key = hashedBytes packages userId key' := by
  refine frameItems_congr (forall₂_imp_of_mem (keysAlike_iff.mp h) ?_)
  intro item hitem item' hitem' hrel
  exact canonicalOf_congr (sorted_of_mem_itemsOf hsorted hitem)
    (sorted_of_mem_itemsOf hsorted' hitem') hrel

theorem keysAlike_of_hashedBytes (h : packages.Canonical) (hsorted : key.Sorted)
    (hsorted' : key'.Sorted) {bytes : List UInt8}
    (hbytes : hashedBytes packages userId key = some bytes)
    (hbytes' : hashedBytes packages userId key' = some bytes) : KeysAlike userId key key' := by
  refine keysAlike_iff.mpr (forall₂_imp_of_mem (canonical_of_frameItems hbytes hbytes') ?_)
  rintro item hitem item' hitem' ⟨canonical, hcanonical, hcanonical'⟩
  exact rel_of_canonicalOf h (sorted_of_mem_itemsOf hsorted hitem)
    (sorted_of_mem_itemsOf hsorted' hitem') hcanonical hcanonical'

/-- An answer of the server, as it was parsed. -/
structure Response where
  json : Json
  sorted : json.Sorted

/-- Two answers are hashed from one text exactly where the keys of the account are seen alike and
none of them is too long. Such answers never differ in the outcome, and an answer is not hashed
exactly where one of its items is unhashable. -/
theorem fingerprint_exact (h : packages.Canonical) (userId : String) (first second : Response) :
    ((∃ bytes, hashedBytes packages userId first.json = some bytes ∧
        hashedBytes packages userId second.json = some bytes) ↔
      KeysAlike userId first.json second.json ∧
        ∀ item ∈ itemsOf userId first.json, ¬ Unhashable packages userId item) ∧
    (KeysAlike userId first.json second.json →
      hashedBytes packages userId first.json = hashedBytes packages userId second.json ∧
      computeDeviceKeysHash packages userId first.json =
        computeDeviceKeysHash packages userId second.json) := by
  have hcongr : KeysAlike userId first.json second.json →
      hashedBytes packages userId first.json = hashedBytes packages userId second.json :=
    hashedBytes_congr first.sorted second.sorted
  refine ⟨⟨?_, ?_⟩, fun halike => ⟨hcongr halike, ?_⟩⟩
  · rintro ⟨bytes, hbytes, hbytes'⟩
    refine ⟨keysAlike_of_hashedBytes h first.sorted second.sorted hbytes hbytes', ?_⟩
    intro item hitem hlong
    have hnone := frameItems_eq_none_iff.mpr ⟨item, hitem, hlong⟩
    rw [hashedBytes, hnone] at hbytes
    cases hbytes
  · rintro ⟨halike, hshort⟩
    cases hbytes : hashedBytes packages userId first.json with
    | none =>
        obtain ⟨item, hitem, hlong⟩ := frameItems_eq_none_iff.mp hbytes
        exact absurd hlong (hshort item hitem)
    | some bytes => exact ⟨bytes, rfl, (hcongr halike).symm.trans hbytes⟩
  · rw [computeDeviceKeysHash, computeDeviceKeysHash, hcongr halike]

def exampleText (text : String) : List UInt8 :=
  Utf8.encode ("\x7b\"user_id\":\"".toList ++ text.toList ++ "\"\x7d".toList)

def exampleKey (text : String) : Json :=
  .object [("user_id", .string text)]

/-- JSON of objects that have a name alone. -/
def exampleToVec : Json → Option (List UInt8)
  | .object [(name, .string text)] => if name = "user_id" then some (exampleText text) else none
  | _ => none

theorem exampleToVec_eq_some {json : Json} {bytes : List UInt8}
    (h : exampleToVec json = some bytes) :
    ∃ text, json = exampleKey text ∧ exampleText text = bytes := by
  rw [exampleToVec.eq_def] at h
  split at h
  · rename_i name text
    split_ifs at h with hname
    rw [hname]
    exact ⟨text, rfl, Option.some.inj h⟩
  · cases h

theorem exampleText_injective : Function.Injective exampleText := by
  intro text text' h
  have hchars := Utf8.encode_injective h
  rw [List.append_assoc, List.append_assoc] at hchars
  exact String.toList_inj.mp (List.append_cancel_right (List.append_cancel_left hchars))

theorem length_le_exampleText (text : String) :
    text.toList.length + 14 ≤ (exampleText text).length := by
  have hlength := Utf8.length_le_length_encode
    ("\x7b\"user_id\":\"".toList ++ text.toList ++ "\"\x7d".toList)
  rw [List.length_append, List.length_append] at hlength
  have hbegin : "\x7b\"user_id\":\"".toList.length = 12 := by decide
  have hend : "\"\x7d".toList.length = 2 := by decide
  rw [exampleText]
  omega

def examplePackages : Packages where
  toVec := exampleToVec
  sha256 bytes := bytes.take 32

theorem examplePackages_canonical : examplePackages.Canonical where
  toVec_injective := by
    intro a b bytes _ _ ha hb
    obtain ⟨text, rfl, hbytes⟩ := exampleToVec_eq_some ha
    obtain ⟨text', rfl, hbytes'⟩ := exampleToVec_eq_some hb
    rw [exampleText_injective (hbytes.trans hbytes'.symm)]
  toVec_ne_nil := by
    intro a ha
    obtain ⟨text, -, hbytes⟩ := exampleToVec_eq_some ha
    have hlength := length_le_exampleText text
    rw [hbytes, List.length_nil] at hlength
    omega

theorem sorted_singleton {name : String} {json : Json} (h : json.Sorted) :
    (Json.object [(name, json)]).Sorted := by
  refine .object (List.pairwise_singleton _ _) fun field hfield => ?_
  rw [List.mem_singleton.mp hfield]
  exact h

/-- An answer with a master key of one account. -/
def exampleResponse (userId : String) {key : Json} (h : key.Sorted) : Response where
  json := .object [("master_keys", .object [(userId, key)])]
  sorted := sorted_singleton (sorted_singleton h)

def bob : String := "@bob:localhost"

def bobsKey : Json := exampleKey bob

/-- The same key with what the server adds. -/
def bobsKeyUnsigned : Json :=
  .object [("unsigned", .object []), ("user_id", .string bob)]

theorem bobsKey_sorted : bobsKey.Sorted := sorted_singleton (.string bob)

theorem bobsKeyUnsigned_sorted : bobsKeyUnsigned.Sorted := by
  refine .object (List.pairwise_pair.mpr (by decide)) fun field hfield => ?_
  simp only [List.mem_cons, List.not_mem_nil, or_false] at hfield
  rcases hfield with rfl | rfl
  · exact .object List.Pairwise.nil (fun _ h => nomatch h)
  · exact .string bob

theorem bobsKey_alike :
    KeysAlike bob (exampleResponse bob bobsKey_sorted).json
      (exampleResponse bob bobsKeyUnsigned_sorted).json where
  master := by
    refine .some ⟨fun name hunsigned _ => ?_, rfl⟩
    rw [SortedMap.lookup_cons, SortedMap.lookup_cons, if_neg hunsigned, SortedMap.lookup_cons]
  selfSigning := .none
  devices := .nil

/-- What the server adds to a key is not hashed. -/
theorem fingerprint_of_bobsKey :
    ∃ bytes,
      hashedBytes examplePackages bob (exampleResponse bob bobsKey_sorted).json = some bytes ∧
      hashedBytes examplePackages bob (exampleResponse bob bobsKeyUnsigned_sorted).json =
        some bytes := by
  refine (fingerprint_exact examplePackages_canonical bob _ _).1.mpr ⟨bobsKey_alike, ?_⟩
  intro item hitem hlong
  have hitems : itemsOf bob (exampleResponse bob bobsKey_sorted).json = [some bobsKey, none] := rfl
  rw [hitems] at hitem
  simp only [List.mem_cons, List.not_mem_nil, or_false] at hitem
  rcases hitem with rfl | rfl
  · have hlength := hlong (exampleText bob) rfl
    have hshort : (exampleText bob).length = 28 := by decide
    omega
  · have hlength := hlong [] rfl
    simp at hlength

/-- A key with a text of 4 GiB is hashed from nothing, so that an answer with it has no bytes in
common even with itself. -/
theorem long_key_not_hashed :
    ∃ response : Response, KeysAlike bob response.json response.json ∧
      ¬ ∃ bytes, hashedBytes examplePackages bob response.json = some bytes ∧
        hashedBytes examplePackages bob response.json = some bytes := by
  obtain ⟨text, htext⟩ : ∃ text : String, text.toList.length = 2 ^ 32 :=
    ⟨String.ofList (List.replicate (2 ^ 32) 'a'), by
      rw [String.toList_ofList, List.length_replicate]⟩
  have hsorted : (exampleKey text).Sorted := sorted_singleton (.string text)
  refine ⟨exampleResponse bob hsorted, ⟨.some ⟨fun _ _ _ => rfl, rfl⟩, .none, .nil⟩, ?_⟩
  rintro ⟨bytes, hbytes, -⟩
  have hnone : hashedBytes examplePackages bob (exampleResponse bob hsorted).json = none := by
    refine frameItems_eq_none_iff.mpr ⟨some (exampleKey text), List.mem_cons_self, ?_⟩
    rintro canonical hcanonical
    obtain rfl : exampleText text = canonical := Option.some.inj hcanonical
    have hlength := length_le_exampleText text
    omega
  rw [hnone] at hbytes
  cases hbytes

end Fingerprints

end DeviceKeys
end WbfMatrixClient
