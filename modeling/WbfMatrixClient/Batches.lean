import WbfMatrixClient.Incoming
import WbfMatrixClient.Lib.Bytes
import WbfMatrixClient.Wire

/-!
# Answers in batches

A request that is answered by many packs, each with some items and the number of
those still to come. The data of a pack are the items one after the other, each
behind its length. The packs are handed to the caller until it has seen the last
one.

Reading JSON and the shape of a meta section come from elsewhere.
-/

namespace WbfMatrixClient

namespace device

def fetch : UInt8 := 0x01

def batch : UInt8 := 0x02

def itemsDestroy : UInt8 := 0x03

def itemsDestroyed : UInt8 := 0x07

end device

namespace invite

def fetch : UInt8 := 0x01

def batch : UInt8 := 0x02

end invite

namespace event

def recent : UInt8 := 0x01

def batch : UInt8 := 0x03

end event

/-- The largest number of 32 bits. -/
def maxU32 : Nat := 2 ^ 32 - 1

/-- A sum that stops at the largest number. -/
def saturatingAdd (a b : UInt32) : UInt32 :=
  UInt32.ofNat (min (a.toNat + b.toNat) maxU32)

theorem toNat_saturatingAdd (a b : UInt32) :
    (saturatingAdd a b).toNat = min (a.toNat + b.toNat) maxU32 := by
  rw [saturatingAdd, UInt32.toNat_ofNat', Nat.mod_eq_of_lt]
  have hmax : maxU32 < 2 ^ 32 := by decide
  omega

set_option linter.unusedVariables false in
def splitLengthPrefixed (data : List UInt8) : Except SdkError (List (List UInt8)) :=
  if hempty : data = [] then
    .ok []
  else if hshort : data.length < 4 then
    .error (.protocol ("length-prefixed data ends with " ++ toString data.length ++
      " stray byte(s)"))
  else
    let len := Bytes.ofBigEndian (data.take 4)
    let afterLen := data.drop 4
    if afterLen.length < len then
      .error (.protocol ("length prefix " ++ toString len ++ " runs past the end (" ++
        toString afterLen.length ++ " bytes left)"))
    else
      (splitLengthPrefixed (afterLen.drop len)).map fun items => afterLen.take len :: items
termination_by data.length
decreasing_by
  rw [List.length_drop, List.length_drop]
  have hpos := List.length_pos_of_ne_nil hempty
  omega

def joinLengthPrefixed (items : List (List UInt8)) : List UInt8 :=
  items.flatMap fun item => Bytes.toBigEndian 4 item.length ++ item

/-- What was split is every byte of the data. -/
theorem join_of_splitLengthPrefixed (data : List UInt8) :
    ∀ items, splitLengthPrefixed data = .ok items →
      (∀ item ∈ items, item.length < 2 ^ 32) ∧ joinLengthPrefixed items = data := by
  induction data using splitLengthPrefixed.induct with
  | case1 =>
    intro items h
    rw [splitLengthPrefixed, dif_pos rfl] at h
    cases h
    exact ⟨fun _ hitem => (by cases hitem), rfl⟩
  | case2 data hempty hshort =>
    intro items h
    rw [splitLengthPrefixed, dif_neg hempty, dif_pos hshort] at h
    cases h
  | case3 data hempty hshort len afterLen hlong =>
    intro items h
    rw [splitLengthPrefixed, dif_neg hempty, dif_neg hshort, if_pos hlong] at h
    cases h
  | case4 data hempty hshort len afterLen hlong ih =>
    intro items h
    rw [splitLengthPrefixed, dif_neg hempty, dif_neg hshort, if_neg hlong] at h
    cases hrest : splitLengthPrefixed (afterLen.drop len) with
    | error e =>
      rw [hrest] at h
      cases h
    | ok rest =>
      rw [hrest] at h
      cases h
      obtain ⟨hitems, hjoin⟩ := ih rest hrest
      have hfield : (data.take 4).length = 4 := List.length_take_of_le (Nat.le_of_not_lt hshort)
      have hitem : (afterLen.take len).length = len :=
        List.length_take_of_le (Nat.le_of_not_lt hlong)
      have hlt := Bytes.ofBigEndian_lt (data.take 4)
      have hlen := Bytes.toBigEndian_ofBigEndian (data.take 4)
      rw [hfield] at hlt hlen
      refine ⟨fun item hmem => ?_, ?_⟩
      · rcases List.mem_cons.mp hmem with rfl | hmem
        · rw [hitem]
          exact hlt
        · exact hitems item hmem
      · rw [joinLengthPrefixed, List.flatMap_cons, ← joinLengthPrefixed, hjoin, hitem, hlen,
          List.append_assoc, List.take_append_drop, List.take_append_drop]

/-- Every item takes at least the four bytes of its length. -/
theorem length_of_splitLengthPrefixed (data : List UInt8) :
    ∀ items, splitLengthPrefixed data = .ok items → 4 * items.length ≤ data.length := by
  intro items h
  rw [← (join_of_splitLengthPrefixed data items h).2]
  clear h
  induction items with
  | nil => exact Nat.zero_le _
  | cons item items ih =>
    rw [joinLengthPrefixed, List.flatMap_cons, ← joinLengthPrefixed, List.length_append,
      List.length_append, Bytes.length_toBigEndian, List.length_cons]
    omega

theorem splitLengthPrefixed_join (items : List (List UInt8))
    (hitems : ∀ item ∈ items, item.length < 2 ^ 32) :
    splitLengthPrefixed (joinLengthPrefixed items) = .ok items := by
  induction items with
  | nil =>
    rw [splitLengthPrefixed]
    exact dif_pos rfl
  | cons item items ih =>
    have hfield := Bytes.length_toBigEndian 4 item.length
    have hjoin : joinLengthPrefixed (item :: items) =
        Bytes.toBigEndian 4 item.length ++ (item ++ joinLengthPrefixed items) := by
      simp only [joinLengthPrefixed, List.flatMap_cons, List.append_assoc]
    have hlen : Bytes.ofBigEndian ((joinLengthPrefixed (item :: items)).take 4) =
        item.length := by
      rw [hjoin, List.take_left' hfield]
      exact Bytes.ofBigEndian_toBigEndian (hitems item List.mem_cons_self)
    have hlength : (joinLengthPrefixed (item :: items)).length =
        4 + (item.length + (joinLengthPrefixed items).length) := by
      rw [hjoin, List.length_append, List.length_append, hfield]
    have hne : joinLengthPrefixed (item :: items) ≠ [] := by
      rw [← List.length_pos_iff]
      omega
    rw [splitLengthPrefixed, dif_neg hne, dif_neg (by omega)]
    simp only [hlen]
    rw [hjoin, List.drop_left' hfield, if_neg (by rw [List.length_append]; omega),
      List.drop_left' rfl, List.take_left' rfl,
      ih fun item' hitem' => hitems item' (List.mem_cons_of_mem _ hitem')]
    rfl

theorem splitLengthPrefixed_eq_ok_iff (data : List UInt8) (items : List (List UInt8))
    (hitems : ∀ item ∈ items, item.length < 2 ^ 32) :
    splitLengthPrefixed data = .ok items ↔ joinLengthPrefixed items = data := by
  constructor
  · exact fun h => (join_of_splitLengthPrefixed data items h).2
  · rintro rfl
    exact splitLengthPrefixed_join items hitems

namespace Kind

/-- The name of the domain in messages. -/
def label : Kind → String
  | control => "Control"
  | stream => "Stream"
  | upload => "Upload"
  | download => "Download"
  | invite => "Invite"
  | session => "Session"
  | account => "Account"
  | room => "Room"
  | event => "Event"
  | receipt => "Receipt"
  | device => "Device"
  | keys => "Keys"

end Kind

def hexByte (byte : UInt8) : String :=
  "0x" ++ String.ofList (Bytes.toHex [byte])

/-- What one kind of answer is called. -/
structure BatchForm where
  kind : Kind
  subtype : UInt8
  expected : String
  name : String
  request : String
  order : String

/-- An error of the server, as its meta section tells it. -/
def serverError (value : List UInt8 → Except String Json) («meta» : List UInt8) : SdkError :=
  let told := (value «meta»).toOption.getD .null
  .server (((told.get "code_id").bind Json.asU64).filter fun codeId => codeId ≠ 0)
    ((told.get "expected_seq").bind Json.asU64) ((told.text "message").getD "(no message)")

/-- The pack of an answer that is expected next. -/
def expectReply (form : BatchForm) (value : List UInt8 → Except String Json)
    (request response : Pack) (expectedSeq : UInt32) : Except SdkError Pack :=
  if response.kind = .control ∧ response.subtype = control.error then
    .error (serverError value response.meta)
  else if response.kind ≠ form.kind ∨ response.subtype ≠ form.subtype ∨
      response.flags &&& flags.isResponse = 0 then
    .error (.protocol ("expected " ++ form.expected ++ " response, got kind " ++
      response.kind.label ++ " subtype " ++ hexByte response.subtype ++ " flags " ++
      hexByte response.flags))
  else if response.id ≠ request.id then
    .error (.protocol (form.name ++ " id " ++ toString response.id ++ " does not echo the " ++
      form.request ++ " id " ++ toString request.id))
  else if response.seq ≠ expectedSeq then
    .error (.protocol (form.name ++ " seq " ++ toString response.seq ++ " where " ++
      toString expectedSeq ++ " was expected" ++ form.order))
  else
    .ok response

theorem expectReply_seq {form : BatchForm} {value : List UInt8 → Except String Json}
    {request response batch : Pack} {expectedSeq : UInt32}
    (h : expectReply form value request response expectedSeq = .ok batch) :
    batch = response ∧ response.seq = expectedSeq ∧ response.id = request.id := by
  rw [expectReply] at h
  split_ifs at h with _ _ hid hseq
  cases h
  exact ⟨rfl, not_not.mp hseq, not_not.mp hid⟩

/-- The packs are handed over until the caller wants no more. What the channel says
when there are no more packs before that is its own. -/
def requestStream {σ : Type} (onPack : σ → Pack → Except SdkError (σ × Bool))
    (ending : Except SdkError Unit) : List Pack → σ → Except SdkError σ
  | [], s => ending.map fun _ => s
  | pack :: packs, s =>
      match onPack s pack with
      | .error error => .error error
      | .ok (s, true) => requestStream onPack ending packs s
      | .ok (s, false) => .ok s

/-- What is kept from pack to pack holds of the packs that were taken when the
stream ends well. -/
theorem requestStream_ok {σ : Type} {onPack : σ → Pack → Except SdkError (σ × Bool)}
    {ending : Except SdkError Unit} {all : List Pack} (inv : List Pack → σ → Prop)
    (hstep : ∀ taken s pack s' more, pack ∈ all → inv taken s → onPack s pack = .ok (s', more) → inv
      (taken ++ [pack]) s') :
    ∀ (packs taken : List Pack) (s s' : σ), (∀ pack ∈ packs, pack ∈ all) → inv taken s →
      requestStream onPack ending packs s = .ok s' →
      ∃ next rest, packs = next ++ rest ∧ inv (taken ++ next) s' := by
  intro packs
  induction packs with
  | nil =>
    intro taken s s' _ hs h
    cases ending with
    | error e => cases h
    | ok _ =>
      cases h
      refine ⟨[], [], rfl, ?_⟩
      rw [List.append_nil]
      exact hs
  | cons pack packs ih =>
    intro taken s s' hall hs h
    rw [requestStream] at h
    cases hone : onPack s pack with
    | error e =>
      rw [hone] at h
      cases h
    | ok result =>
      obtain ⟨next, more⟩ := result
      rw [hone] at h
      have hnext := hstep taken s pack next more (hall pack List.mem_cons_self) hs hone
      cases more with
      | false =>
        cases h
        exact ⟨[pack], packs, rfl, hnext⟩
      | true =>
        obtain ⟨more, rest, rfl, hmore⟩ := ih (taken ++ [pack]) next s'
          (fun other hother => hall other (List.mem_cons_of_mem _ hother)) hnext h
        refine ⟨pack :: more, rest, rfl, ?_⟩
        rw [List.append_assoc] at hmore
        exact hmore

/-- The server's features are known and name this one. -/
def requireFeature (features : Option (List String)) (name : String) : Except SdkError Unit :=
  match features with
  | none =>
      .error (.usage ("call hello() before using \x60" ++ name ++
        "\x60: the server's features are not known yet"))
  | some features =>
      if name ∈ features then .ok ()
      else .error (.usage ("this server does not advertise the \x60" ++ name ++ "\x60 feature"))

/-- Two neighbours stand in the wrong order. -/
def hasDisorder : List UInt64 → Bool
  | older :: newer :: counts => newer ≤ older || hasDisorder (newer :: counts)
  | _ => false

theorem pairwise_of_hasDisorder {counts : List UInt64} (h : hasDisorder counts = false) :
    counts.Pairwise (· < ·) := by
  rw [← List.isChain_iff_pairwise]
  induction counts with
  | nil => exact List.IsChain.nil
  | cons older counts ih =>
    cases counts with
    | nil => exact List.IsChain.singleton older
    | cons newer counts =>
      rw [hasDisorder, Bool.or_eq_false_iff, decide_eq_false_iff_not] at h
      exact List.IsChain.cons_cons (UInt64.not_le.mp h.1) (ih h.2)

theorem hasDisorder_of_pairwise {counts : List UInt64} (h : counts.Pairwise (· < ·)) :
    hasDisorder counts = false := by
  induction counts with
  | nil => rfl
  | cons older counts ih =>
    cases counts with
    | nil => rfl
    | cons newer counts =>
      obtain ⟨hall, hrest⟩ := List.pairwise_cons.mp h
      rw [hasDisorder, Bool.or_eq_false_iff, decide_eq_false_iff_not]
      exact ⟨UInt64.not_le.mpr (hall newer List.mem_cons_self), ih hrest⟩

end WbfMatrixClient
