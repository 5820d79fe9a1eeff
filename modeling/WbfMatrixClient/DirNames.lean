import WbfMatrixClient.Lib.Base58
import WbfMatrixClient.Lib.Sealing
import WbfMatrixClient.Lib.Utf8
import WbfMatrixClient.TextSplits
import WbfMatrixClient.Wire

/-!
# Encrypted names of directories

The directory of a server and that of an account have names that only the key of
the vault can read. A name is the nonce and the ciphertext, and the nonce comes
from the text that is encrypted, so that a text has one name. The names of one
scope cannot be read in another.

The cipher, the keyed hash and the text form of bytes are parameters.
-/

namespace WbfMatrixClient
namespace DirNames

open AccountNames (Text splitOnce)

def separator : Char := '_'

def nonceLen : Nat := 12

def maxDirNameChars : Nat := 200

structure DirPackages where
  cipher : Sealing.Cipher (List UInt8) (List UInt8)
  keyedHash : (key input : List UInt8) → List UInt8
  base58 : Armor

/-- Where the name stands. -/
inductive DirScope where
  | server
  | account (serverHost : Text)
  | recovery
deriving DecidableEq

namespace DirScope

def aad : DirScope → List UInt8
  | server => Utf8.encode "wbf-matrix-client server dir v1".toList
  | account serverHost =>
      Utf8.encode "wbf-matrix-client account dir v1".toList ++ Utf8.encode serverHost
  | recovery => Utf8.encode "wbf-matrix-client recovery name v1".toList

/-- What the nonce is made from, its parts with a zero between them. -/
def nonceInput (scope : DirScope) (plaintext : Text) : List UInt8 :=
  let input := match scope with
    | server => Utf8.encode "wbf server-dir-nonce v1".toList
    | account serverHost =>
        Utf8.encode "wbf account-dir-nonce v1".toList ++ 0 :: Utf8.encode serverHost
    | recovery => Utf8.encode "wbf recovery-name-nonce v1".toList
  input ++ 0 :: Utf8.encode plaintext

end DirScope

section Names

variable (packages : DirPackages) (key : List UInt8)

def nonceOf (scope : DirScope) (plaintext : Text) : List UInt8 :=
  (packages.keyedHash key (scope.nonceInput plaintext)).take nonceLen

/-- The two parts of a name as they are written. -/
def nameText (nonce ciphertext : List UInt8) : Text :=
  packages.base58.encode nonce ++ separator :: packages.base58.encode ciphertext

def toDirName (scope : DirScope) (plaintext : Text) : Except SdkError Text :=
  if plaintext = [] then
    .error (.usage "cannot encode an empty directory name")
  else
    let nonce := nonceOf packages key scope plaintext
    match packages.cipher.encrypt key nonce scope.aad (Utf8.encode plaintext) with
    | none => .error (.usage "cannot encrypt this directory name")
    | some ciphertext =>
        let name := nameText packages nonce ciphertext
        if maxDirNameChars < name.length then
          .error (.usage ("the encrypted directory name would be " ++ toString name.length ++
            " characters, over the " ++ toString maxDirNameChars ++ " limit"))
        else
          .ok name

/-- What a name stands for. A name that is not the one of its text is none. -/
def findDirNamePlaintext (scope : DirScope) (dirName : Text) : Option Text :=
  match splitOnce [separator] dirName with
  | none => none
  | some (noncePart, ciphertextPart) =>
      match packages.base58.decode noncePart with
      | none => none
      | some nonce =>
          if nonce.length ≠ nonceLen then
            none
          else
            match packages.base58.decode ciphertextPart with
            | none => none
            | some ciphertext =>
                match packages.cipher.decrypt key nonce scope.aad ciphertext with
                | none => none
                | some bytes =>
                    match Utf8.decode bytes with
                    | none => none
                    | some plaintext =>
                        if nonceOf packages key scope plaintext = nonce then some plaintext
                        else none

/-- The name that a text would have if no name were too short or too long. -/
def fullName (scope : DirScope) (plaintext : Text) : Option Text :=
  (packages.cipher.encrypt key (nonceOf packages key scope plaintext) scope.aad
    (Utf8.encode plaintext)).map (nameText packages (nonceOf packages key scope plaintext))

end Names

/-- What is relied on: the cipher opens what it has sealed and nothing else, the text form is one to
one and has no separator, and the hash has its length. -/
structure DirPackages.Sound (packages : DirPackages) : Prop where
  exact : packages.cipher.Exact
  base58 : packages.base58.Lawful separator
  hash_length : ∀ key input, (packages.keyedHash key input).length = 32

section Reading

variable {packages : DirPackages} {key : List UInt8} {scope : DirScope} {plaintext name : Text}

theorem length_nonceOf (h : packages.Sound) (scope : DirScope) (plaintext : Text) :
    (nonceOf packages key scope plaintext).length = nonceLen := by
  rw [nonceOf, List.length_take, h.hash_length]
  rfl

theorem toDirName_eq_ok_iff :
    toDirName packages key scope plaintext = .ok name ↔
      fullName packages key scope plaintext = some name ∧ plaintext ≠ [] ∧
        name.length ≤ maxDirNameChars := by
  rw [toDirName, fullName]
  split_ifs with hempty
  · simp [hempty]
  · cases hsealed : packages.cipher.encrypt key (nonceOf packages key scope plaintext) scope.aad
      (Utf8.encode plaintext) with
    | none => simp [hsealed]
    | some ciphertext =>
      simp only [hsealed, Option.map_some, Option.some.injEq]
      split_ifs with hlong
      · constructor
        · exact nofun
        · rintro ⟨rfl, _, hle⟩
          omega
      · rw [Except.ok.injEq]
        constructor
        · rintro rfl
          exact ⟨rfl, hempty, by omega⟩
        · exact fun h => h.1

/-- The decoder accepts exactly the names that the encoder makes before it looks at the lengths. -/
theorem findDirNamePlaintext_eq_some_iff (h : packages.Sound) :
    findDirNamePlaintext packages key scope name = some plaintext ↔
      fullName packages key scope plaintext = some name := by
  constructor
  · intro hfind
    rw [findDirNamePlaintext] at hfind
    cases hsplit : splitOnce [separator] name with
    | none =>
      rw [hsplit] at hfind
      cases hfind
    | some parts =>
      obtain ⟨noncePart, ciphertextPart⟩ := parts
      simp only [hsplit] at hfind
      obtain ⟨rfl, -⟩ := AccountNames.splitOnce_char_eq_some_iff.mp hsplit
      cases hnonce : packages.base58.decode noncePart with
      | none =>
        rw [hnonce] at hfind
        cases hfind
      | some nonce =>
        simp only [hnonce] at hfind
        split_ifs at hfind
        cases hciphertext : packages.base58.decode ciphertextPart with
        | none =>
          rw [hciphertext] at hfind
          cases hfind
        | some ciphertext =>
          simp only [hciphertext] at hfind
          cases hplain : packages.cipher.decrypt key nonce scope.aad ciphertext with
          | none =>
            rw [hplain] at hfind
            cases hfind
          | some bytes =>
            simp only [hplain] at hfind
            cases htext : Utf8.decode bytes with
            | none =>
              rw [htext] at hfind
              cases hfind
            | some found =>
              simp only [htext] at hfind
              split_ifs at hfind with hsame
              cases hfind
              rw [fullName, hsame, Utf8.decode_eq_some_iff.mp htext,
                (h.exact _ _ _ _ _).mp hplain, Option.map_some, nameText,
                (h.base58.decode_eq_some_iff _ _).mp hnonce,
                (h.base58.decode_eq_some_iff _ _).mp hciphertext]
  · intro hname
    obtain ⟨ciphertext, hsealed, rfl⟩ := Option.map_eq_some_iff.mp hname
    rw [findDirNamePlaintext, nameText,
      AccountNames.splitOnce_char (h.base58.sep_notMem _)]
    simp only [h.base58.decode_encode, length_nonceOf h, ne_eq, not_true_eq_false, if_false,
      (h.exact _ _ _ _ _).mpr hsealed, Utf8.decode_encode, if_true]

end Reading

/-- Two places whose nonces are made from the same bytes: the zero between host and localpart can
be one that the host already has. -/
def Confused (a b : DirScope × Text) : Prop :=
  a ≠ b ∧ ∃ hostA hostB, a.1 = .account hostA ∧ b.1 = .account hostB ∧
    hostA ++ '\x00' :: a.2 = hostB ++ '\x00' :: b.2

section Nonces

variable {packages : DirPackages} {key : List UInt8}

theorem nonceInput_account (serverHost plaintext : Text) :
    (DirScope.account serverHost).nonceInput plaintext =
      Utf8.encode ("wbf account-dir-nonce v1".toList ++
        '\x00' :: (serverHost ++ '\x00' :: plaintext)) := by
  rw [DirScope.nonceInput, Utf8.encode_append, Utf8.encode_cons, Utf8.encode_append,
    Utf8.encode_cons]
  simp only [List.append_assoc, List.cons_append]
  rfl

/-- The fifth byte, which tells the scopes apart. -/
def DirScope.letter : DirScope → UInt8
  | server => 0x73
  | account _ => 0x61
  | recovery => 0x72

theorem nonceInput_get_four (scope : DirScope) (plaintext : Text) :
    (scope.nonceInput plaintext)[4]? = some scope.letter := by
  cases scope <;> rfl

theorem nonceInput_eq_iff (a b : DirScope × Text) :
    a.1.nonceInput a.2 = b.1.nonceInput b.2 ↔ a = b ∨ Confused a b := by
  obtain ⟨scopeA, plaintextA⟩ := a
  obtain ⟨scopeB, plaintextB⟩ := b
  constructor
  · intro h
    have hscope := congrArg (·[4]?) h
    simp only [nonceInput_get_four] at hscope
    by_cases heq : (scopeA, plaintextA) = (scopeB, plaintextB)
    · exact .inl heq
    · refine .inr ⟨heq, ?_⟩
      cases scopeA <;> cases scopeB <;>
        simp only [Option.some.injEq, DirScope.letter] at hscope
      case account.account hostA hostB =>
        refine ⟨hostA, hostB, rfl, rfl, ?_⟩
        rw [nonceInput_account, nonceInput_account] at h
        exact (List.cons_eq_cons.mp (List.append_cancel_left (Utf8.encode_injective h))).2
      case server.server =>
        have htext := List.cons_eq_cons.mp (List.append_cancel_left h)
        exact absurd (congrArg (Prod.mk _) (Utf8.encode_injective htext.2)) heq
      case recovery.recovery =>
        have htext := List.cons_eq_cons.mp (List.append_cancel_left h)
        exact absurd (congrArg (Prod.mk _) (Utf8.encode_injective htext.2)) heq
      all_goals exact absurd hscope (by decide)
  · rintro (heq | ⟨-, hostA, hostB, rfl, rfl, htext⟩)
    · rw [heq]
    · simp only [nonceInput_account, htext]

/-- Where the hash tells inputs apart, the nonces tell places apart that are not confused. -/
theorem nonceOf_ne_iff {used : Set (List UInt8)}
    (hused : used.InjOn fun input => (packages.keyedHash key input).take nonceLen)
    {a b : DirScope × Text} (ha : a.1.nonceInput a.2 ∈ used) (hb : b.1.nonceInput b.2 ∈ used) :
    (a ≠ b → nonceOf packages key a.1 a.2 ≠ nonceOf packages key b.1 b.2) ↔ ¬ Confused a b := by
  have hsame : nonceOf packages key a.1 a.2 = nonceOf packages key b.1 b.2 ↔
      a.1.nonceInput a.2 = b.1.nonceInput b.2 :=
    ⟨hused ha hb, fun h => by rw [nonceOf, nonceOf, h]⟩
  rw [Ne, Ne, hsame, nonceInput_eq_iff]
  constructor
  · exact fun h hconfused => h hconfused.1 (.inr hconfused)
  · rintro hnot hne (heq | hconfused)
    · exact hne heq
    · exact hnot hconfused

end Nonces

section Exactness

variable {packages : DirPackages}

/-- A text is what a name stands for exactly when the encoder makes this name, where the full
name of the text keeps the limits of the encoder. Two nonces differ where no two places are
confused. -/
theorem names_exact_iff (h : packages.Sound) (key : List UInt8) {used : Set (List UInt8)}
    (hused : used.InjOn fun input => (packages.keyedHash key input).take nonceLen) :
    (∀ scope plaintext,
      (∀ name, findDirNamePlaintext packages key scope name = some plaintext ↔
        toDirName packages key scope plaintext = .ok name) ↔
      ∀ name, fullName packages key scope plaintext = some name →
        plaintext ≠ [] ∧ name.length ≤ maxDirNameChars) ∧
    ∀ a b : DirScope × Text, a.1.nonceInput a.2 ∈ used → b.1.nonceInput b.2 ∈ used →
      ((a ≠ b → nonceOf packages key a.1 a.2 ≠ nonceOf packages key b.1 b.2) ↔
        ¬ Confused a b) := by
  refine ⟨fun scope plaintext => ?_, fun a b ha hb => nonceOf_ne_iff hused ha hb⟩
  refine forall_congr' fun name => ?_
  rw [findDirNamePlaintext_eq_some_iff h, toDirName_eq_ok_iff]
  exact ⟨fun hiff hname => (hiff.mp hname).2, fun hlimits => ⟨fun hname => ⟨hname, hlimits hname⟩,
    And.left⟩⟩

/-- Packages with the tag of a name made from its nonce and its scope. -/
def exactPackages : DirPackages where
  cipher := .tagged fun _ nonce aad => nonce ++ aad
  keyedHash _ input := (input.reverse ++ List.replicate 32 0).take 32
  base58 := Base58.armor

theorem exactPackages_sound :
    exactPackages.Sound where
  exact := Sealing.Cipher.tagged_exact _
  base58 := Base58.lawful
  hash_length key input := by
    rw [exactPackages, List.length_take, List.length_append, List.length_replicate]
    omega

def aliceAtLocalhost : DirScope × Text :=
  (.account "localhost:6167".toList, "alice".toList)

def localhostServer : DirScope × Text :=
  (.server, "localhost:6167".toList)

theorem names_exact_iff_of_localhost :
    (∀ name, findDirNamePlaintext exactPackages [7] .server name = some ['a'] ↔
      toDirName exactPackages [7] .server ['a'] = .ok name) ∧
    nonceOf exactPackages [7] aliceAtLocalhost.1 aliceAtLocalhost.2 ≠
      nonceOf exactPackages [7] localhostServer.1 localhostServer.2 := by
  have hused : Set.InjOn (fun input => (exactPackages.keyedHash [7] input).take nonceLen)
      {aliceAtLocalhost.1.nonceInput aliceAtLocalhost.2,
        localhostServer.1.nonceInput localhostServer.2} := by
    rw [Set.injOn_pair]
    intro hsame
    exact absurd hsame (by decide)
  obtain ⟨hnames, hnonces⟩ := names_exact_iff exactPackages_sound [7] hused
  refine ⟨(hnames .server ['a']).mpr fun name hname => ⟨by decide, ?_⟩,
    (hnonces aliceAtLocalhost localhostServer (.inl rfl) (.inr rfl)).mpr ?_ (by decide)⟩
  · have hlength : (fullName exactPackages [7] .server ['a']).map List.length = some 78 := by
      decide +kernel
    rw [hname, Option.map_some, Option.some.injEq] at hlength
    rw [hlength]
    decide
  · rintro ⟨-, hostA, hostB, -, hserver, -⟩
    cases hserver

/-- The decoder accepts the name of the empty text, and a zero in a host moves into the localpart
of the other host. -/
theorem empty_name_and_confused_hosts :
    (∃ name, findDirNamePlaintext exactPackages [7] .server name = some [] ∧
      toDirName exactPackages [7] .server [] ≠ .ok name) ∧
    nonceOf exactPackages [7] (.account ['a', '\x00', 'b']) ['c'] =
      nonceOf exactPackages [7] (.account ['a']) ['b', '\x00', 'c'] := by
  exact ⟨⟨_, (findDirNamePlaintext_eq_some_iff exactPackages_sound).mpr rfl, nofun⟩, rfl⟩

end Exactness

end DirNames
end WbfMatrixClient
