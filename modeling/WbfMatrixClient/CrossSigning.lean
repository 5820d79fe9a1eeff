import WbfMatrixClient.Incoming
import WbfMatrixClient.Wire
import WbfMatrixClient.Lib.Runs

/-!
# Setting up cross-signing

The first device of an account makes its identity and sends the keys of the device, the public keys
and the signatures, one after the other. When the next call looks at what is there, it looks at two
things only: the private keys that the device has, and the identity on the server. A call that has
got the public keys to the server, and not its signatures, is not taken up again.
-/

namespace WbfMatrixClient
namespace CrossSigning

inductive CrossSigningOutcome where
  | alreadySetUp
  | created
  | ownedElsewhere

/-- How a request ends: with a reply, or with an error, after the server has done what it was asked
or without. -/
inductive Reply (α : Type) where
  | ok (value : α)
  | refused (error : SdkError)
  | lost (error : SdkError)

def Reply.isApplied {α : Type} : Reply α → Bool
  | refused _ => false
  | _ => true

/-- The public keys of an identity. -/
structure SigningKeys where
  masterKey : Option Json
  selfSigningKey : Option Json
  userSigningKey : Option Json

def SigningKeys.body (keys : SigningKeys) : Json :=
  .object ([("master_key", keys.masterKey), ("self_signing_key", keys.selfSigningKey),
    ("user_signing_key", keys.userSigningKey)].filterMap fun (name, key) =>
      key.map fun key => (name, key))

/-- What belongs to private keys, and the text of a JSON value. -/
structure SigningPackages (K : Type) where
  publicKeys : K → SigningKeys
  text : Json → String

section Devices

variable {K : Type}

structure Server (K : Type) where
  /-- The public keys as they were uploaded. -/
  identity : Option Json
  /-- The private keys whose signatures over their public keys and over the device are taken. -/
  signed : List K

/-- The crypto store of the device, and the server. -/
structure Device (K : Type) where
  privateIdentity : Option K
  isDeviceShared : Bool
  isIdentityShared : Bool
  server : Server K

/-- How the steps of one call end, and which private keys are made if there are none. -/
structure Call (K : Type) where
  refresh : Except SdkError Unit
  /-- The keys of the device are among what has been sent. -/
  sharesDevice : Bool
  identity : Except SdkError Unit
  fresh : K
  bootstrap : Except String Unit
  /-- What a bootstrap has made is saved even if it fails. -/
  isSaved : Bool
  deviceKeys : Reply Unit
  signingKeys : Reply Unit
  markSent : Except String Unit
  signatures : Reply Json
  signaturesRead : Except SdkError Unit

/-- Nothing is listed under `failures`. -/
def isWithoutFailures (reply : Json) : Bool :=
  match (reply.get "failures").getD .null with
  | .object users => users.isEmpty
  | .null => true
  | _ => false

def sendDeviceKeys (call : Call K) (d : Device K) : Device K × Except SdkError Unit :=
  if d.isDeviceShared then (d, .ok ())
  else
    match call.deviceKeys with
    | .ok () => ({ d with isDeviceShared := true }, .ok ())
    | .refused error => (d, .error error)
    | .lost error => (d, .error error)

def sendSigningKeys (packages : SigningPackages K) (identity : K) (call : Call K) (d : Device K) :
    Device K × Except SdkError Unit :=
  let held := { d with
    server := { d.server with identity := some (packages.publicKeys identity).body } }
  match call.signingKeys with
  | .refused error => (d, .error error)
  | .lost error => (held, .error error)
  | .ok () =>
      match call.markSent with
      | .error error => (held, .error (.protocol ("crypto: " ++ error)))
      | .ok () => ({ held with isIdentityShared := true }, .ok ())

def sendSignatureUpload (packages : SigningPackages K) (identity : K) (call : Call K)
    (d : Device K) : Device K × Except SdkError Unit :=
  let taken := { d with server := { d.server with signed := identity :: d.server.signed } }
  match call.signatures with
  | .refused error => (d, .error error)
  | .lost error => (taken, .error error)
  | .ok reply =>
      if isWithoutFailures reply then (taken, call.signaturesRead)
      else
        (d, .error (.server none none ("the server did not accept some signatures: " ++
          packages.text ((reply.get "failures").getD .null))))

/-- The three uploads in their order. -/
def uploadNewIdentity (packages : SigningPackages K) (call : Call K) (d : Device K) :
    Device K × Except SdkError Unit :=
  let identity := d.privateIdentity.getD call.fresh
  match call.bootstrap with
  | .error error =>
      ({ d with privateIdentity := if call.isSaved then some identity else d.privateIdentity },
        .error (.protocol ("cross-signing bootstrap: " ++ error)))
  | .ok () =>
      match sendDeviceKeys call { d with privateIdentity := some identity } with
      | (d, .error error) => (d, .error error)
      | (d, .ok ()) =>
          match sendSigningKeys packages identity call d with
          | (d, .error error) => (d, .error error)
          | (d, .ok ()) => sendSignatureUpload packages identity call d

def ensureCrossSigning (packages : SigningPackages K) (d : Device K) (call : Call K) :
    Device K × Except SdkError CrossSigningOutcome :=
  let d := { d with isDeviceShared := d.isDeviceShared || call.sharesDevice }
  match call.refresh, call.identity with
  | .error error, _ => (d, .error error)
  | .ok (), .error error => (d, .error error)
  | .ok (), .ok () =>
      let hasPrivateMaster := d.privateIdentity.isSome
      let isOnServer := d.server.identity.isSome
      match hasPrivateMaster, isOnServer with
      | true, true => (d, .ok .alreadySetUp)
      | false, true => (d, .ok .ownedElsewhere)
      | _, false =>
          match uploadNewIdentity packages call d with
          | (d, .error error) => (d, .error error)
          | (d, .ok ()) => (d, .ok .created)

/-- A new device of an account, which may have an identity of another device. -/
def Device.start (onServer : Option Json) : Device K where
  privateIdentity := none
  isDeviceShared := false
  isIdentityShared := false
  server := { identity := onServer, signed := [] }

/-- The call says that cross-signing is set up. -/
def SaysSetUp (result : Except SdkError CrossSigningOutcome) : Prop :=
  result = .ok .alreadySetUp ∨ result = .ok .created

/-- The server has these three public keys. -/
def HoldsKeys (server : Server K) (keys : SigningKeys) : Prop :=
  ∃ body, server.identity = some body ∧ body.get "master_key" = keys.masterKey ∧
    body.get "self_signing_key" = keys.selfSigningKey ∧
      body.get "user_signing_key" = keys.userSigningKey

/-- The server has the public keys of what the device has, and their signatures. -/
def IsSetUp (packages : SigningPackages K) (d : Device K) : Prop :=
  ∃ identity, d.privateIdentity = some identity ∧
    HoldsKeys d.server (packages.publicKeys identity) ∧ identity ∈ d.server.signed

/-- The call gets as far as the public keys, and the server takes them. -/
def TakesKeys (d : Device K) (call : Call K) : Prop :=
  call.refresh = .ok () ∧ call.identity = .ok () ∧ d.server.identity = none ∧
    call.bootstrap = .ok () ∧
      (d.isDeviceShared = true ∨ call.sharesDevice = true ∨ call.deviceKeys = .ok ()) ∧
        call.signingKeys.isApplied = true

/-- Nothing goes wrong between the public keys and the signatures, and the server takes these. -/
def TakesSignatures (call : Call K) : Prop :=
  call.signingKeys = .ok () ∧ call.markSent = .ok () ∧ call.signatures.isApplied = true ∧
    ∀ reply, call.signatures = .ok reply → isWithoutFailures reply = true

/-- The public keys never come to the server without their signatures. -/
def SignsWhatItTakes (d : Device K) (call : Call K) : Prop :=
  TakesKeys d call → TakesSignatures call

theorem holdsKeys_of_body {server : Server K} {keys : SigningKeys}
    (h : server.identity = some keys.body) : HoldsKeys server keys := by
  refine ⟨keys.body, h, ?_⟩
  obtain ⟨masterKey, selfSigningKey, userSigningKey⟩ := keys
  cases masterKey <;> cases selfSigningKey <;> cases userSigningKey <;> exact ⟨rfl, rfl, rfl⟩

end Devices

section Calls

variable {K : Type} (packages : SigningPackages K) {d : Device K} {call : Call K}

/-- Which private keys a call works with. -/
def identityOf (d : Device K) (call : Call K) : K :=
  d.privateIdentity.getD call.fresh

/-- What the upload of the device's keys leaves. -/
theorem sendDeviceKeys_cases (call : Call K) (d : Device K) :
    (sendDeviceKeys call d).1.privateIdentity = d.privateIdentity ∧
      (sendDeviceKeys call d).1.server = d.server ∧
        ((sendDeviceKeys call d).2 = .ok () ↔
          d.isDeviceShared = true ∨ call.deviceKeys = .ok ()) := by
  unfold sendDeviceKeys
  by_cases hshared : d.isDeviceShared = true
  · rw [if_pos hshared]
    exact ⟨rfl, rfl, iff_of_true rfl (.inl hshared)⟩
  · rw [if_neg hshared]
    cases call.deviceKeys with
    | ok _ => exact ⟨rfl, rfl, iff_of_true rfl (.inr rfl)⟩
    | refused error | lost error =>
      refine ⟨rfl, rfl, iff_of_false (fun h => (by cases h)) ?_⟩
      rintro (h | h)
      · exact hshared h
      · cases h

/-- The server is asked to take the public keys, and then the signatures. -/
theorem sendSigningKeys_cases (identity : K) (call : Call K) (d : Device K) :
    let after := sendSigningKeys packages identity call d
    after.1.privateIdentity = d.privateIdentity ∧
      (call.signingKeys.isApplied = false → after.1.server = d.server) ∧
        (call.signingKeys.isApplied = true → after.1.server =
          { d.server with identity := some (packages.publicKeys identity).body }) ∧
          (after.2 = .ok () ↔ call.signingKeys = .ok () ∧ call.markSent = .ok ()) := by
  unfold sendSigningKeys
  cases hkeys : call.signingKeys with
  | refused error =>
    refine ⟨rfl, fun _ => rfl, fun h => (by cases h), iff_of_false (fun h => (by cases h)) ?_⟩
    exact fun h => (by cases h.1)
  | lost error =>
    refine ⟨rfl, fun h => (by cases h), fun _ => rfl, iff_of_false (fun h => (by cases h)) ?_⟩
    exact fun h => (by cases h.1)
  | ok _ =>
    dsimp only
    cases hsent : call.markSent with
    | error error =>
      refine ⟨rfl, fun h => (by cases h), fun _ => rfl,
        iff_of_false (fun h => (by cases h)) ?_⟩
      exact fun h => (by cases h.2)
    | ok _ => exact ⟨rfl, fun h => (by cases h), fun _ => rfl, iff_of_true rfl ⟨rfl, rfl⟩⟩

theorem sendSignatureUpload_cases (identity : K) (call : Call K) (d : Device K) :
    let isTaken := call.signatures.isApplied = true ∧
      ∀ reply, call.signatures = .ok reply → isWithoutFailures reply = true
    let after := sendSignatureUpload packages identity call d
    after.1.privateIdentity = d.privateIdentity ∧
      after.1.server.identity = d.server.identity ∧
        (isTaken → after.1.server.signed = identity :: d.server.signed) ∧
          (¬isTaken → after.1.server.signed = d.server.signed) ∧
            (after.2 = .ok () → isTaken) := by
  unfold sendSignatureUpload
  cases hreply : call.signatures with
  | refused error => exact ⟨rfl, rfl, fun h => (by cases h.1), fun _ => rfl, fun h => (by cases h)⟩
  | lost error =>
    refine ⟨rfl, rfl, fun _ => rfl, fun h => absurd ⟨rfl, ?_⟩ h, fun h => (by cases h)⟩
    exact fun reply h => (by cases h)
  | ok reply =>
    dsimp only
    by_cases hfailures : isWithoutFailures reply = true
    · rw [if_pos hfailures]
      have htaken : Reply.isApplied (.ok reply) = true ∧
          ∀ other, Reply.ok reply = .ok other → isWithoutFailures other = true := by
        refine ⟨rfl, fun other h => ?_⟩
        cases h
        exact hfailures
      exact ⟨rfl, rfl, fun _ => rfl, fun h => absurd htaken h, fun _ => htaken⟩
    · rw [if_neg hfailures]
      exact ⟨rfl, rfl, fun h => absurd (h.2 reply rfl) hfailures, fun _ => rfl,
        fun h => (by cases h)⟩

/-- An upload that does not get the public keys to the server fails and leaves the server. -/
theorem uploadNewIdentity_of_untaken (d : Device K) (call : Call K)
    (h : ¬(call.bootstrap = .ok () ∧ (d.isDeviceShared = true ∨ call.deviceKeys = .ok ()) ∧
      call.signingKeys.isApplied = true)) :
    (uploadNewIdentity packages call d).1.server = d.server ∧
      (uploadNewIdentity packages call d).2 ≠ .ok () := by
  unfold uploadNewIdentity
  cases hbootstrap : call.bootstrap with
  | error error => exact ⟨rfl, fun h => (by cases h)⟩
  | ok _ =>
    dsimp only
    obtain ⟨-, hserver, hok⟩ :=
      sendDeviceKeys_cases call { d with privateIdentity := some (identityOf d call) }
    unfold identityOf at hserver hok
    split
    · rename_i after error hsent
      rw [hsent] at hserver
      exact ⟨hserver, fun h => (by cases h)⟩
    · rename_i after hsent
      rw [hsent] at hserver hok
      have hdevice := hok.mp rfl
      have hkeys : call.signingKeys.isApplied = false :=
        Bool.eq_false_iff.mpr fun hkeys => h ⟨hbootstrap, hdevice, hkeys⟩
      obtain ⟨-, hrefused, -, hfull⟩ := sendSigningKeys_cases packages
        (d.privateIdentity.getD call.fresh) call after
      have hleft := (hrefused hkeys).trans hserver
      split
      · rename_i last error hlast
        rw [hlast] at hleft
        exact ⟨hleft, fun h => (by cases h)⟩
      · rename_i last hlast
        rw [hlast] at hfull
        rw [(hfull.mp rfl).1] at hkeys
        cases hkeys

/-- An upload that gets the public keys to the server. -/
theorem uploadNewIdentity_of_taken (d : Device K) (call : Call K)
    (hbootstrap : call.bootstrap = .ok ())
    (hdevice : d.isDeviceShared = true ∨ call.deviceKeys = .ok ())
    (hkeys : call.signingKeys.isApplied = true) :
    let after := uploadNewIdentity packages call d
    after.1.privateIdentity = some (identityOf d call) ∧
      after.1.server.identity = some (packages.publicKeys (identityOf d call)).body ∧
        (TakesSignatures call → after.1.server.signed = identityOf d call :: d.server.signed) ∧
          (¬TakesSignatures call → after.1.server.signed = d.server.signed) ∧
            (after.2 = .ok () → TakesSignatures call) := by
  unfold uploadNewIdentity identityOf
  simp only [hbootstrap]
  obtain ⟨hprivate, hserver, hok⟩ :=
    sendDeviceKeys_cases call { d with privateIdentity := some (d.privateIdentity.getD call.fresh) }
  have hshared := hok.mpr hdevice
  split
  · rename_i error hsent
    rw [hsent] at hshared
    cases hshared
  · rename_i first hsent
    rw [hsent] at hprivate hserver
    obtain ⟨hsame, -, htaken, hfull⟩ := sendSigningKeys_cases packages
      (d.privateIdentity.getD call.fresh) call first
    replace htaken := htaken hkeys
    replace hsame := hsame.trans hprivate
    rw [hserver] at htaken
    split
    · rename_i second error hsecond
      rw [hsecond] at htaken hsame hfull
      have hnot : ¬TakesSignatures call := by
        rintro ⟨hfirst, hsent, -⟩
        cases hfull.mpr ⟨hfirst, hsent⟩
      refine ⟨hsame, ?_, fun h => absurd h hnot, fun _ => ?_, fun h => (by cases h)⟩
      · rw [htaken]
      · rw [htaken]
    · rename_i second hsecond
      rw [hsecond] at htaken hsame hfull
      obtain ⟨hfirst, hsent⟩ := hfull.mp rfl
      obtain ⟨hlast, hidentity, hsigned, hunsigned, hdone⟩ :=
        sendSignatureUpload_cases packages
          (d.privateIdentity.getD call.fresh) call second
      rw [htaken] at hidentity hsigned hunsigned
      refine ⟨hlast.trans hsame, hidentity, fun h => hsigned h.2.2, fun h => hunsigned ?_,
        fun h => ⟨hfirst, hsent, hdone h⟩⟩
      exact fun htaken => h ⟨hfirst, hsent, htaken⟩

/-- A call that does not get the public keys to the server leaves the server. It says that all is
set up only when the device and the server both have an identity. -/
theorem ensureCrossSigning_of_untaken (h : ¬TakesKeys d call) :
    let after := ensureCrossSigning packages d call
    after.1.server = d.server ∧
      (after.1.privateIdentity = d.privateIdentity ∨ d.server.identity = none) ∧
        (SaysSetUp after.2 → after.1.privateIdentity = d.privateIdentity ∧
          d.privateIdentity.isSome = true ∧ d.server.identity.isSome = true) := by
  unfold ensureCrossSigning
  cases hrefresh : call.refresh with
  | error error =>
    refine ⟨rfl, .inl rfl, ?_⟩
    rintro (h | h) <;> cases h
  | ok _ =>
    cases hidentity : call.identity with
    | error error =>
      refine ⟨rfl, .inl rfl, ?_⟩
      rintro (h | h) <;> cases h
    | ok _ =>
      dsimp only
      cases hserver : d.server.identity with
      | some body =>
        cases hprivate : d.privateIdentity with
        | some identity => exact ⟨rfl, .inl rfl, fun _ => ⟨rfl, rfl, rfl⟩⟩
        | none =>
          refine ⟨rfl, .inl rfl, ?_⟩
          rintro (h | h) <;> cases h
      | none =>
        have huntaken : ¬(call.bootstrap = .ok () ∧
            ((d.isDeviceShared || call.sharesDevice) = true ∨ call.deviceKeys = .ok ()) ∧
              call.signingKeys.isApplied = true) := by
          rintro ⟨hbootstrap, hdevice, hkeys⟩
          rw [Bool.or_eq_true, or_assoc] at hdevice
          exact h ⟨hrefresh, hidentity, hserver, hbootstrap, hdevice, hkeys⟩
        obtain ⟨hleft, hfailed⟩ := uploadNewIdentity_of_untaken packages
          { d with isDeviceShared := d.isDeviceShared || call.sharesDevice } call huntaken
        simp only [Option.isSome_none]
        split
        · rename_i after error hupload
          rw [hupload] at hleft
          refine ⟨hleft, .inr trivial, ?_⟩
          rintro (h | h) <;> cases h
        · rename_i after hupload
          rw [hupload] at hfailed
          exact absurd rfl hfailed

theorem ensureCrossSigning_of_taken (h : TakesKeys d call) :
    let after := ensureCrossSigning packages d call
    after.1.privateIdentity = some (identityOf d call) ∧
      after.1.server.identity = some (packages.publicKeys (identityOf d call)).body ∧
        (TakesSignatures call → after.1.server.signed = identityOf d call :: d.server.signed) ∧
          (¬TakesSignatures call → after.1.server.signed = d.server.signed) ∧
            (SaysSetUp after.2 → TakesSignatures call) := by
  obtain ⟨hrefresh, hidentity, hserver, hbootstrap, hdevice, hkeys⟩ := h
  rw [← or_assoc, ← Bool.or_eq_true] at hdevice
  have hupload := uploadNewIdentity_of_taken packages
    { d with isDeviceShared := d.isDeviceShared || call.sharesDevice } call hbootstrap hdevice hkeys
  unfold ensureCrossSigning
  simp only [hrefresh, hidentity, hserver, Option.isSome_none]
  dsimp only at hupload
  split
  · rename_i after error hafter
    rw [hafter] at hupload
    obtain ⟨hprivate, hbody, hsigned, hunsigned, -⟩ := hupload
    refine ⟨hprivate, hbody, hsigned, hunsigned, ?_⟩
    rintro (h | h) <;> cases h
  · rename_i after hafter
    rw [hafter] at hupload
    obtain ⟨hprivate, hbody, hsigned, hunsigned, hdone⟩ := hupload
    exact ⟨hprivate, hbody, hsigned, hunsigned, fun _ => hdone rfl⟩

end Calls

section Runs

variable {K : Type} {packages : SigningPackages K} {d : Device K}

/-- What holds whatever has failed: the server has no signatures before it has public keys, and these
are the ones that belong to the private keys of the device. -/
structure KeysAgree (packages : SigningPackages K) (d : Device K) : Prop where
  unsigned : d.server.identity = none → d.server.signed = []
  own : ∀ identity, d.privateIdentity = some identity → d.server.identity.isSome = true →
    d.server.identity = some (packages.publicKeys identity).body

/-- The public keys on the server are signed, if they are the device's. -/
def IsSigned (d : Device K) : Prop :=
  ∀ identity, d.privateIdentity = some identity → d.server.identity.isSome = true →
    identity ∈ d.server.signed

theorem KeysAgree.step (h : KeysAgree packages d) (call : Call K) :
    KeysAgree packages (ensureCrossSigning packages d call).1 := by
  by_cases htakes : TakesKeys d call
  · obtain ⟨hprivate, hbody, -⟩ := ensureCrossSigning_of_taken packages htakes
    refine ⟨fun hnone => ?_, fun identity hidentity _ => ?_⟩
    · rw [hbody] at hnone
      cases hnone
    · rw [hprivate] at hidentity
      cases hidentity
      exact hbody
  · obtain ⟨hserver, hprivate, -⟩ := ensureCrossSigning_of_untaken packages htakes
    refine ⟨fun hnone => ?_, fun identity hidentity hsome => ?_⟩
    · rw [hserver] at hnone ⊢
      exact h.unsigned hnone
    · rw [hserver] at hsome ⊢
      rcases hprivate with hsame | hnone
      · exact h.own identity (hsame.symm.trans hidentity) hsome
      · rw [hnone] at hsome
        cases hsome

variable {call : Call K}

/-- Without a call that leaves the public keys unsigned, they are signed. -/
theorem IsSigned.step (h : IsSigned d) (hcall : SignsWhatItTakes d call) :
    IsSigned (ensureCrossSigning packages d call).1 := by
  intro identity hidentity hsome
  by_cases htakes : TakesKeys d call
  · obtain ⟨hprivate, -, hsigned, -⟩ := ensureCrossSigning_of_taken packages htakes
    rw [hprivate] at hidentity
    cases hidentity
    rw [hsigned (hcall htakes)]
    exact List.mem_cons_self
  · obtain ⟨hserver, hprivate, -⟩ := ensureCrossSigning_of_untaken packages htakes
    rw [hserver] at hsome ⊢
    rcases hprivate with hsame | hnone
    · exact h identity (hsame.symm.trans hidentity) hsome
    · rw [hnone] at hsome
      cases hsome

/-- What a call says is true where the public keys are signed. -/
theorem isSetUp_of_saysSetUp (hagree : KeysAgree packages d) (hsigned : IsSigned d)
    (hclaim : SaysSetUp (ensureCrossSigning packages d call).2) :
    IsSetUp packages (ensureCrossSigning packages d call).1 := by
  by_cases htakes : TakesKeys d call
  · obtain ⟨hprivate, hbody, htaken, -, hdone⟩ :=
      ensureCrossSigning_of_taken packages htakes
    refine ⟨identityOf d call, hprivate, holdsKeys_of_body hbody, ?_⟩
    rw [htaken (hdone hclaim)]
    exact List.mem_cons_self
  · obtain ⟨hserver, -, hboth⟩ := ensureCrossSigning_of_untaken packages htakes
    obtain ⟨hsame, hprivate, hidentity⟩ := hboth hclaim
    obtain ⟨identity, hprivate⟩ := Option.isSome_iff_exists.mp hprivate
    refine ⟨identity, hsame.trans hprivate, ?_, ?_⟩
    · rw [hserver]
      exact holdsKeys_of_body (hagree.own identity hprivate hidentity)
    · rw [hserver]
      exact hsigned identity hprivate hidentity

/-- After a call that leaves the public keys unsigned, the next one that can look says that all is
set up. -/
theorem says_of_unsigned (hagree : KeysAgree packages d) (hcall : ¬SignsWhatItTakes d call) :
    let left := (ensureCrossSigning packages d call).1
    let next := { call with refresh := .ok (), identity := .ok () }
    SaysSetUp (ensureCrossSigning packages left next).2 ∧
      ¬IsSetUp packages (ensureCrossSigning packages left next).1 := by
  intro left next
  obtain ⟨htakes, hunsigned⟩ := Classical.not_imp.mp hcall
  obtain ⟨hprivate, hbody, -, hleft, -⟩ := ensureCrossSigning_of_taken packages htakes
  have hnothing : left.server.signed = [] :=
    (hleft hunsigned).trans (hagree.unsigned htakes.2.2.1)
  have hnext : ensureCrossSigning packages left next =
      ({ left with isDeviceShared := left.isDeviceShared || call.sharesDevice },
        .ok .alreadySetUp) := by
    unfold ensureCrossSigning
    simp only [next, left, hprivate, hbody, Option.isSome_some]
  rw [hnext]
  refine ⟨.inl rfl, ?_⟩
  rintro ⟨identity, -, -, hmem⟩
  rw [hnothing] at hmem
  cases hmem

/-- Every call after a part of the run tells the truth in saying that cross-signing is set up. -/
def TellsTruth (packages : SigningPackages K) (d : Device K) (calls : List (Call K)) : Prop :=
  ∀ earlier, earlier <+: calls → ∀ call,
    let reached := Runs.run (fun d call => (ensureCrossSigning packages d call).1) d earlier
    SaysSetUp (ensureCrossSigning packages reached call).2 →
      IsSetUp packages (ensureCrossSigning packages reached call).1

theorem tellsTruth_cons (hagree : KeysAgree packages d) (hsigned : IsSigned d) (call : Call K)
    (calls : List (Call K)) :
    TellsTruth packages d (call :: calls) ↔
      TellsTruth packages (ensureCrossSigning packages d call).1 calls := by
  constructor
  · intro h earlier hearlier
    exact h (call :: earlier) (List.cons_prefix_cons.mpr ⟨rfl, hearlier⟩)
  · intro h earlier hearlier
    rcases List.prefix_cons_iff.mp hearlier with rfl | ⟨rest, rfl, hrest⟩
    · exact fun call hclaim => isSetUp_of_saysSetUp hagree hsigned hclaim
    · exact h rest hrest

theorem tellsTruth_iff_along (hagree : KeysAgree packages d) (hsigned : IsSigned d)
    (calls : List (Call K)) :
    TellsTruth packages d calls ↔
      Runs.Along (fun d call => (ensureCrossSigning packages d call).1) SignsWhatItTakes d
        calls := by
  induction calls generalizing d with
  | nil =>
    refine iff_of_true (fun earlier hearlier call hclaim => ?_) trivial
    obtain rfl := List.prefix_nil.mp hearlier
    exact isSetUp_of_saysSetUp hagree hsigned hclaim
  | cons call calls ih =>
    by_cases hcall : SignsWhatItTakes d call
    · rw [tellsTruth_cons hagree hsigned, ih (hagree.step call) (hsigned.step hcall)]
      exact ⟨fun h => ⟨hcall, h⟩, fun h => h.2⟩
    · obtain ⟨hclaim, hnot⟩ := says_of_unsigned hagree hcall
      refine iff_of_false (fun h => hnot ?_) (fun h => hcall h.1)
      exact h [call] (List.cons_prefix_cons.mpr ⟨rfl, List.nil_prefix⟩) _ hclaim

/-- In every run of calls of one device, and after it, a call tells the truth in saying that
cross-signing is set up, if and only if no call of the run has got the public keys to the server
without their signatures. -/
theorem set_up_complete_iff (packages : SigningPackages K) (onServer : Option Json)
    (calls : List (Call K)) :
    TellsTruth packages (.start onServer) calls ↔
      Runs.Along (fun d call => (ensureCrossSigning packages d call).1) SignsWhatItTakes
        (.start onServer) calls := by
  have hagree : KeysAgree packages (.start onServer) :=
    ⟨fun _ => rfl, fun _ h => (by cases h)⟩
  exact tellsTruth_iff_along hagree (fun _ h => (by cases h)) calls

/-- Whatever was called and whatever failed, the public keys on the server are those of the device,
if both have keys, and before there are public keys nothing is signed. -/
theorem server_keys_agree (packages : SigningPackages K) (onServer : Option Json)
    (calls : List (Call K)) :
    KeysAgree packages
      (Runs.run (fun d call => (ensureCrossSigning packages d call).1) (.start onServer) calls) :=
  Runs.run_invariant (KeysAgree packages) (fun _ call h => h.step call) calls _
    ⟨fun _ => rfl, fun _ h => (by cases h)⟩

end Runs

section Examples

/-- The public keys of one text. -/
def plainSigning : SigningPackages String where
  publicKeys key :=
    { masterKey := some (.string (key ++ " master")),
      selfSigningKey := some (.string (key ++ " self")),
      userSigningKey := some (.string (key ++ " user")) }
  text _ := "failures"

/-- A call whose signatures end like this, while the rest is answered. -/
def callWith (signatures : Reply Json) : Call String where
  refresh := .ok ()
  sharesDevice := true
  identity := .ok ()
  fresh := "A"
  bootstrap := .ok ()
  isSaved := true
  deviceKeys := .ok ()
  signingKeys := .ok ()
  markSent := .ok ()
  signatures := signatures
  signaturesRead := .ok ()

/-- The server takes the public keys and refuses the signatures. The next call finds nothing left to
do. -/
theorem set_up_incomplete :
    ¬TellsTruth plainSigning (.start none)
      [callWith (.refused (.network "the connection is closed"))] := by
  intro h
  obtain ⟨identity, -, -, hmem⟩ := h _ (List.prefix_refl _)
    (callWith (.ok (.object []))) (.inl rfl)
  cases hmem

end Examples

end CrossSigning
end WbfMatrixClient
