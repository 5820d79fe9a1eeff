import WbfMatrixClient.Lib.Sealing
import WbfMatrixClient.Lib.Utf8
import WbfMatrixClient.RpcConnection

/-!
# What is sealed and what opens

What one side has sealed the other side opens, where the frame is not too large:
the reader has a limit and the writer has none. The keys of the two directions
differ, so that nothing that was sealed opens on the side that has sealed it.
-/

namespace WbfMatrixClient
namespace Rpc

def tagLen : Nat := 16

/-- How much longer a frame is than the JSON in it. -/
def PackType.overhead : PackType → Nat
  | plain => 2
  | cipher => 2 + nonceLen + tagLen

def Side.other : Side → Side
  | client => daemon
  | daemon => client

theorem RpcKeys.receivingKey_other (keys : RpcKeys) (side : Side) :
    keys.receivingKey side.other = keys.sendingKey side := by cases side <;> rfl

/-- One call of the sealing function, with the random nonce it has got. -/
structure Sealing where
  keys : RpcKeys
  side : Side
  packType : PackType
  nonce : Option (List UInt8)
  length_nonce : ∀ bytes, nonce = some bytes → bytes.length = nonceLen
  json : List UInt8

namespace Sealing

def frame (packages : RpcPackages) (sealing : Sealing) : Option (List UInt8) :=
  sealPack packages sealing.keys sealing.side sealing.packType sealing.nonce sealing.json

/-- What the cipher is asked to seal. -/
def call (sealing : Sealing) :
    Option (WbfMatrixClient.Sealing.Sealed (List UInt8) (List UInt8)) :=
  match sealing.packType, sealing.nonce with
  | .cipher, some nonce =>
      some {
        key := sealing.keys.sendingKey sealing.side
        nonce := nonce
        aad := aad
        plain := sealing.json }
  | _, _ => none

end Sealing

def RpcPackages.aead (packages : RpcPackages) :
    WbfMatrixClient.Sealing.Cipher (List UInt8) (List UInt8) where
  encrypt := packages.encrypt
  decrypt := packages.decrypt

/-- What is relied on: the ideal cipher for all that was sealed, with a tag of fixed length. -/
structure RpcPackages.Sound (packages : RpcPackages) (sealings : List Sealing) : Prop where
  ideal : packages.aead.Ideal (sealings.filterMap Sealing.call)
  length_encrypt : ∀ key nonce aad message ciphertext,
    packages.encrypt key nonce aad message = some ciphertext →
      ciphertext.length = message.length + tagLen

section Frames

variable {packages : RpcPackages} {keys : RpcKeys} {side : Side} {frame json : List UInt8}
  {packType : PackType} {sealings : List Sealing} {sealing : Sealing}

/-- What a sealing of the cipher has put into its frame. -/
theorem frame_of_cipher (hsealed : sealing.frame packages = some frame)
    (hcipher : sealing.packType = .cipher) :
    ∃ nonce ciphertext, sealing.nonce = some nonce ∧ nonce.length = nonceLen ∧
      packages.encrypt (sealing.keys.sendingKey sealing.side) nonce aad sealing.json =
        some ciphertext ∧
      frame = packVersion :: PackType.cipher.toByte :: (nonce ++ ciphertext) := by
  rw [Sealing.frame, hcipher] at hsealed
  obtain ⟨nonce, hnonce, hframe⟩ := Option.bind_eq_some_iff.mp hsealed
  obtain ⟨ciphertext, hciphertext, rfl⟩ := Option.map_eq_some_iff.mp hframe
  exact ⟨nonce, ciphertext, hnonce, sealing.length_nonce nonce hnonce, hciphertext, rfl⟩

theorem length_frame (h : packages.Sound sealings) (hsealed : sealing.frame packages = some frame) :
    frame.length = sealing.json.length + sealing.packType.overhead := by
  cases hpack : sealing.packType with
  | plain =>
    rw [Sealing.frame, hpack] at hsealed
    cases hsealed
    rfl
  | cipher =>
    obtain ⟨nonce, ciphertext, -, hnonce, hciphertext, rfl⟩ := frame_of_cipher hsealed hpack
    have hlength := h.length_encrypt _ _ _ _ _ hciphertext
    simp only [List.length_cons, List.length_append, PackType.overhead]
    omega

theorem call_mem (hmem : sealing ∈ sealings) {nonce : List UInt8}
    (hcipher : sealing.packType = .cipher) (hnonce : sealing.nonce = some nonce) :
    { key := sealing.keys.sendingKey sealing.side, nonce := nonce, aad := aad
      plain := sealing.json } ∈ sealings.filterMap Sealing.call := by
  refine List.mem_filterMap.mpr ⟨sealing, hmem, ?_⟩
  rw [Sealing.call, hcipher, hnonce]

/-- The other side reads what was sealed where the frame is not too large. -/
theorem open_other_iff (h : packages.Sound sealings) (hmem : sealing ∈ sealings)
    (hsealed : sealing.frame packages = some frame) :
    openPack packages sealing.keys sealing.side.other frame =
        .ok (sealing.packType, sealing.json) ↔
      sealing.json.length + sealing.packType.overhead ≤ maxFrameBytes := by
  rw [openPack_eq_ok_iff, HasForm, ← length_frame h hsealed]
  refine and_iff_left ?_
  cases hpack : sealing.packType with
  | plain =>
    rw [Sealing.frame, hpack] at hsealed
    cases hsealed
    exact ⟨_, rfl, rfl⟩
  | cipher =>
    obtain ⟨nonce, ciphertext, hnonce, hlength, hciphertext, rfl⟩ :=
      frame_of_cipher hsealed hpack
    refine ⟨_, rfl, ?_, ?_⟩
    · rw [List.length_append]
      omega
    · rw [List.take_left' hlength, List.drop_left' hlength, RpcKeys.receivingKey_other]
      exact (h.ideal.opens_iff _ _ _ _ _).mpr ⟨call_mem hmem hpack hnonce, hciphertext⟩

/-- The side that has sealed a frame does not read it as a ciphertext. -/
theorem not_open_same (h : packages.Sound sealings) (hmem : sealing ∈ sealings)
    (hkeys : sealing.keys.clientToDaemon ≠ sealing.keys.daemonToClient)
    (hsealed : sealing.frame packages = some frame) (json : List UInt8) :
    openPack packages sealing.keys sealing.side frame ≠ .ok (.cipher, json) := by
  intro hopen
  obtain ⟨-, data, hframe, -, hdecrypt⟩ := openPack_eq_ok_iff.mp hopen
  cases hpack : sealing.packType with
  | plain =>
    rw [Sealing.frame, hpack] at hsealed
    cases hsealed
    cases hframe
  | cipher =>
    obtain ⟨nonce, ciphertext, hnonce, hlength, hciphertext, rfl⟩ :=
      frame_of_cipher hsealed hpack
    obtain ⟨-, -, rfl⟩ := List.cons_eq_cons.mp hframe
    rw [List.take_left' hlength, List.drop_left' hlength] at hdecrypt
    obtain ⟨hlog, hsame⟩ := (h.ideal.opens_iff _ _ _ _ _).mp hdecrypt
    have hcall := h.ideal.apart _ hlog _ (call_mem hmem hpack hnonce) ciphertext hsame
      hciphertext
    have hkey := congrArg WbfMatrixClient.Sealing.Sealed.key hcall
    cases hside : sealing.side with
    | client =>
      rw [hside] at hkey
      exact hkeys hkey.symm
    | daemon =>
      rw [hside] at hkey
      exact hkeys hkey

end Frames

/-- What the daemon sends over a connection. -/
inductive Message where
  | response (answer : Response)
  | push (request : Request)
  | close (notice : Response)

namespace Message

def json (packages : RpcPackages) : Message → Except String (List UInt8)
  | response answer => packages.responseToVec answer
  | push request => packages.requestToVec request
  | close notice => packages.responseToVec notice

def packType (isEnforced : Bool) (connection : Connection) : Message → PackType
  | response _ | push _ => connection.outboundType isEnforced
  | close _ => .plain

def sealed (packages : RpcPackages) (isEnforced : Bool) (connection : Connection)
    (nonce : Option (List UInt8)) : Message → Option (List UInt8)
  | response answer => connection.sealResponse packages isEnforced nonce answer
  | push request => connection.sealPush packages isEnforced nonce request
  | close notice => connection.sealClose packages notice

/-- The sealing of a message, as it was done. -/
structure IsSealing (packages : RpcPackages) (isEnforced : Bool) (connection : Connection)
    (message : Message) (sealing : Sealing) : Prop where
  keys : sealing.keys = connection.keys
  side : sealing.side = .daemon
  packType : sealing.packType = message.packType isEnforced connection
  json : message.json packages = .ok sealing.json

theorem sealed_eq_frame {packages : RpcPackages} {isEnforced : Bool} {connection : Connection}
    {message : Message} {sealing : Sealing}
    (h : message.IsSealing packages isEnforced connection sealing) :
    message.sealed packages isEnforced connection sealing.nonce = sealing.frame packages := by
  rw [Sealing.frame, h.keys, h.side, h.packType]
  have hjson := h.json
  cases message with
  | response answer =>
    rw [Message.json] at hjson
    rw [sealed, Connection.sealResponse, hjson]
    rfl
  | push request =>
    rw [Message.json] at hjson
    rw [sealed, Connection.sealPush, hjson]
    rfl
  | close notice =>
    rw [Message.json] at hjson
    rw [sealed, Connection.sealClose, hjson]
    rfl

end Message

section Exactness

variable {packages : RpcPackages} {sealings : List Sealing}

/-- A message that a connection has sealed opens on the other side to what it is exactly where
its JSON keeps the limit of the reader. No frame opens as a ciphertext on the side that sealed it,
and only frames of the form open. -/
theorem frames_open_iff (h : packages.Sound sealings) :
    (∀ isEnforced connection (message : Message) sealing frame, sealing ∈ sealings →
      message.IsSealing packages isEnforced connection sealing →
      message.sealed packages isEnforced connection sealing.nonce = some frame →
      (openPack packages connection.keys .client frame =
          .ok (message.packType isEnforced connection, sealing.json) ↔
        sealing.json.length + (message.packType isEnforced connection).overhead ≤
          maxFrameBytes)) ∧
    (∀ sealing ∈ sealings, sealing.keys.clientToDaemon ≠ sealing.keys.daemonToClient →
      ∀ frame, sealing.frame packages = some frame →
        ∀ json, openPack packages sealing.keys sealing.side frame ≠ .ok (.cipher, json)) ∧
    ∀ keys side frame packType json,
      openPack packages keys side frame = .ok (packType, json) ↔
        HasForm packages keys side frame packType json := by
  refine ⟨fun isEnforced connection message sealing frame hmem hsealing hsealed => ?_,
    fun sealing hmem hkeys frame hsealed => not_open_same h hmem hkeys hsealed,
    fun keys side frame packType json => openPack_eq_ok_iff⟩
  rw [Message.sealed_eq_frame hsealing] at hsealed
  have hopen := open_other_iff h hmem hsealed
  rw [hsealing.keys, hsealing.side, hsealing.packType] at hopen
  exact hopen

def exampleRpcKeys : RpcKeys where
  clientToDaemon := [1]
  daemonToClient := [2]

def exampleConnection : Connection := .new exampleRpcKeys

def exampleJsonOf (response : Response) : List UInt8 :=
  Utf8.encode ("\x7b\"code\":0,\"msg\":\"".toList ++ response.msg.toList ++
    "\",\"result\":null\x7d".toList)

def exampleSealing (response : Response) : Sealing where
  keys := exampleRpcKeys
  side := .daemon
  packType := .cipher
  nonce := some (List.replicate nonceLen 5)
  length_nonce := by
    rintro _ ⟨⟩
    rfl
  json := exampleJsonOf response

def exampleCipher (sealings : List Sealing) :
    WbfMatrixClient.Sealing.Cipher (List UInt8) (List UInt8) :=
  .ofLog (fun _ _ _ plain => some (plain ++ List.replicate tagLen 0))
    (sealings.filterMap Sealing.call)

/-- Packages for answers with a text alone. -/
def examplePackages (sealings : List Sealing) : RpcPackages where
  encrypt := (exampleCipher sealings).encrypt
  decrypt := (exampleCipher sealings).decrypt
  fromSlice _ := .error "not read here"
  requestOf _ := .error "not read here"
  helloParamsOf _ := .error "not read here"
  responseToVec response := .ok (exampleJsonOf response)
  requestToVec _ := .error "not written here"
  quoted text := text
  packErrorText _ := ""
  versionsText _ := ""

theorem examplePackages_sound (response : Response) :
    (examplePackages [exampleSealing response]).Sound [exampleSealing response] where
  ideal := by
    refine WbfMatrixClient.Sealing.Cipher.ofLog_ideal fun a ha b hb _ _ _ => ?_
    obtain rfl := List.mem_singleton.mp ha
    exact (List.mem_singleton.mp hb).symm
  length_encrypt := by
    rintro key nonce aad message ciphertext ⟨⟩
    rw [List.length_append, List.length_replicate]

def shortResponse : Response := .error none 0 "ok"

theorem frames_open_of_shortResponse :
    ∃ frame, exampleConnection.sealResponse (examplePackages [exampleSealing shortResponse]) true
        (some (List.replicate nonceLen 5)) shortResponse = some frame ∧
      openPack (examplePackages [exampleSealing shortResponse]) exampleRpcKeys .client frame =
        .ok (.cipher, exampleJsonOf shortResponse) ∧
      ∀ json, openPack (examplePackages [exampleSealing shortResponse]) exampleRpcKeys .daemon
        frame ≠ .ok (.cipher, json) := by
  obtain ⟨hopen, hsame, -⟩ := frames_open_iff (examplePackages_sound shortResponse)
  have hmem := List.mem_singleton.mpr (rfl : exampleSealing shortResponse = _)
  refine ⟨_, rfl, ?_, hsame _ hmem (by decide) _ rfl⟩
  refine (hopen true exampleConnection (.response shortResponse) _ _ hmem ?_ rfl).mpr (by decide)
  exact ⟨rfl, rfl, rfl, rfl⟩

theorem length_msg_le (response : Response) :
    response.msg.toList.length ≤ (exampleJsonOf response).length := by
  have htext := Utf8.length_le_length_encode ("\x7b\"code\":0,\"msg\":\"".toList ++
    response.msg.toList ++ "\",\"result\":null\x7d".toList)
  rw [List.length_append, List.length_append] at htext
  rw [exampleJsonOf]
  omega

/-- An answer whose text alone is as long as a frame may be is sealed, and the client refuses it. -/
theorem long_response_does_not_open :
    ∃ response frame length,
      exampleConnection.sealResponse (examplePackages []) true
        (some (List.replicate nonceLen 5)) response = some frame ∧
      openPack (examplePackages []) exampleRpcKeys .client frame =
        .error (.tooLarge length) := by
  obtain ⟨msg, hmsg⟩ : ∃ msg : String, msg.toList.length = maxFrameBytes :=
    ⟨String.ofList (List.replicate maxFrameBytes 'a'), by
      rw [String.toList_ofList, List.length_replicate]⟩
  have hlength := length_msg_le (.error none 0 msg)
  refine ⟨.error none 0 msg, _, _, rfl, if_pos ?_⟩
  simp only [List.length_cons, List.length_append]
  have hsame : (Response.error none 0 msg).msg.toList.length = maxFrameBytes := hmsg
  omega

end Exactness

end Rpc
end WbfMatrixClient
