import WbfMatrixClient.Incoming
import WbfMatrixClient.Lib.Runs

/-!
# A connection to the daemon

A frame says in its second byte whether it is plaintext or a ciphertext. A connection opens what
comes in, takes a hello before anything else, and decides in which form an answer goes out. Whether
plaintext is refused is one flag of the whole daemon, which each call reads once.

The cipher and the reading and writing of JSON are parameters.
-/

namespace WbfMatrixClient
namespace Rpc

def packVersion : UInt8 := 0x01

def maxFrameBytes : Nat := 1024 * 1024

def nonceLen : Nat := 24

/-- The bytes of "wbf-rpc v1". -/
def aad : List UInt8 :=
  [0x77, 0x62, 0x66, 0x2d, 0x72, 0x70, 0x63, 0x20, 0x76, 0x31]

inductive PackType where
  | plain
  | cipher
deriving DecidableEq

namespace PackType

def toByte : PackType → UInt8
  | plain => 0x01
  | cipher => 0x02

/-- What is not known is refused. -/
def fromByte (byte : UInt8) : Option PackType :=
  if byte = 0x01 then some plain else if byte = 0x02 then some cipher else none

theorem fromByte_toByte (packType : PackType) : fromByte packType.toByte = some packType := by
  cases packType <;> rfl

end PackType

inductive PackError where
  | tooShort
  | unknownVersion (version : UInt8)
  | unknownType (type : UInt8)
  | tooLarge (length : Nat)
  | cannotDecrypt

inductive Side where
  | client
  | daemon

/-- One key for each direction. -/
structure RpcKeys where
  clientToDaemon : List UInt8
  daemonToClient : List UInt8

namespace RpcKeys

def sendingKey (keys : RpcKeys) : Side → List UInt8
  | .client => keys.clientToDaemon
  | .daemon => keys.daemonToClient

def receivingKey (keys : RpcKeys) : Side → List UInt8
  | .client => keys.daemonToClient
  | .daemon => keys.clientToDaemon

end RpcKeys

structure Request where
  method : String
  params : Json
  id : Option Nat

/-- Where an answer has been looked up. -/
inductive SyncMode where
  | local_
  | server
  | both

structure Response where
  code : Nat
  msg : String
  result : Json
  id : Option Nat
  sync : Option SyncMode
  data : Option Json

def badRequest : Nat := 100

inductive CloseReason where
  | badToken
  | badFrame
  | helloRequired
  | badClient
  | protocolMismatch
  | shuttingDown

namespace CloseReason

def code : CloseReason → Nat
  | badToken => 9001
  | badFrame => 9002
  | helloRequired => 9003
  | badClient => 9004
  | protocolMismatch => 9005
  | shuttingDown => 9006

def name : CloseReason → String
  | badToken => "BAD_TOKEN"
  | badFrame => "BAD_FRAME"
  | helloRequired => "HELLO_REQUIRED"
  | badClient => "BAD_CLIENT"
  | protocolMismatch => "PROTOCOL_MISMATCH"
  | shuttingDown => "SHUTTING_DOWN"

end CloseReason

namespace Response

def error (id : Option Nat) (code : Nat) (msg : String) : Response :=
  { code := code, msg := msg, result := .null, id := id, sync := none, data := none }

def close (id : Option Nat) (reason : CloseReason) (msg : String) : Response :=
  { code := reason.code, msg := msg, result := .object [("close", .string reason.name)], id := id,
    sync := none, data := none }

end Response

structure HelloParams where
  protocols : List Nat
  client : String

def currentProtocol : Nat := 2

def supportedProtocols : List Nat := [currentProtocol]

def clientNamePrefix : String := "wbf-matrix"

/-- The largest version that both sides speak. -/
def negotiate (offered : List Nat) : Option Nat :=
  (offered.filter fun version => version ∈ supportedProtocols).max?

def isClientNameAcceptable (client : String) : Bool :=
  clientNamePrefix.toList.isPrefixOf client.toList

/-- What the connection is built on: the cipher with its random nonce, JSON as bytes, and the
shapes of a request and of the parameters of a hello. -/
structure RpcPackages where
  encrypt : (key nonce aad message : List UInt8) → Option (List UInt8)
  decrypt : (key nonce aad ciphertext : List UInt8) → Option (List UInt8)
  fromSlice : List UInt8 → Except String Json
  requestOf : Json → Except String Request
  helloParamsOf : Json → Except String HelloParams
  responseToVec : Response → Except String (List UInt8)
  requestToVec : Request → Except String (List UInt8)
  /-- How the source prints a text, an error and a list of numbers. -/
  quoted : String → String
  packErrorText : PackError → String
  versionsText : List Nat → String

section Packs

variable (packages : RpcPackages) (keys : RpcKeys)

/-- A frame to send. There may be no nonce. -/
def sealPack (side : Side) (packType : PackType) (nonce : Option (List UInt8))
    (json : List UInt8) : Option (List UInt8) :=
  match packType with
  | .plain => some (packVersion :: packType.toByte :: json)
  | .cipher =>
      nonce.bind fun nonce =>
        (packages.encrypt (keys.sendingKey side) nonce aad json).map fun ciphertext =>
          packVersion :: packType.toByte :: (nonce ++ ciphertext)

/-- What is in a frame, opened by the side that has received it. -/
def openPack (side : Side) (frame : List UInt8) : Except PackError (PackType × List UInt8) :=
  if maxFrameBytes < frame.length then
    .error (.tooLarge frame.length)
  else
    match frame with
    | version :: typeByte :: data =>
        if version ≠ packVersion then
          .error (.unknownVersion version)
        else
          match PackType.fromByte typeByte with
          | none => .error (.unknownType typeByte)
          | some .plain => .ok (.plain, data)
          | some .cipher =>
              if data.length < nonceLen then
                .error .tooShort
              else
                match packages.decrypt (keys.receivingKey side) (data.take nonceLen) aad
                    (data.drop nonceLen) with
                | none => .error .cannotDecrypt
                | some json => .ok (.cipher, json)
    | _ => .error .tooShort

/-- The second byte says plaintext. -/
def saysPlain (frame : List UInt8) : Bool :=
  frame[1]? = some PackType.plain.toByte

/-- A frame of the form that a side reads as the JSON. -/
def HasForm (packages : RpcPackages) (keys : RpcKeys) (side : Side) (frame : List UInt8)
    (packType : PackType) (json : List UInt8) : Prop :=
  frame.length ≤ maxFrameBytes ∧ ∃ data, frame = packVersion :: packType.toByte :: data ∧
    match packType with
    | .plain => data = json
    | .cipher => nonceLen ≤ data.length ∧
        packages.decrypt (keys.receivingKey side) (data.take nonceLen) aad (data.drop nonceLen) =
          some json

section Forms

variable {packages : RpcPackages} {keys : RpcKeys} {side : Side} {frame json : List UInt8}
  {packType : PackType}

theorem eq_toByte_of_fromByte {byte : UInt8} (h : PackType.fromByte byte = some packType) :
    byte = packType.toByte := by
  rw [PackType.fromByte] at h
  split_ifs at h with hplain hcipher
  · cases h
    exact hplain
  · cases h
    exact hcipher

/-- Opening accepts exactly the frames of the form. -/
theorem openPack_eq_ok_iff :
    openPack packages keys side frame = .ok (packType, json) ↔
      HasForm packages keys side frame packType json := by
  constructor
  · intro h
    rw [openPack.eq_def] at h
    by_cases hlarge : maxFrameBytes < frame.length
    · rw [if_pos hlarge] at h
      cases h
    rw [if_neg hlarge] at h
    split at h
    · rename_i version typeByte data
      by_cases hversion : version ≠ packVersion
      · rw [if_pos hversion] at h
        cases h
      rw [if_neg hversion] at h
      refine ⟨by omega, data, ?_⟩
      rw [not_not.mp hversion]
      cases htype : PackType.fromByte typeByte with
      | none =>
        rw [htype] at h
        cases h
      | some found =>
        rw [eq_toByte_of_fromByte htype]
        simp only [htype] at h
        cases found with
        | plain =>
          cases h
          exact ⟨rfl, rfl⟩
        | cipher =>
          simp only at h
          by_cases hshort : data.length < nonceLen
          · rw [if_pos hshort] at h
            cases h
          rw [if_neg hshort] at h
          cases hdecrypt : packages.decrypt (keys.receivingKey side) (data.take nonceLen) aad
              (data.drop nonceLen) with
          | none =>
            rw [hdecrypt] at h
            cases h
          | some found =>
            rw [hdecrypt] at h
            cases h
            exact ⟨rfl, by omega, rfl⟩
    · cases h
  · rintro ⟨hle, data, rfl, hdata⟩
    rw [openPack, if_neg (by omega)]
    simp only [ne_eq, not_true_eq_false, if_false, PackType.fromByte_toByte]
    cases packType with
    | plain =>
      simp only at hdata ⊢
      rw [hdata]
    | cipher =>
      simp only at hdata ⊢
      rw [if_neg (by omega), hdata.2]

end Forms

/-- What has been opened as plaintext said so. -/
theorem openPack_type {side : Side} {frame json : List UInt8} {packType : PackType}
    (h : openPack packages keys side frame = .ok (packType, json)) :
    saysPlain frame = decide (packType = .plain) := by
  obtain ⟨-, data, rfl, -⟩ := openPack_eq_ok_iff.mp h
  cases packType <;> rfl

/-- What goes out as a ciphertext does not say plaintext. -/
theorem saysPlain_sealPack {side : Side} {packType : PackType} {nonce : Option (List UInt8)}
    {json frame : List UInt8} (h : sealPack packages keys side packType nonce json = some frame) :
    saysPlain frame = decide (packType = .plain) := by
  cases packType with
  | plain =>
    cases h
    rfl
  | cipher =>
    obtain ⟨nonce, -, hframe⟩ := Option.bind_eq_some_iff.mp h
    obtain ⟨ciphertext, -, rfl⟩ := Option.map_eq_some_iff.mp hframe
    rfl

end Packs

inductive Inbound where
  | helloAccepted (id : Option Nat) (protocol : Nat)
  | request (request : Request)
  | close (notice : Response)
  | reply (response : Response)

structure Connection where
  keys : RpcKeys
  /-- The version that has been agreed on, once there has been a hello. -/
  protocol : Option Nat
  lastInbound : PackType

namespace Connection

def new (keys : RpcKeys) : Connection :=
  { keys := keys, protocol := none, lastInbound := .cipher }

variable (packages : RpcPackages)

/-- A second hello does not change what has been agreed on. -/
def hello (connection : Connection) (request : Request) : Connection × Inbound :=
  match packages.helloParamsOf request.params with
  | .error error =>
      (connection, .close (.close request.id .badFrame ("hello params: " ++ error)))
  | .ok params =>
      if isClientNameAcceptable params.client = false then
        (connection, .close (.close request.id .badClient
          ("client name must start with " ++ packages.quoted clientNamePrefix)))
      else
        match negotiate params.protocols with
        | none =>
            (connection, .close (.close request.id .protocolMismatch
              ("no common protocol: client offers " ++ packages.versionsText params.protocols ++
                ", daemon speaks " ++ packages.versionsText supportedProtocols)))
        | some agreed =>
            let protocol := connection.protocol.getD agreed
            ({ connection with protocol := some protocol }, .helloAccepted request.id protocol)

/-- What has been read of a frame that could be opened. -/
def receiveValue (connection : Connection) (value : Json) : Connection × Inbound :=
  match packages.requestOf value with
  | .error error =>
      if connection.protocol.isNone then
        (connection, .close (.close none .helloRequired
          "the first request on a connection must be hello"))
      else
        (connection, .reply (.error ((value.get "id").bind Json.asU64) badRequest
          ("not a request object: " ++ error)))
  | .ok request =>
      if request.method = "hello" then
        connection.hello packages request
      else if connection.protocol.isNone then
        (connection, .close (.close request.id .helloRequired
          "the first request on a connection must be hello"))
      else
        (connection, .request request)

/-- A frame comes in while plaintext is refused or not. -/
def receive (isEnforced : Bool) (connection : Connection) (frame : List UInt8) :
    Connection × Inbound :=
  match openPack packages connection.keys .daemon frame with
  | .error .cannotDecrypt =>
      (connection, .close (.close none .badToken
        "could not decrypt the frame; the daemon token does not match"))
  | .error error =>
      (connection, .close (.close none .badFrame ("bad frame: " ++ packages.packErrorText error)))
  | .ok (packType, jsonBytes) =>
      if packType = .plain ∧ isEnforced then
        (connection, .close (.close none .badFrame
          "plaintext frames are not accepted while encryption is enforced"))
      else
        let connection := { connection with lastInbound := packType }
        match packages.fromSlice jsonBytes with
        | .error error =>
            (connection, .close (.close none .badFrame ("frame is not JSON: " ++ error)))
        | .ok value => connection.receiveValue packages value

/-- In which form answers and pushes go out. -/
def outboundType (isEnforced : Bool) (connection : Connection) : PackType :=
  if isEnforced then .cipher else connection.lastInbound

def sealJson (connection : Connection) (packType : PackType) (nonce : Option (List UInt8))
    (json : Except String (List UInt8)) : Option (List UInt8) :=
  match json with
  | .error _ => none
  | .ok json => sealPack packages connection.keys .daemon packType nonce json

def sealResponse (isEnforced : Bool) (connection : Connection) (nonce : Option (List UInt8))
    (response : Response) : Option (List UInt8) :=
  connection.sealJson packages (connection.outboundType isEnforced) nonce
    (packages.responseToVec response)

def sealPush (isEnforced : Bool) (connection : Connection) (nonce : Option (List UInt8))
    (push : Request) : Option (List UInt8) :=
  connection.sealJson packages (connection.outboundType isEnforced) nonce
    (packages.requestToVec push)

/-- The other side may have no key, so that the notice is always plaintext. -/
def sealClose (connection : Connection) (notice : Response) : Option (List UInt8) :=
  connection.sealJson packages .plain none (packages.responseToVec notice)

/-- The frame is a hello that both sides can agree on. -/
def IsHello (isEnforced : Bool) (keys : RpcKeys) (frame : List UInt8) (id : Option Nat)
    (agreed : Nat) : Prop :=
  ∃ packType json value request params,
    openPack packages keys .daemon frame = .ok (packType, json) ∧
      (packType = .plain → isEnforced = false) ∧ packages.fromSlice json = .ok value ∧
      packages.requestOf value = .ok request ∧ request.method = "hello" ∧ request.id = id ∧
      packages.helloParamsOf request.params = .ok params ∧
      isClientNameAcceptable params.client = true ∧ negotiate params.protocols = some agreed

variable {packages} {isEnforced : Bool} {connection : Connection}

theorem hello_cases (packages : RpcPackages) (connection : Connection) (request : Request) :
    (∃ notice, connection.hello packages request = (connection, .close notice)) ∨
      ∃ params agreed, packages.helloParamsOf request.params = .ok params ∧
        isClientNameAcceptable params.client = true ∧ negotiate params.protocols = some agreed ∧
        connection.hello packages request =
          ({ connection with protocol := some (connection.protocol.getD agreed) },
            .helloAccepted request.id (connection.protocol.getD agreed)) := by
  rw [hello]
  cases hparams : packages.helloParamsOf request.params with
  | error error => exact .inl ⟨_, rfl⟩
  | ok params =>
    dsimp only
    split_ifs with hname
    · exact .inl ⟨_, rfl⟩
    · cases hagreed : negotiate params.protocols with
      | none => exact .inl ⟨_, rfl⟩
      | some agreed =>
        refine .inr ⟨params, agreed, rfl, ?_, hagreed, rfl⟩
        exact Bool.of_not_eq_false hname

/-- All that a frame can do: it closes the connection and leaves what has been agreed on, or is
accepted as a hello, or comes after a hello. -/
theorem receive_cases (packages : RpcPackages) (isEnforced : Bool) (connection : Connection)
    (frame : List UInt8) :
    (∃ notice lastInbound, connection.receive packages isEnforced frame =
        ({ connection with lastInbound := lastInbound }, .close notice)) ∨
      (∃ id agreed lastInbound, IsHello packages isEnforced connection.keys frame id agreed ∧
        connection.receive packages isEnforced frame =
          ({ connection with
              protocol := some (connection.protocol.getD agreed)
              lastInbound := lastInbound },
            .helloAccepted id (connection.protocol.getD agreed))) ∨
      (connection.protocol.isSome = true ∧ ∃ lastInbound,
        (∃ request, connection.receive packages isEnforced frame =
          ({ connection with lastInbound := lastInbound }, .request request)) ∨
        ∃ response, connection.receive packages isEnforced frame =
          ({ connection with lastInbound := lastInbound }, .reply response)) := by
  have hself : { connection with lastInbound := connection.lastInbound } = connection := rfl
  rw [receive]
  cases hopen : openPack packages connection.keys .daemon frame with
  | error error =>
    refine .inl ?_
    cases error <;> exact ⟨_, connection.lastInbound, rfl⟩
  | ok opened =>
    obtain ⟨packType, jsonBytes⟩ := opened
    dsimp only
    split_ifs with hrefused
    · exact .inl ⟨_, connection.lastInbound, rfl⟩
    · cases hjson : packages.fromSlice jsonBytes with
      | error error => exact .inl ⟨_, packType, rfl⟩
      | ok value =>
        dsimp only
        rw [receiveValue]
        cases hrequest : packages.requestOf value with
        | error error =>
          dsimp only
          cases hprotocol : connection.protocol with
          | none => exact .inl ⟨_, packType, rfl⟩
          | some protocol => refine .inr (.inr ⟨rfl, packType, .inr ⟨_, rfl⟩⟩)
        | ok request =>
          dsimp only
          split_ifs with hhello hnone
          · rcases hello_cases packages
              { connection with lastInbound := packType } request with
              ⟨notice, hclose⟩ | ⟨params, agreed, hparams, hname, hagreed, haccepted⟩
            · exact .inl ⟨notice, packType, hclose⟩
            · refine .inr (.inl ⟨request.id, agreed, packType, ?_, haccepted⟩)
              refine ⟨packType, jsonBytes, value, request, params, hopen, ?_, hjson, hrequest,
                hhello, rfl, hparams, hname, hagreed⟩
              intro hplain
              cases hpolicy : isEnforced with
              | false => rfl
              | true => exact absurd ⟨hplain, hpolicy⟩ hrefused
          · exact .inl ⟨_, packType, rfl⟩
          · refine .inr (.inr ⟨?_, packType, .inl ⟨request, rfl⟩⟩)
            exact Option.isSome_iff_ne_none.mpr fun heq => hnone (by
              rw [heq]
              rfl)

/-- A frame that is refused as plaintext closes the connection and leaves it as it was. -/
theorem receive_plain (packages : RpcPackages) (connection : Connection) {frame : List UInt8}
    (hplain : saysPlain frame = true) (henforced : isEnforced = true) :
    ∃ notice, connection.receive packages isEnforced frame = (connection, .close notice) := by
  rw [receive]
  cases hopen : openPack packages connection.keys .daemon frame with
  | error error => cases error <;> exact ⟨_, rfl⟩
  | ok opened =>
    obtain ⟨packType, jsonBytes⟩ := opened
    have htype := openPack_type packages connection.keys hopen
    rw [hplain] at htype
    dsimp only
    rw [if_pos ⟨of_decide_eq_true htype.symm, henforced⟩]
    exact ⟨_, rfl⟩

theorem sealJson_type {packType : PackType} {nonce : Option (List UInt8)}
    {json : Except String (List UInt8)} {frame : List UInt8}
    (h : connection.sealJson packages packType nonce json = some frame) :
    saysPlain frame = decide (packType = .plain) := by
  cases json with
  | error error => cases h
  | ok json => exact saysPlain_sealPack packages connection.keys h

/-- What happens to a connection: a frame comes in, the daemon switches whether plaintext is
refused, an answer, a push or a close notice is sealed. -/
inductive Action where
  | receive (frame : List UInt8)
  | setEnforced (isEnforced : Bool)
  | sealResponse (nonce : Option (List UInt8)) (response : Response)
  | sealPush (nonce : Option (List UInt8)) (push : Request)
  | sealClose (notice : Response)

structure State where
  connection : Connection
  isEnforced : Bool

section Runs

variable (packages : RpcPackages)

def State.step (s : State) : Action → State
  | .receive frame => { s with connection := (s.connection.receive packages s.isEnforced frame).1 }
  | .setEnforced isEnforced => { s with isEnforced := isEnforced }
  | .sealResponse _ _ => s
  | .sealPush _ _ => s
  | .sealClose _ => s

/-- What comes of a frame. -/
def State.inbound (s : State) (frame : List UInt8) : Inbound :=
  (s.connection.receive packages s.isEnforced frame).2

/-- The versions that the accepted hellos of a run have reported. -/
def hellos : State → List Action → List Nat
  | _, [] => []
  | s, action :: actions =>
      match action with
      | .receive frame =>
          match s.inbound packages frame with
          | .helloAccepted _ protocol => protocol :: hellos (s.step packages action) actions
          | _ => hellos (s.step packages action) actions
      | _ => hellos (s.step packages action) actions

variable {packages}

/-- One call keeps the keys. It keeps what has been agreed on, unless it is the first hello. -/
theorem State.step_protocol (packages : RpcPackages) (s : State) (action : Action) (actions : List Action) :
    (s.step packages action).connection.keys = s.connection.keys ∧
      ((s.step packages action).connection.protocol = s.connection.protocol ∧
          hellos packages s (action :: actions) =
            hellos packages (s.step packages action) actions ∨
        ∃ frame id agreed, action = .receive frame ∧
          IsHello packages s.isEnforced s.connection.keys frame id agreed ∧
          (s.step packages action).connection.protocol =
            some (s.connection.protocol.getD agreed) ∧
          hellos packages s (action :: actions) =
            s.connection.protocol.getD agreed ::
              hellos packages (s.step packages action) actions) := by
  cases action with
  | receive frame =>
    rcases receive_cases packages s.isEnforced s.connection frame with
      ⟨notice, lastInbound, heq⟩ | ⟨id, agreed, lastInbound, hhello, heq⟩ |
        ⟨hsome, lastInbound, ⟨request, heq⟩ | ⟨response, heq⟩⟩
    · simp only [State.step, hellos, State.inbound, heq]
      exact ⟨trivial, .inl ⟨trivial, trivial⟩⟩
    · simp only [State.step, hellos, State.inbound, heq]
      exact ⟨trivial, .inr ⟨frame, id, agreed, rfl, hhello, rfl, rfl⟩⟩
    · simp only [State.step, hellos, State.inbound, heq]
      exact ⟨trivial, .inl ⟨trivial, trivial⟩⟩
    · simp only [State.step, hellos, State.inbound, heq]
      exact ⟨trivial, .inl ⟨trivial, trivial⟩⟩
  | setEnforced isEnforced | sealResponse nonce response => exact ⟨rfl, .inl ⟨rfl, rfl⟩⟩
  | sealPush nonce push | sealClose notice => exact ⟨rfl, .inl ⟨rfl, rfl⟩⟩

/-- After a run, what has been agreed on is what the first accepted hello has reported, and all
others have reported the same. -/
theorem run_protocol (packages : RpcPackages) (actions : List Action) :
    ∀ s : State,
      (Runs.run (State.step packages) s actions).connection.protocol =
          s.connection.protocol.or (hellos packages s actions).head? ∧
        ∀ reported ∈ hellos packages s actions,
          s.connection.protocol.or (hellos packages s actions).head? = some reported := by
  induction actions with
  | nil =>
    intro s
    exact ⟨(Option.or_none).symm, fun _ h => (by cases h)⟩
  | cons action actions ih =>
    intro s
    obtain ⟨hrun, hsame⟩ := ih (s.step packages action)
    rw [Runs.run_cons]
    rcases (s.step_protocol packages action actions).2 with
      ⟨hprotocol, hhellos⟩ | ⟨frame, id, agreed, -, -, hprotocol, hhellos⟩
    · rw [hprotocol] at hrun hsame
      rw [hhellos]
      exact ⟨hrun, hsame⟩
    · rw [hprotocol, Option.some_or] at hrun hsame
      rw [hhellos, hrun]
      have hfirst : s.connection.protocol.or
          (s.connection.protocol.getD agreed ::
            hellos packages (s.step packages action) actions).head? =
          some (s.connection.protocol.getD agreed) := by
        cases s.connection.protocol <;> rfl
      refine ⟨hfirst.symm, fun reported hreported => ?_⟩
      rw [hfirst]
      rcases List.mem_cons.mp hreported with rfl | hlater
      · rfl
      · exact hsame reported hlater

/-- In every order of frames, of switches of the policy and of messages that are sealed: a request
is handed out after an accepted hello only, every accepted hello reports what the first one has
negotiated, and before it every frame that is no valid hello closes the connection. While plaintext
is refused, a plaintext frame closes the connection and changes nothing, and no answer and no push
goes out as plaintext. -/
theorem connection_protocol (packages : RpcPackages) (keys : RpcKeys) (isEnforced : Bool)
    (before : List Action) :
    let s := Runs.run (State.step packages) ⟨.new keys, isEnforced⟩ before
    let accepted := hellos packages ⟨.new keys, isEnforced⟩ before
    (∀ frame request, s.inbound packages frame = .request request → accepted ≠ []) ∧
      (∀ frame id reported, s.inbound packages frame = .helloAccepted id reported →
        ∃ agreed, IsHello packages s.isEnforced keys frame id agreed ∧
          reported = accepted.head?.getD agreed) ∧
      (∀ reported ∈ accepted, accepted.head? = some reported) ∧
      (s.isEnforced = true → ∀ frame, saysPlain frame = true →
        (∃ notice, s.inbound packages frame = .close notice) ∧
          s.step packages (.receive frame) = s) ∧
      (s.isEnforced = true → ∀ nonce frame,
        (∀ response, s.connection.sealResponse packages s.isEnforced nonce response = some frame →
          saysPlain frame = false) ∧
        ∀ push, s.connection.sealPush packages s.isEnforced nonce push = some frame →
          saysPlain frame = false) ∧
      (accepted = [] → ∀ frame,
        (¬∃ id agreed, IsHello packages s.isEnforced keys frame id agreed) →
          ∃ notice, s.inbound packages frame = .close notice) := by
  intro s accepted
  have hkeys : s.connection.keys = keys :=
    Runs.run_invariant (fun s : State => s.connection.keys = keys)
      (fun s action hs => (s.step_protocol packages action []).1.trans hs) before _ rfl
  obtain ⟨hprotocol, hsame⟩ := run_protocol packages before
    ⟨.new keys, isEnforced⟩
  have hagreed : s.connection.protocol = accepted.head? := hprotocol.trans (Option.none_or)
  have hreported : ∀ reported ∈ accepted, accepted.head? = some reported :=
    fun reported hmem => (Option.none_or).symm.trans (hsame reported hmem)
  have hcases : ∀ frame, (∃ notice, s.inbound packages frame = .close notice) ∨
      (∃ id agreed, IsHello packages s.isEnforced keys frame id agreed ∧
        s.inbound packages frame = .helloAccepted id (accepted.head?.getD agreed)) ∨
      (accepted ≠ [] ∧ ((∃ request, s.inbound packages frame = .request request) ∨
        ∃ response, s.inbound packages frame = .reply response)) := by
    intro frame
    rcases receive_cases packages s.isEnforced s.connection frame with
      ⟨notice, lastInbound, heq⟩ | ⟨id, agreed, lastInbound, hhello, heq⟩ |
        ⟨hsome, lastInbound, hrest⟩
    · exact .inl ⟨notice, congrArg Prod.snd heq⟩
    · rw [hkeys] at hhello
      rw [hagreed] at heq
      exact .inr (.inl ⟨id, agreed, hhello, congrArg Prod.snd heq⟩)
    · refine .inr (.inr ⟨fun hnone => ?_, ?_⟩)
      · rw [hagreed, hnone] at hsome
        cases hsome
      · rcases hrest with ⟨request, heq⟩ | ⟨response, heq⟩
        · exact .inl ⟨request, congrArg Prod.snd heq⟩
        · exact .inr ⟨response, congrArg Prod.snd heq⟩
  refine ⟨?_, ?_, hreported, ?_, ?_, ?_⟩
  · intro frame request hrequest
    rcases hcases frame with ⟨notice, heq⟩ | ⟨id, agreed, -, heq⟩ | ⟨hne, -⟩
    · rw [heq] at hrequest
      cases hrequest
    · rw [heq] at hrequest
      cases hrequest
    · exact hne
  · intro frame id reported haccepted
    rcases hcases frame with ⟨notice, heq⟩ | ⟨id', agreed, hhello, heq⟩ |
      ⟨-, ⟨request, heq⟩ | ⟨response, heq⟩⟩
    · rw [heq] at haccepted
      cases haccepted
    · rw [heq] at haccepted
      cases haccepted
      exact ⟨agreed, hhello, rfl⟩
    · rw [heq] at haccepted
      cases haccepted
    · rw [heq] at haccepted
      cases haccepted
  · intro henforced frame hplain
    obtain ⟨notice, heq⟩ := receive_plain packages s.connection hplain henforced
    refine ⟨⟨notice, congrArg Prod.snd heq⟩, ?_⟩
    rw [State.step, heq]
  · intro henforced nonce frame
    have hcipher : s.connection.outboundType s.isEnforced = .cipher := by
      rw [outboundType, if_pos henforced]
    refine ⟨fun response hsealed => ?_, fun push hsealed => ?_⟩
    · rw [sealResponse, hcipher] at hsealed
      exact sealJson_type hsealed
    · rw [sealPush, hcipher] at hsealed
      exact sealJson_type hsealed
  · intro hnone frame hno
    rcases hcases frame with hclose | ⟨id, agreed, hhello, -⟩ | ⟨hne, -⟩
    · exact hclose
    · exact absurd ⟨id, agreed, hhello⟩ hno
    · exact absurd hnone hne

end Runs

end Connection
end Rpc
end WbfMatrixClient
