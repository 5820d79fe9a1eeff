import Mathlib.Data.List.Basic

/-!
# Packs and errors

The pack of the wbf wire format as the client's tasks pass it around, and the
error type every SDK call returns. The session layer only reads the fields of a
pack; its form on the wire is the codec's.
-/

namespace WbfMatrixClient

/-- The domain a pack belongs to. -/
inductive Kind where
  | control
  | stream
  | upload
  | download
  | invite
  | session
  | account
  | room
  | event
  | receipt
  | device
  | keys
deriving DecidableEq

namespace control

/-- Subtypes of `Kind.control`. -/
def ack : UInt8 := 0x02

def error : UInt8 := 0x03

def pong : UInt8 := 0x05

end control

namespace flags

def isResponse : UInt8 := 0x04

def isLast : UInt8 := 0x08

end flags

/-- The fields of one pack. -/
structure Pack where
  kind : Kind
  subtype : UInt8
  flags : UInt8
  id : UInt64
  seq : UInt32
  «meta» : List UInt8
  data : List UInt8
deriving DecidableEq

/-- What an SDK call fails with. A server error keeps the numeric code, which
is the only part programs may branch on, and the expected index that an
out-of-order answer carries. -/
inductive SdkError where
  | usage (message : String)
  | server (codeId : Option Nat) (expectedSeq : Option Nat) (message : String)
  | integrity (message : String)
  | network (message : String)
  | protocol (message : String)
  | io (message : String)
  | timeout (message : String)
deriving DecidableEq

/-- The codes of the server's table. -/
inductive WbfErrorCode where
  | unsupportedVersion
  | corrupt
  | unknownKind
  | unsupported
  | tooLarge
  | invalidRequest
  | unauthorized
  | forbidden
  | rateLimited
  | tooManyConnections
  | tooManyConnectionsFromAddress
  | notFound
  | conflict
  | outOfOrder
  | truncated
  | superseded
  | roomDevicesChanged
  | internal
deriving DecidableEq

namespace WbfErrorCode

def id : WbfErrorCode → Nat
  | unsupportedVersion => 1001
  | corrupt => 1002
  | unknownKind => 1101
  | unsupported => 1102
  | tooLarge => 1103
  | invalidRequest => 1201
  | unauthorized => 1301
  | forbidden => 1302
  | rateLimited => 1401
  | tooManyConnections => 1402
  | tooManyConnectionsFromAddress => 1403
  | notFound => 1501
  | conflict => 1502
  | outOfOrder => 1503
  | truncated => 1504
  | superseded => 1505
  | roomDevicesChanged => 1506
  | internal => 1901

/-- A number that is not on the table names no code. -/
def fromId : Nat → Option WbfErrorCode
  | 1001 => some unsupportedVersion
  | 1002 => some corrupt
  | 1101 => some unknownKind
  | 1102 => some unsupported
  | 1103 => some tooLarge
  | 1201 => some invalidRequest
  | 1301 => some unauthorized
  | 1302 => some forbidden
  | 1401 => some rateLimited
  | 1402 => some tooManyConnections
  | 1403 => some tooManyConnectionsFromAddress
  | 1501 => some notFound
  | 1502 => some conflict
  | 1503 => some outOfOrder
  | 1504 => some truncated
  | 1505 => some superseded
  | 1506 => some roomDevicesChanged
  | 1901 => some internal
  | _ => none

end WbfErrorCode

/-- The code of an error, if it came from a wbf pack and is known. -/
def SdkError.wbfCode : SdkError → Option WbfErrorCode
  | .server (some codeId) _ _ => WbfErrorCode.fromId codeId
  | _ => none

end WbfMatrixClient
