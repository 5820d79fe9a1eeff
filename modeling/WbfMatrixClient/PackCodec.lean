import WbfMatrixClient.Lib.ByteFile
import WbfMatrixClient.Lib.Bytes
import WbfMatrixClient.Wire

/-!
# The pack codec

A pack on the wire is a header of fixed width, the meta section and the data
section, each with its length and its checksum. Decoding accepts exactly what
encoding makes, so a pack has one form on the wire. The checksum is some function
of the bytes it is taken over.
-/

namespace WbfMatrixClient

/-- The only version of the format. -/
def version : UInt8 := 1

/-- The length of a pack with nothing in it. -/
def minPackLen : Nat := 32

namespace Kind

def toByte : Kind → UInt8
  | control => 0x01
  | stream => 0x02
  | upload => 0x03
  | download => 0x04
  | invite => 0x05
  | session => 0x10
  | account => 0x11
  | room => 0x13
  | event => 0x14
  | receipt => 0x15
  | device => 0x16
  | keys => 0x17

def fromByte (byte : UInt8) : Option Kind :=
  match byte with
  | 0x01 => some control
  | 0x02 => some stream
  | 0x03 => some upload
  | 0x04 => some download
  | 0x05 => some invite
  | 0x10 => some session
  | 0x11 => some account
  | 0x13 => some room
  | 0x14 => some event
  | 0x15 => some receipt
  | 0x16 => some device
  | 0x17 => some keys
  | _ => none

theorem fromByte_eq_some_iff {byte : UInt8} {kind : Kind} :
    fromByte byte = some kind ↔ kind.toByte = byte := by
  constructor
  · intro h
    rw [fromByte.eq_def] at h
    split at h <;> cases h <;> rfl
  · rintro rfl
    cases kind <;> rfl

end Kind

/-- The bits of `flags` that have a meaning. -/
def flags.known : UInt8 := 0x01 ||| 0x02 ||| flags.isResponse ||| flags.isLast ||| 0x10

inductive DecodeError where
  | tooShort
  | unsupportedVersion (version : UInt8)
  | unknownKind (kind : UInt8)
  | reservedFlags (flags : UInt8)
  | metaCrc (expected actual : UInt32)
  | dataCrc (expected actual : UInt32)
  | truncated
  | trailingBytes

inductive EncodeError where
  | metaTooLong (length : Nat)
  | dataTooLong (length : Nat)
  | reservedFlags (flags : UInt8)

/-- The value, or the error when there is none. -/
def okOr {α ε : Type} (found : Option α) (e : ε) : Except ε α :=
  match found with
  | some a => .ok a
  | none => .error e

theorem okOr_bind_eq_ok {α β ε : Type} {found : Option α} {e : ε} {f : α → Except ε β} {b : β} :
    (okOr found e >>= f) = .ok b ↔ ∃ a, found = some a ∧ f a = .ok b := by
  cases found <;> simp [okOr, bind, Except.bind]

theorem ite_error_eq_ok {β ε : Type} {c : Prop} [Decidable c] {e : ε} {result : Except ε β}
    {b : β} : (if c then .error e else result) = .ok b ↔ ¬c ∧ result = .ok b := by
  split_ifs with h <;> simp [h]

section Fields

def bytesOfU32 (n : UInt32) : List UInt8 :=
  Bytes.toBigEndian 4 n.toNat

def bytesOfU64 (n : UInt64) : List UInt8 :=
  Bytes.toBigEndian 8 n.toNat

def readU32 (bytes : List UInt8) (offset : Nat) : Option UInt32 :=
  (ByteFile.readExact bytes offset 4).map fun chunk => UInt32.ofNat (Bytes.ofBigEndian chunk)

def readU64 (bytes : List UInt8) (offset : Nat) : Option UInt64 :=
  (ByteFile.readExact bytes offset 8).map fun chunk => UInt64.ofNat (Bytes.ofBigEndian chunk)

def readLen (bytes : List UInt8) (offset : Nat) : Option Nat :=
  (readU32 bytes offset).map UInt32.toNat

/-- The bytes of a range, if there are so many. -/
def slice (bytes : List UInt8) (start stop : Nat) : Option (List UInt8) :=
  if start ≤ stop ∧ stop ≤ bytes.length then some ((bytes.take stop).drop start) else none

variable {bytes field : List UInt8} {offset : Nat}

@[simp] theorem length_bytesOfU32 (n : UInt32) : (bytesOfU32 n).length = 4 :=
  Bytes.length_toBigEndian 4 n.toNat

@[simp] theorem length_bytesOfU64 (n : UInt64) : (bytesOfU64 n).length = 8 :=
  Bytes.length_toBigEndian 8 n.toNat

/-- What is read at a place is what stands there. -/
theorem readExact_eq_some_iff {length : Nat} :
    ByteFile.readExact bytes offset length = some field ↔
      field.length = length ∧ offset ≤ bytes.length ∧
        bytes.take (offset + length) = bytes.take offset ++ field := by
  rw [ByteFile.readExact]
  constructor
  · intro h
    split_ifs at h with hle
    cases h
    refine ⟨by rw [List.length_take, List.length_drop]; omega, by omega, ?_⟩
    rw [List.take_add]
  · rintro ⟨hlength, hoffset, htake⟩
    have htotal := congrArg List.length htake
    rw [List.length_append, List.length_take, List.length_take, hlength] at htotal
    rw [if_pos (by omega)]
    rw [List.take_add, List.append_cancel_left_eq] at htake
    rw [htake]

theorem readU32_eq_some_iff {n : UInt32} :
    readU32 bytes offset = some n ↔
      offset ≤ bytes.length ∧ bytes.take (offset + 4) = bytes.take offset ++ bytesOfU32 n := by
  rw [readU32, Option.map_eq_some_iff]
  constructor
  · rintro ⟨chunk, hchunk, rfl⟩
    obtain ⟨hlength, hoffset, htake⟩ := readExact_eq_some_iff.mp hchunk
    have hlt := Bytes.ofBigEndian_lt chunk
    have hback := Bytes.toBigEndian_ofBigEndian chunk
    rw [hlength] at hlt hback
    refine ⟨hoffset, ?_⟩
    rw [bytesOfU32, UInt32.toNat_ofNat_of_lt' hlt, hback, htake]
  · rintro ⟨hoffset, htake⟩
    refine ⟨bytesOfU32 n, readExact_eq_some_iff.mpr ⟨length_bytesOfU32 n, hoffset, htake⟩, ?_⟩
    rw [bytesOfU32, Bytes.ofBigEndian_toBigEndian n.toNat_lt, UInt32.ofNat_toNat]

theorem readU64_eq_some_iff {n : UInt64} :
    readU64 bytes offset = some n ↔
      offset ≤ bytes.length ∧ bytes.take (offset + 8) = bytes.take offset ++ bytesOfU64 n := by
  rw [readU64, Option.map_eq_some_iff]
  constructor
  · rintro ⟨chunk, hchunk, rfl⟩
    obtain ⟨hlength, hoffset, htake⟩ := readExact_eq_some_iff.mp hchunk
    have hlt := Bytes.ofBigEndian_lt chunk
    have hback := Bytes.toBigEndian_ofBigEndian chunk
    rw [hlength] at hlt hback
    refine ⟨hoffset, ?_⟩
    rw [bytesOfU64, UInt64.toNat_ofNat_of_lt' hlt, hback, htake]
  · rintro ⟨hoffset, htake⟩
    refine ⟨bytesOfU64 n, readExact_eq_some_iff.mpr ⟨length_bytesOfU64 n, hoffset, htake⟩, ?_⟩
    rw [bytesOfU64, Bytes.ofBigEndian_toBigEndian n.toNat_lt, UInt64.ofNat_toNat]

theorem slice_eq_some_iff {start stop : Nat} :
    slice bytes start stop = some field ↔
      stop ≤ bytes.length ∧ start + field.length = stop ∧
        bytes.take stop = bytes.take start ++ field := by
  rw [slice]
  constructor
  · intro h
    split_ifs at h with hle
    cases h
    refine ⟨hle.2, by rw [List.length_drop, List.length_take]; omega, ?_⟩
    calc
      bytes.take stop
          = (bytes.take stop).take start ++ (bytes.take stop).drop start :=
            (List.take_append_drop start (bytes.take stop)).symm
      _ = bytes.take start ++ (bytes.take stop).drop start := by
            rw [List.take_take, Nat.min_eq_left hle.1]
  · rintro ⟨hstop, hlength, htake⟩
    have hstart : (bytes.take start).length = start := by
      rw [List.length_take]
      omega
    rw [if_pos (by omega), htake, List.drop_left' hstart]

/-- The first bytes are those of a beginning that is as long. -/
theorem take_of_prefix {front : List UInt8} {n : Nat} (h : front <+: bytes)
    (hlength : front.length = n) : bytes.take n = front := by
  rw [List.prefix_iff_eq_take, hlength] at h
  exact h.symm

end Fields

namespace Pack

section Codec

variable (crc32c : List UInt8 → UInt32)

/-- The part of a pack that its first checksum is taken over. -/
def head (pack : Pack) (metaLen : UInt32) : List UInt8 :=
  [version, pack.kind.toByte, pack.subtype, pack.flags] ++ bytesOfU64 pack.id ++
    bytesOfU32 pack.seq ++ bytesOfU32 metaLen ++ pack.meta

def encode (pack : Pack) : Except EncodeError (List UInt8) :=
  if pack.flags &&& ~~~flags.known ≠ 0 then
    .error (.reservedFlags pack.flags)
  else if 2 ^ 32 ≤ pack.meta.length then
    .error (.metaTooLong pack.meta.length)
  else if 2 ^ 32 ≤ pack.data.length then
    .error (.dataTooLong pack.data.length)
  else
    let head := pack.head (UInt32.ofNat pack.meta.length)
    .ok (head ++ bytesOfU32 (crc32c head) ++ bytesOfU32 (UInt32.ofNat pack.data.length) ++
      pack.data ++ bytesOfU32 (crc32c pack.data))

def decode (bytes : List UInt8) : Except DecodeError Pack :=
  if bytes.length < minPackLen then
    .error .tooShort
  else
    match bytes with
    | readVersion :: kindByte :: subtype :: readFlags :: _ =>
        if readVersion ≠ version then .error (.unsupportedVersion readVersion) else
        okOr (Kind.fromByte kindByte) (.unknownKind kindByte) >>= fun kind =>
        if readFlags &&& ~~~flags.known ≠ 0 then .error (.reservedFlags readFlags) else
        okOr (readU64 bytes 4) .tooShort >>= fun id =>
        okOr (readU32 bytes 12) .tooShort >>= fun seq =>
        okOr (readLen bytes 16) .truncated >>= fun metaLen =>
        let metaEnd := 20 + metaLen
        -- The checksum and the length of the data come after the meta section.
        if metaEnd + 8 > bytes.length then .error .truncated else
        okOr (readU32 bytes metaEnd) .truncated >>= fun metaCrcExpected =>
        okOr (slice bytes 0 metaEnd) .truncated >>= fun covered =>
        if crc32c covered ≠ metaCrcExpected then
          .error (.metaCrc metaCrcExpected (crc32c covered))
        else
        okOr (readLen bytes (metaEnd + 4)) .truncated >>= fun dataLen =>
        let dataStart := metaEnd + 8
        let dataEnd := dataStart + dataLen
        let packEnd := dataEnd + 4
        if packEnd > bytes.length then .error .truncated else
        okOr (slice bytes dataStart dataEnd) .truncated >>= fun data =>
        okOr (readU32 bytes dataEnd) .truncated >>= fun dataCrcExpected =>
        if crc32c data ≠ dataCrcExpected then
          .error (.dataCrc dataCrcExpected (crc32c data))
        else if packEnd ≠ bytes.length then
          .error .trailingBytes
        else
        okOr (slice bytes 20 metaEnd) .truncated >>= fun «meta» =>
        .ok { kind := kind, subtype := subtype, flags := readFlags, id := id, seq := seq,
              «meta» := «meta», data := data }
    | _ => .error .tooShort

variable {crc32c}

variable {bytes : List UInt8} {pack : Pack}

/-- What decoding has checked when it accepts. -/
theorem decode_eq_ok_iff :
    decode crc32c bytes = .ok pack ↔
      ∃ rest, bytes = version :: pack.kind.toByte :: pack.subtype :: pack.flags :: rest ∧
        minPackLen ≤ bytes.length ∧
        pack.flags &&& ~~~flags.known = 0 ∧
        readU64 bytes 4 = some pack.id ∧
        readU32 bytes 12 = some pack.seq ∧
        ∃ metaLen, readU32 bytes 16 = some metaLen ∧
          20 + metaLen.toNat + 8 ≤ bytes.length ∧
          readU32 bytes (20 + metaLen.toNat) = some (crc32c (bytes.take (20 + metaLen.toNat))) ∧
          slice bytes 20 (20 + metaLen.toNat) = some pack.meta ∧
          ∃ dataLen, readU32 bytes (20 + metaLen.toNat + 4) = some dataLen ∧
            20 + metaLen.toNat + 8 + dataLen.toNat + 4 = bytes.length ∧
            slice bytes (20 + metaLen.toNat + 8) (20 + metaLen.toNat + 8 + dataLen.toNat) =
              some pack.data ∧
            readU32 bytes (20 + metaLen.toNat + 8 + dataLen.toNat) = some (crc32c pack.data) := by
  have hcovered : ∀ n, n ≤ bytes.length → slice bytes 0 n = some (bytes.take n) := by
    intro n hn
    rw [slice, if_pos ⟨Nat.zero_le n, hn⟩, List.drop_zero]
  rw [decode.eq_def]
  split_ifs with hshort
  · simp only [false_iff]
    rintro ⟨_, _, hlength, _⟩
    omega
  split
  · rename_i readVersion kindByte subtype readFlags rest
    simp only [ite_error_eq_ok, okOr_bind_eq_ok, Kind.fromByte_eq_some_iff, readLen,
      Option.map_eq_some_iff, not_not, not_lt, Except.ok.injEq]
    constructor
    · rintro ⟨rfl, kind, rfl, hflags, id, hid, seq, hseq, _, ⟨metaLen, hmetaLen, rfl⟩, hmetaEnd,
        metaCrc, hmetaCrc, covered, hslice, hsame, _, ⟨dataLen, hdataLen, rfl⟩, hdataEnd, data,
        hdata, dataCrc, hdataCrc, hdataSame, htrailing, _, hmeta, rfl⟩
      rw [hcovered _ (by omega), Option.some.injEq] at hslice
      refine ⟨rest, rfl, by omega, hflags, hid, hseq, metaLen, hmetaLen, hmetaEnd, ?_, hmeta,
        dataLen, hdataLen, htrailing, hdata, ?_⟩
      · rw [hslice, hsame]
        exact hmetaCrc
      · rw [hdataSame]
        exact hdataCrc
    · rintro ⟨_, hbytes, hlength, hflags, hid, hseq, metaLen, hmetaLen, hmetaEnd, hmetaCrc, hmeta,
        dataLen, hdataLen, hdataEnd, hdata, hdataCrc⟩
      cases hbytes
      exact ⟨rfl, pack.kind, rfl, hflags, pack.id, hid, pack.seq, hseq, metaLen.toNat,
        ⟨metaLen, hmetaLen, rfl⟩, hmetaEnd, _, hmetaCrc, _, hcovered _ (by omega), rfl,
        dataLen.toNat, ⟨dataLen, hdataLen, rfl⟩, by omega, pack.data, hdata, _, hdataCrc, rfl,
        hdataEnd, pack.meta, hmeta, rfl⟩
  · rename_i hnot
    simp only [reduceCtorEq, false_iff]
    rintro ⟨rest, hbytes, _⟩
    exact hnot _ _ _ _ _ hbytes

theorem encode_eq_ok_iff :
    encode crc32c pack = .ok bytes ↔
      pack.flags &&& ~~~flags.known = 0 ∧ pack.meta.length < 2 ^ 32 ∧ pack.data.length < 2 ^ 32 ∧
        pack.head (UInt32.ofNat pack.meta.length) ++
          bytesOfU32 (crc32c (pack.head (UInt32.ofNat pack.meta.length))) ++
          bytesOfU32 (UInt32.ofNat pack.data.length) ++ pack.data ++
          bytesOfU32 (crc32c pack.data) = bytes := by
  simp only [encode, ite_error_eq_ok, not_not, not_le, Except.ok.injEq]

/-- What is decoded from bytes is encoded as these bytes. -/
theorem encode_of_decode (h : decode crc32c bytes = .ok pack) : encode crc32c pack = .ok bytes := by
  obtain ⟨rest, hbytes, hlength, hflags, hid, hseq, metaLen, hmetaLen, hmetaEnd, hmetaCrc, hmeta,
    dataLen, hdataLen, hdataEnd, hdata, hdataCrc⟩ := decode_eq_ok_iff.mp h
  obtain ⟨_, hmetaLength, hmetaTake⟩ := slice_eq_some_iff.mp hmeta
  obtain ⟨_, hdataLength, hdataTake⟩ := slice_eq_some_iff.mp hdata
  have hmetaIs : pack.meta.length = metaLen.toNat := by omega
  have hdataIs : pack.data.length = dataLen.toNat := by omega
  have hstart : bytes.take 4 = [version, pack.kind.toByte, pack.subtype, pack.flags] := by
    rw [hbytes]
    rfl
  have hhead : bytes.take (20 + metaLen.toNat) = pack.head metaLen := by
    rw [hmetaTake, (readU32_eq_some_iff.mp hmetaLen).2, (readU32_eq_some_iff.mp hseq).2,
      (readU64_eq_some_iff.mp hid).2, hstart]
    rfl
  rw [encode_eq_ok_iff, hmetaIs, hdataIs, UInt32.ofNat_toNat, UInt32.ofNat_toNat]
  refine ⟨hflags, metaLen.toNat_lt, dataLen.toNat_lt, ?_⟩
  calc
    pack.head metaLen ++ bytesOfU32 (crc32c (pack.head metaLen)) ++ bytesOfU32 dataLen ++
          pack.data ++ bytesOfU32 (crc32c pack.data)
        = bytes.take (20 + metaLen.toNat + 4) ++ bytesOfU32 dataLen ++ pack.data ++
            bytesOfU32 (crc32c pack.data) := by
          rw [(readU32_eq_some_iff.mp hmetaCrc).2, hhead]
    _ = bytes.take (20 + metaLen.toNat + 8) ++ pack.data ++ bytesOfU32 (crc32c pack.data) := by
          rw [← (readU32_eq_some_iff.mp hdataLen).2]
    _ = bytes.take (20 + metaLen.toNat + 8 + dataLen.toNat + 4) := by
          rw [← hdataTake, ← (readU32_eq_some_iff.mp hdataCrc).2]
    _ = bytes := by
          rw [hdataEnd, List.take_length]

/-- What is encoded is decoded to the pack it was made from. -/
theorem decode_of_encode (h : encode crc32c pack = .ok bytes) : decode crc32c bytes = .ok pack := by
  obtain ⟨hflags, hmetaLt, hdataLt, hbytes⟩ := encode_eq_ok_iff.mp h
  have hmetaNat : (UInt32.ofNat pack.meta.length).toNat = pack.meta.length :=
    UInt32.toNat_ofNat_of_lt' hmetaLt
  have hdataNat : (UInt32.ofNat pack.data.length).toNat = pack.data.length :=
    UInt32.toNat_ofNat_of_lt' hdataLt
  generalize UInt32.ofNat pack.meta.length = metaLen at hbytes hmetaNat
  generalize UInt32.ofNat pack.data.length = dataLen at hbytes hdataNat
  -- Every field stands behind a beginning of the bytes, and these are one in another.
  have hdataEnd : pack.head metaLen ++ bytesOfU32 (crc32c (pack.head metaLen)) ++
      bytesOfU32 dataLen ++ pack.data <+: bytes := ⟨_, hbytes⟩
  have hdataStart := (List.prefix_append _ _).trans hdataEnd
  have hcrcEnd := (List.prefix_append _ _).trans hdataStart
  have hmetaEnd := (List.prefix_append _ _).trans hcrcEnd
  have hmetaStart := (List.prefix_append _ _).trans hmetaEnd
  have hseqEnd := (List.prefix_append _ _).trans hmetaStart
  have hidEnd := (List.prefix_append _ _).trans hseqEnd
  have hstart := (List.prefix_append _ _).trans hidEnd
  have hheadLength : (pack.head metaLen).length = 20 + metaLen.toNat := by
    simp only [head, List.length_append, List.length_cons, List.length_nil, length_bytesOfU32,
      length_bytesOfU64, hmetaNat]
  have hlength := congrArg List.length hbytes
  simp only [List.length_append, hheadLength, length_bytesOfU32, ← hdataNat] at hlength
  have htake4 := take_of_prefix hstart (n := 4) rfl
  have htake12 := take_of_prefix hidEnd (n := 12) (by simp)
  have htake16 := take_of_prefix hseqEnd (n := 16) (by simp)
  have htake20 := take_of_prefix hmetaStart (n := 20) (by simp)
  have htakeHead := take_of_prefix hmetaEnd hheadLength
  have htakeCrc := take_of_prefix hcrcEnd (n := 20 + metaLen.toNat + 4) (by
    rw [List.length_append, hheadLength, length_bytesOfU32])
  have htakeStart := take_of_prefix hdataStart (n := 20 + metaLen.toNat + 8) (by
    simp only [List.length_append, hheadLength, length_bytesOfU32])
  have htakeData := take_of_prefix hdataEnd (n := 20 + metaLen.toNat + 8 + dataLen.toNat) (by
    simp only [List.length_append, hheadLength, length_bytesOfU32, hdataNat])
  obtain ⟨rest, hrest⟩ := hstart
  refine decode_eq_ok_iff.mpr ⟨rest, hrest.symm, by rw [minPackLen]; omega, hflags,
    readU64_eq_some_iff.mpr ⟨by omega, ?_⟩, readU32_eq_some_iff.mpr ⟨by omega, ?_⟩, metaLen,
    readU32_eq_some_iff.mpr ⟨by omega, ?_⟩, by omega, readU32_eq_some_iff.mpr ⟨by omega, ?_⟩,
    slice_eq_some_iff.mpr ⟨by omega, by omega, ?_⟩, dataLen,
    readU32_eq_some_iff.mpr ⟨by omega, ?_⟩, by omega,
    slice_eq_some_iff.mpr ⟨by omega, by omega, ?_⟩, readU32_eq_some_iff.mpr ⟨by omega, ?_⟩⟩
  · rw [htake12, htake4]
  · rw [htake16, htake12]
  · rw [htake20, htake16]
  · rw [htakeCrc, htakeHead]
  · rw [htakeHead, htake20]
    rfl
  · rw [htakeStart, htakeCrc]
  · rw [htakeData, htakeStart]
  · rw [htakeData, ← hbytes, List.take_of_length_le]
    simp only [List.length_append, hheadLength, length_bytesOfU32, hdataNat]
    omega

/-- Bytes decode to a pack exactly if they are its encoding. -/
theorem decode_eq_ok_iff_encode_eq_ok (bytes : List UInt8) (pack : Pack) :
    decode crc32c bytes = .ok pack ↔ encode crc32c pack = .ok bytes :=
  ⟨encode_of_decode, decode_of_encode⟩

end Codec

end Pack
end WbfMatrixClient
