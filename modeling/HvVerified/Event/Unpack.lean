import HvVerified.Event.Hio
import HvVerified.Lib.Loop

/-!
# `event/unpack.c`: cutting the received bytes into packages

`hio_unpack` is called with the bytes `[head, tail)` of the read buffer, of which the last
`readbytes` have just been received. Each mode runs a loop that passes complete packages to
`read_cb`; what remains is moved to the start of the buffer, and the buffer is enlarged when the
package that is being received does not fit. The loops are given by their bodies, since not every
one of them is left.

`read_cb` is one that leaves the io alone: it neither closes it nor changes its setting.
-/

namespace HvVerified.Event

open Lib Base

/-- `DEFAULT_PACKAGE_MAX_LENGTH` -/
def defaultPackageMaxLength : UInt32 := 2097152

/-- `PACKAGE_MAX_DELIMITER_BYTES` -/
def packageMaxDelimiterBytes : Nat := 8

/-- What is left when a package loop is over: the io, the offset of the first byte that was not
    consumed, the number of bytes from there on, and the number of bytes handed out. -/
structure PackageLoop where
  io : Hio
  p : Nat
  remain : Nat
  handled : Nat

/-- The end of an unpack function: `readbuf` keeps the remaining bytes, at its start. -/
def keepRemain (io : Hio) (p remain : Nat) : Hio :=
  { io with readbuf := { io.readbuf with base := move io.readbuf.base 0 p remain, head := 0, tail := remain } }

/-! ## `hio_unpack_by_fixed_length` -/

/-- An iteration of `hio_unpack_by_fixed_length`. -/
def fixedLengthIter (fixedLength : Nat) (s : PackageLoop) : LoopStep PackageLoop PackageLoop :=
  if s.remain ≥ fixedLength then
    .next {
      io := hioReadCb s.io (slice s.io.readbuf.base s.p (s.p + fixedLength))
      p := s.p + fixedLength
      remain := s.remain - fixedLength
      handled := s.handled + fixedLength }
  else .done s

/-- The locals before the loop. -/
def packageLoopEntry (io : Hio) : PackageLoop :=
  { io := io, p := io.readbuf.head, remain := io.readbuf.tail - io.readbuf.head, handled := 0 }

/-- `hio_unpack_by_fixed_length` -/
def hioUnpackByFixedLength (fuel : Nat) (fixedLength : UInt32) (io : Hio) : Except Halt (Hio × Int) :=
  if io.readbuf.len < fixedLength.toNat then .error .abort
  else
    match loopRun (fixedLengthIter fixedLength.toNat) fuel (packageLoopEntry io) with
    | none => .error .outOfFuel
    | some s => .ok (keepRemain s.io s.p s.remain, s.handled)

/-! ## `hio_unpack_by_delimiter` -/

/-- The loop state of `hio_unpack_by_delimiter`: `sp` is the start of the current package, `p` the
    scan position and `remain` the bytes from `p` on. -/
structure DelimiterLoop where
  io : Hio
  sp : Nat
  p : Nat
  remain : Int
  handled : Nat

/-- The inner loop of `hio_unpack_by_delimiter`: whether the delimiter is at `p`. -/
def delimiterMatch (setting : DelimiterSetting) (p : BytePtr) : Bool :=
  (List.range setting.delimiterBytes.toNat).all fun i => p i == setting.delimiter i

/-- An iteration of `hio_unpack_by_delimiter`. -/
def delimiterIter (setting : DelimiterSetting) (s : DelimiterLoop) :
    LoopStep DelimiterLoop DelimiterLoop :=
  if s.remain ≥ setting.delimiterBytes.toNat then
    if delimiterMatch setting fun i => s.io.readbuf.base (s.p + i) then
      let p := s.p + setting.delimiterBytes.toNat
      .next {
        io := hioReadCb s.io (slice s.io.readbuf.base s.sp p)
        sp := p
        p := p
        remain := s.remain - setting.delimiterBytes.toNat
        handled := s.handled + (p - s.sp) }
    else .next { s with p := s.p + 1, remain := s.remain - 1 }
  else .done s

/-- The loop state on entry of `hio_unpack_by_delimiter`: the scan starts `delimiter_bytes - 1`
    bytes before the received ones, but not before the package. -/
def delimiterLoopEntry (setting : DelimiterSetting) (io : Hio) (readbytes : Nat) : DelimiterLoop :=
  let sp := io.readbuf.head
  let buf := io.readbuf.tail - readbytes
  let p := max sp (buf + 1 - setting.delimiterBytes.toNat)
  { io := io, sp := sp, p := p, remain := (io.readbuf.tail : Int) - p, handled := 0 }

/-- `hio_unpack_by_delimiter` -/
def hioUnpackByDelimiter (fuel : Nat) (setting : DelimiterSetting) (packageMaxLength : UInt32)
    (io : Hio) (readbytes : Nat) : Except Halt (Hio × Int) :=
  match loopRun (delimiterIter setting) fuel (delimiterLoopEntry setting io readbytes) with
  | none => .error .outOfFuel
  | some s =>
    let remain := io.readbuf.tail - s.sp
    let io := keepRemain s.io s.sp remain
    if remain ≠ 0 ∧ io.readbuf.tail = io.readbuf.len then
      if io.readbuf.len ≥ packageMaxLength.toNat then
        -- recv package over package_max_length bytes!
        .ok (hioClose { io with error := .overLimit }, -1)
      else do
        let newsize := min (io.readbuf.len * 2) packageMaxLength.toNat
        let io ← hioAllocReadbuf io (newsize % 2 ^ 32)
        .ok (io, s.handled)
    else .ok (io, s.handled)

/-! ## `hio_unpack_by_length_field` -/

/-- The outcome of reading the length field of a package. -/
inductive LengthField where
  /-- The field has not been received completely. -/
  | incomplete
  /-- "varint is too big!" -/
  | tooBig
  /-- "Unknown length_field_coding!" -/
  | unknownCoding
  /-- `head_len` and `body_len`. -/
  | ok (headLen bodyLen : UInt32)
  deriving DecidableEq

/-- The length field, with the first byte weighing most. -/
def bigEndianField (lp : BytePtr) (bytes : Nat) : UInt32 :=
  (List.range bytes).foldl (fun bodyLen i => (bodyLen <<< 8) ||| (lp i).toUInt32) 0

/-- With more than four bytes the source shifts by 32 and more, which is undefined; here the shift is modulo 32. -/
def littleEndianField (lp : BytePtr) (bytes : Nat) : UInt32 :=
  (List.range bytes).foldl (fun bodyLen i => bodyLen ||| ((lp i).toUInt32 <<< (i * 8).toUInt32)) 0

variable (setting : LengthFieldSetting)

/-- The outcome of reading a length field with `varint_decode` or `asn1_decode`. -/
def codedField (decoded : UInt64 × Int) : LengthField :=
  let (value, varintBytes) := decoded
  if varintBytes = 0 then .incomplete
  else if varintBytes = -1 then .tooBig
  else
    .ok (UInt32.ofInt (setting.bodyOffset.toNat + varintBytes - setting.lengthFieldBytes.toNat))
      value.toUInt32

/-- Read the length field at `lp`, where `avail` bytes have been received from `lp` on. -/
def readLengthField (lp : BytePtr) (avail : Int) : LengthField :=
  match setting.lengthFieldCoding with
  | .bigEndian =>
    .ok setting.bodyOffset.toUInt32 (bigEndianField lp setting.lengthFieldBytes.toNat)
  | .littleEndian =>
    .ok setting.bodyOffset.toUInt32 (littleEndianField lp setting.lengthFieldBytes.toNat)
  | .varint => codedField setting (varintDecode lp avail)
  | .asn1 => codedField setting (asn1Decode lp avail)
  | .unset | .other => .unknownCoding

/-- `package_len = head_len + body_len + setting->length_adjustment`, an `unsigned int`. -/
def packageLen (headLen bodyLen : UInt32) : UInt32 :=
  headLen + bodyLen + UInt32.ofInt setting.lengthAdjustment.toInt

/-- The loop state of `hio_unpack_by_length_field`; `package_len` is carried from one iteration to
    the next. -/
structure LengthFieldLoop extends PackageLoop where
  packageLen : UInt32

/-- One iteration of the loop of `hio_unpack_by_length_field`. The loop is left with an error when
    the length field is not valid. -/
def lengthFieldIter (s : LengthFieldLoop) :
    LoopStep LengthFieldLoop (LengthFieldLoop × IoError) :=
  if s.remain ≥ setting.bodyOffset.toNat then
    match readLengthField setting
        (fun i => s.io.readbuf.base (s.p + setting.lengthFieldOffset.toNat + i))
        (s.remain - setting.lengthFieldOffset.toNat) with
    | .incomplete => .done (s, .ok)
    | .tooBig => .done (s, .overLimit)
    | .unknownCoding => .done (s, .invalidParam)
    | .ok headLen bodyLen =>
      let len := packageLen setting headLen bodyLen
      if s.remain ≥ len.toNat then
        .next {
          io := hioReadCb s.io (slice s.io.readbuf.base s.p (s.p + len.toNat))
          p := s.p + len.toNat
          remain := s.remain - len.toNat
          handled := s.handled + len.toNat
          packageLen := len }
      else .done ({ s with packageLen := len }, .ok)
  else .done (s, .ok)

/-- The locals before the loop of `hio_unpack_by_length_field`. -/
def lengthFieldLoopEntry (io : Hio) : LengthFieldLoop :=
  { packageLoopEntry io with packageLen := setting.bodyOffset.toUInt32 }

/-- `LIMIT` -/
def limit (lower v upper : Nat) : Nat := if v < lower then lower else if v > upper then upper else v

/-- `hio_unpack_by_length_field` -/
def hioUnpackByLengthField (fuel : Nat) (setting : LengthFieldSetting) (packageMaxLength : UInt32)
    (io : Hio) : Except Halt (Hio × Int) :=
  match loopRun (lengthFieldIter setting) fuel (lengthFieldLoopEntry setting io) with
  | none => .error .outOfFuel
  | some (s, .ok) =>
    let io := keepRemain s.io s.p s.remain
    if s.remain ≠ 0 ∧ s.packageLen.toNat > io.readbuf.len then
      if s.packageLen > packageMaxLength then
        -- package length over package_max_length bytes!
        .ok (hioClose { io with error := .overLimit }, -1)
      else do
        let newsize := limit s.packageLen.toNat (io.readbuf.len * 2) packageMaxLength.toNat
        let io ← hioAllocReadbuf io (newsize % 2 ^ 32)
        .ok (io, s.handled)
    else .ok (io, s.handled)
  | some (s, e) => .ok (hioClose { s.io with error := e }, -1)

/-! ## `hio_unpack` and `hio_set_unpack` -/

/-- `hio_unpack` -/
def hioUnpack (fuel : Nat) (setting : UnpackSetting) (io : Hio) (readbytes : Nat) :
    Except Halt (Hio × Int) :=
  match setting.mode with
  | .byFixedLength fixedLength => hioUnpackByFixedLength fuel fixedLength io
  | .byDelimiter s => hioUnpackByDelimiter fuel s setting.packageMaxLength io readbytes
  | .byLengthField s => hioUnpackByLengthField fuel s setting.packageMaxLength io
  | .none =>
    let buf := io.readbuf.tail - readbytes
    .ok (hioReadCb io (slice io.readbuf.base buf (buf + readbytes)), readbytes)

/-- `strlen((char*)setting->delimiter)`, called when `delimiter_bytes` is 0: the member behind the
    array is then a zero byte, so that at most the array is read. -/
def delimiterStrlen (delimiter : BytePtr) : Nat :=
  ((List.range packageMaxDelimiterBytes).takeWhile fun i => delimiter i != 0).length

/-- The setting as `hio_set_unpack` completes it, with its assertions. -/
def completeSetting (setting : UnpackSetting) : Except Halt UnpackSetting :=
  let packageMaxLength :=
    if setting.packageMaxLength = 0 then defaultPackageMaxLength else setting.packageMaxLength
  match setting.mode with
  | .none => .ok { setting with packageMaxLength }
  | .byFixedLength fixedLength =>
    if fixedLength ≠ 0 ∧ fixedLength ≤ packageMaxLength then .ok { setting with packageMaxLength }
    else .error .abort
  | .byDelimiter s =>
    let delimiterBytes :=
      if s.delimiterBytes = 0 then (delimiterStrlen s.delimiter).toUInt16 else s.delimiterBytes
    .ok { mode := .byDelimiter { s with delimiterBytes }, packageMaxLength }
  | .byLengthField s =>
    if s.bodyOffset.toNat ≥ s.lengthFieldOffset.toNat + s.lengthFieldBytes.toNat then
      let lengthFieldCoding :=
        if s.lengthFieldCoding = .unset then .bigEndian else s.lengthFieldCoding
      .ok { mode := .byLengthField { s with lengthFieldCoding }, packageMaxLength }
    else .error .abort

/-- `hio_unset_unpack` -/
def hioUnsetUnpack (io : Hio) : Hio :=
  if io.unpackSetting.isSome then hioFreeReadbuf { io with unpackSetting := none } else io

/-- `hio_set_unpack` with a setting that is not `NULL`. -/
def hioSetUnpack (io : Hio) (setting : UnpackSetting) : Except Halt Hio := do
  let io := hioUnsetUnpack io
  let setting ← completeSetting setting
  -- unpack must have own readbuf
  let len :=
    match setting.mode with
    | .byFixedLength fixedLength => fixedLength.toNat
    | _ => min hloopReadBufsize setting.packageMaxLength.toNat
  hioAllocReadbuf
    { io with
      unpackSetting := some setting
      readbuf := { io.readbuf with len := len }
      maxReadBufsize := setting.packageMaxLength.toNat }
    len

/-! ## What a frame is, independent of how `hio_unpack_by_length_field` looks for it -/

/-- The delimiter. -/
def DelimiterSetting.bytes (setting : DelimiterSetting) : List UInt8 :=
  slice setting.delimiter 0 setting.delimiterBytes.toNat

/-- The byte string `c` codes the number `v` in the coding of the setting. -/
def CodeWord (c : List UInt8) (v : Nat) : Prop :=
  match setting.lengthFieldCoding with
  | .bigEndian => c.length = setting.lengthFieldBytes.toNat ∧ v = beValue c
  | .littleEndian => c.length = setting.lengthFieldBytes.toNat ∧ v = leValue c
  | .varint => IsVarint c v
  | .asn1 => IsAsn1 c v
  | .unset | .other => False

/-- A well-formed frame of at most `maxLen` bytes. -/
def IsFrame (maxLen : Nat) (f : List UInt8) : Prop :=
  ∃ pre c rest v, f = pre ++ c ++ rest ∧ pre.length = setting.lengthFieldOffset.toNat ∧
    CodeWord setting c v ∧
    (f.length : Int) = setting.bodyOffset.toNat + c.length - setting.lengthFieldBytes.toNat + v
      + setting.lengthAdjustment.toInt ∧
    setting.bodyOffset.toNat ≤ f.length ∧ f.length ≤ maxLen

/-- The beginning of a frame, without its end. -/
def IsFramePrefix (maxLen : Nat) (d : List UInt8) : Prop :=
  d = [] ∨ ∃ f, IsFrame setting maxLen f ∧ d <+: f ∧ d.length < f.length

end HvVerified.Event
