import HvVerified.Base.Hmath
import HvVerified.Lib.Memory

/-!
# `event/hevent.h`: the read side of `hio_t` and its read buffer

The fields of `hio_t` that the read path uses, and the functions of `event/hevent.c` that manage
the read buffer. Sizes are natural numbers; an `int` argument is passed as its unsigned 32-bit
value, so that the comparisons the code makes after the usual conversions are the ones made here.
-/

namespace HvVerified.Event

open Lib Base

/-! ## Unpack settings -/

/-- `unpack_coding_e`: how the length field is coded. `unset` is 0, which `hio_set_unpack` replaces
    by big-endian, and `other` is any value that is none of the enumerators. -/
inductive UnpackCoding where
  | unset
  | varint
  | littleEndian
  | bigEndian
  | asn1
  | other
  deriving DecidableEq, Repr

/-- The members of `unpack_setting_t` for `UNPACK_BY_LENGTH_FIELD`. -/
structure LengthFieldSetting where
  bodyOffset : UInt16
  lengthFieldOffset : UInt16
  lengthFieldBytes : UInt16
  lengthAdjustment : Int16
  lengthFieldCoding : UnpackCoding
  deriving DecidableEq

/-- The members of `unpack_setting_t` for `UNPACK_BY_DELIMITER`. `delimiter` is what the pointer
    `setting->delimiter` sees, of which the first `PACKAGE_MAX_DELIMITER_BYTES` belong to it. -/
structure DelimiterSetting where
  delimiter : BytePtr
  delimiterBytes : UInt16

/-- `unpack_mode_e`, with the settings of each mode. -/
inductive UnpackMode where
  | none
  | byFixedLength (fixedLength : UInt32)
  | byDelimiter (setting : DelimiterSetting)
  | byLengthField (setting : LengthFieldSetting)

/-- `unpack_setting_t` -/
structure UnpackSetting where
  mode : UnpackMode
  packageMaxLength : UInt32

/-! ## The io -/

/-- `HLOOP_READ_BUFSIZE` -/
def hloopReadBufsize : Nat := 8192

/-- `READ_BUFSIZE_HIGH_WATER` -/
def readBufsizeHighWater : Nat := 65536

/-- `MAX_READ_BUFSIZE` -/
def maxReadBufsizeDefault : Nat := 2 ^ 24

/-- `fifo_buf_t`: the bytes from `head` to `tail` have been received and not been consumed. -/
structure FifoBuf where
  base : BytePtr
  len : Nat
  head : Nat
  tail : Nat

/-- Which memory `readbuf.base` points to: the loop's shared buffer (`hio_is_loop_readbuf`), one
    allocated by `hio_alloc_readbuf` (`hio_is_alloced_readbuf`), or one of the caller
    (`hio_set_readbuf`, `hread`). -/
inductive ReadbufKind where
  | loop
  | alloced
  | user
  deriving DecidableEq, Repr

/-- The bits of `read_flags`. -/
structure ReadFlags where
  once : Bool := false
  untilLength : Bool := false
  untilDelim : Bool := false
  deriving DecidableEq, Repr

/-- The values of `error`, of which an `errno` is not told apart. -/
inductive IoError where
  | ok
  | overLimit
  | invalidParam
  | errno
  deriving DecidableEq, Repr

/-- The read side of `hio_t`. `reading` says whether `HV_READ` is in `io->events`, `closeAsync`
    whether `hio_close_async` has posted a close event, and `readCbs` are the slices passed to
    `read_cb` so far, the oldest first. -/
structure Hio where
  closed : Bool
  closeAsync : Bool
  error : IoError
  reading : Bool
  readbuf : FifoBuf
  kind : ReadbufKind
  readFlags : ReadFlags
  /-- The union of `read_until_length` and `read_until_delim`. -/
  readUntilLength : Nat
  maxReadBufsize : Nat
  smallReadbytesCnt : Nat
  unpackSetting : Option UnpackSetting
  readCbs : List (List UInt8)

variable (io : Hio)

/-- `read_until_delim`: the low byte of the union (little-endian host). -/
def Hio.readUntilDelim : UInt8 := io.readUntilLength.toUInt8

/-- The bytes of the read buffer that are not consumed yet, `[head, tail)`. -/
def Hio.buffered : List UInt8 := slice io.readbuf.base io.readbuf.head io.readbuf.tail

/-- The buffer that the ios of a loop share. -/
def loopReadbuf : FifoBuf := { base := fun _ => 0, len := hloopReadBufsize, head := 0, tail := 0 }

/-- An io after `hio_ready`. -/
def hioReady : Hio where
  closed := false
  closeAsync := false
  error := .ok
  reading := false
  readbuf := loopReadbuf
  kind := .loop
  readFlags := {}
  readUntilLength := 0
  maxReadBufsize := maxReadBufsizeDefault
  smallReadbytesCnt := 0
  unpackSetting := none
  readCbs := []

/-- Why a call does not return: a failed assertion, an allocation that cannot be served (`hv_malloc`
    then calls `exit`), or, in the model only, a loop bound that was too small. -/
inductive Halt where
  | abort
  | exit
  | outOfFuel
  deriving DecidableEq, Repr

/-! ## `iobuf` -/

/-- `hv_realloc`: the new cells of a larger block are zeroed. -/
def hvRealloc (base : BytePtr) (newsize oldsize : Nat) : BytePtr :=
  fun i => if oldsize ≤ i ∧ i < newsize then 0 else base i

/-- `hio_close_async`: a close event is posted to the loop. -/
def hioCloseAsync : Hio := { io with closeAsync := true }

/-- `hio_alloc_readbuf`. A negative `int` is a size that `malloc` cannot serve. -/
def hioAllocReadbuf (len : Nat) : Except Halt Hio :=
  if len > io.maxReadBufsize then
    .ok (hioCloseAsync { io with error := .overLimit })
  else if 2 ^ 31 ≤ len then
    .error .exit
  else
    let base := if io.kind = .alloced then hvRealloc io.readbuf.base len io.readbuf.len else fun _ => 0
    .ok { io with
      readbuf := { io.readbuf with base := base, len := len }
      kind := .alloced
      smallReadbytesCnt := 0 }

/-- `hio_free_readbuf`: the io reads into the shared buffer again. -/
def hioFreeReadbuf : Hio :=
  if io.kind = .alloced then
    { io with
      readbuf := { io.readbuf with base := loopReadbuf.base, len := loopReadbuf.len }
      kind := .loop }
  else io

/-- `hio_memmove_readbuf`: what is left is moved to the front. -/
def hioMemmoveReadbuf : Hio :=
  let buf := io.readbuf
  if buf.tail = buf.head then
    { io with readbuf := { buf with head := 0, tail := 0 } }
  else if buf.tail > buf.head then
    let size := buf.tail - buf.head
    { io with readbuf := { buf with base := move buf.base 0 buf.head size, head := 0, tail := size } }
  else io

/-- `hio_close` on the read side, with the write queue empty or `io->error` set: `hio_done` stops
    the events and frees the read buffer. -/
def hioClose : Hio :=
  if io.closed then io else { hioFreeReadbuf io with closed := true, reading := false }

/-! ## `hio_read_cb` -/

/-- `hio_read_cb` up to the call of `read_cb`: a one-shot read stops reading. -/
def hioReadCbEnter : Hio :=
  if io.readFlags.once then
    { io with readFlags := { io.readFlags with once := false }, reading := false }
  else io

/-- The user's `read_cb`, if the io is still open. -/
def callReadCb (bytes : List UInt8) : Hio :=
  if io.closed then io else { io with readCbs := io.readCbs ++ [bytes] }

/-- `hio_read_cb` after `read_cb` returned, for a slice of `len` bytes: the counter of the read
    buffer's autosize. -/
def hioReadCbExit (len : Nat) : Hio :=
  if io.kind = .alloced ∧ io.readbuf.len > readBufsizeHighWater then
    if len < io.readbuf.len / 2 then
      { io with smallReadbytesCnt := io.smallReadbytesCnt + 1 }
    else { io with smallReadbytesCnt := 0 }
  else io

/-- `hio_read_cb` -/
def hioReadCb (bytes : List UInt8) : Hio :=
  hioReadCbExit (callReadCb (hioReadCbEnter io) bytes) bytes.length

/-! ## `hio_handle_read` -/

/-- The end of `hio_handle_read`: the buffer is emptied, doubled, moved or halved. -/
def readbufAutosize : Except Halt Hio :=
  let io :=
    if io.readbuf.head = io.readbuf.tail then
      { io with readbuf := { io.readbuf with head := 0, tail := 0 } }
    else io
  if io.readbuf.tail = io.readbuf.len then
    if io.readbuf.head = 0 then
      -- scale up * 2
      hioAllocReadbuf io (io.readbuf.len * 2 % 2 ^ 32)
    else .ok (hioMemmoveReadbuf io)
  else
    let smallSize := io.readbuf.len / 2
    if io.readbuf.tail < smallSize ∧ io.smallReadbytesCnt ≥ 3 then
      -- scale down / 2
      hioAllocReadbuf io (smallSize % 2 ^ 32)
    else .ok io

end HvVerified.Event
