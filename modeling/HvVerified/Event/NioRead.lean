import HvVerified.Event.Unpack

/-!
# `event/nio.c`: `nio_read`, and `hio_handle_read`

One call of `nio_read` asks the kernel for at most `nioReadLen` bytes, appends what it gets to the
read buffer and hands it to `hio_handle_read`. On an SSL io a read that returned all it was asked
for is repeated at once; that is one more read here. `hio_handle_read` is cut where it calls
`read_cb`, since `read_cb` may call back into the io: `hioHandleReadPre` is what precedes the call,
`HandleReadRest` says what follows it.
-/

namespace HvVerified.Event

open Lib Base

/-- What `hio_handle_read` does when `read_cb` has returned. -/
inductive HandleReadRest where
  /-- Resize the read buffer. -/
  | autosize
  /-- Return at once, as the search for the delimiter does. -/
  | leave
  deriving DecidableEq, Repr

/-- `len` bytes at the head have been handed out. -/
def consume (io : Hio) (len : Nat) : Hio :=
  let head := io.readbuf.head + len
  if head = io.readbuf.tail then { io with readbuf := { io.readbuf with head := 0, tail := 0 } }
  else { io with readbuf := { io.readbuf with head := head } }

/-- `hio_handle_read` without unpack setting, up to the call of `hio_read_cb`, with the slice to
    pass on, if any. The last `readbytes` bytes before `tail` have just been received. -/
def hioHandleReadPre (io : Hio) (readbytes : Nat) : Hio × Option (List UInt8 × HandleReadRest) :=
  let sp := io.readbuf.head
  let ep := io.readbuf.tail
  let buf := io.readbuf.tail - readbytes
  if io.readFlags.untilLength then
    -- hio_read_until_length
    if ep - sp ≥ io.readUntilLength then
      let bytes := slice io.readbuf.base sp (sp + io.readUntilLength)
      ({ consume io io.readUntilLength with readFlags := { io.readFlags with untilLength := false } },
        some (bytes, .autosize))
    else (io, none)
  else if io.readFlags.untilDelim then
    -- hio_read_until_delim
    match (slice io.readbuf.base buf ep).findIdx? (· == io.readUntilDelim) with
    | some i =>
      let len := buf + i + 1 - sp
      let bytes := slice io.readbuf.base sp (sp + len)
      ({ consume io len with readFlags := { io.readFlags with untilDelim := false } },
        some (bytes, .leave))
    | none => (io, none)
  else
    -- hio_read
    ({ io with readbuf := { io.readbuf with head := 0, tail := 0 } },
      some (slice io.readbuf.base sp ep, .autosize))

/-- `hio_handle_read` -/
def hioHandleRead (fuel : Nat) (io : Hio) (readbytes : Nat) : Except Halt Hio :=
  match io.unpackSetting with
  | some setting => do
    let (io, _) ← hioUnpack fuel setting io readbytes
    readbufAutosize io
  | none =>
    match hioHandleReadPre io readbytes with
    | (io, none) => readbufAutosize io
    | (io, some (bytes, .autosize)) => readbufAutosize (hioReadCb io bytes)
    | (io, some (bytes, .leave)) => .ok (hioReadCb io bytes)

/-- What the kernel answers to a read: some bytes, `EAGAIN` or `EINTR`, another error, or the end
    of the stream. -/
inductive RecvResult where
  | data (seg : List UInt8)
  | again
  | error
  | disconnect

/-- `len` in `nio_read`: how many bytes are asked for, an `int`. -/
def nioReadLen (io : Hio) : Int :=
  if io.readFlags.untilLength then
    Int.bmod (io.readUntilLength - (io.readbuf.tail - io.readbuf.head : Int)) (2 ^ 32)
  else Int.bmod (io.readbuf.len - io.readbuf.tail : Int) (2 ^ 32)

/-- The received bytes are appended to the read buffer; when they are fewer than asked for, a zero
    byte is put behind them ("make string friendly"). -/
def recvInto (io : Hio) (seg : List UInt8) : Hio :=
  let base := store io.readbuf.base io.readbuf.tail seg
  let base :=
    if (seg.length : Int) < nioReadLen io then store base (io.readbuf.tail + seg.length) [0] else base
  { io with readbuf := { io.readbuf with base := base, tail := io.readbuf.tail + seg.length } }

/-- `nio_read` of a stream io, with one read and a `read_cb` that leaves the io alone. -/
def nioRead (fuel : Nat) (io : Hio) (r : RecvResult) : Except Halt Hio :=
  if nioReadLen io ≤ 0 then .error .abort
  else
    match r with
    | .data seg => hioHandleRead fuel (recvInto io seg) seg.length
    | .again => .ok io
    | .error => .ok (hioClose { io with error := .errno })
    | .disconnect => .ok (hioClose io)

/-- `nio_read` called once for each of the received segments. -/
def nioReads (fuel : Nat) (io : Hio) : List (List UInt8) → Except Halt Hio
  | [] => .ok io
  | seg :: segs => do
    let io ← nioRead fuel io (.data seg)
    nioReads fuel io segs

/-- Each segment is one that the read asking for it can return: it has at least one byte, and at
    most as many as were asked for. -/
def ReadsFit (fuel : Nat) (io : Hio) : List (List UInt8) → Prop
  | [] => True
  | seg :: segs =>
    seg ≠ [] ∧ (seg.length : Int) ≤ nioReadLen io ∧
      ∀ io', nioRead fuel io (.data seg) = .ok io' → ReadsFit fuel io' segs

end HvVerified.Event
