import HvVerified.Lib.Runs
import HvVerified.Event.NioRead

/-!
# Reading once, until a length and until a delimiter

The requests `hio_read`, `hio_read_once`, `hio_read_until_length` and `hio_read_until_delim` on a stream
io without unpack setting. `read_cb` may make further requests, so the state holds the stack of the
calls that are suspended in the middle, and a step is what happens between two points at which user
code or the kernel is asked.
-/

namespace HvVerified.Event

open Lib

/-- What the next read is asked for. -/
inductive ReadMode where
  | plain
  | untilLength (n : Nat)
  | untilDelim (delim : UInt8)
  deriving DecidableEq, Repr

/-- A call of `read_cb`, with the request it answers. -/
structure Delivery where
  mode : ReadMode
  bytes : List UInt8
  deriving DecidableEq, Repr

/-- A function that is suspended while user code runs. -/
inductive ReadCall where
  /-- `hio_read_cb` in the call of `read_cb` with `len` bytes -/
  | readCb (len : Nat)
  /-- `hio_handle_read` before the readbuf autosize -/
  | handleRead
  /-- `nio_read` after `hio_handle_read`, when the read returned all that it had asked for or not -/
  | nioRead (full : Bool)
  deriving DecidableEq, Repr

/-- The io with the suspended calls, the innermost first. `again` says that `nio_read` is about to
    repeat its read, `received` are the bytes received and `deliveries` the calls of `read_cb` so far. -/
structure ReadIo where
  io : Hio
  ssl : Bool := false
  stack : List ReadCall := []
  again : Bool := false
  received : List UInt8 := []
  deliveries : List Delivery := []

/-- `hio_read_cb` up to the call of `read_cb`, which is left out on a closed io. -/
def deliver (s : ReadIo) (mode : ReadMode) (bytes : List UInt8) : ReadIo :=
  let io := hioReadCbEnter s.io
  if io.closed then { s with io := hioReadCbExit io bytes.length }
  else
    { s with
      io
      stack := .readCb bytes.length :: s.stack
      deliveries := s.deliveries ++ [{ mode, bytes }] }

/-! ## Requests -/

/-- The difference of two `size_t`. -/
def sizeSub (a b : Nat) : Nat := if b ≤ a then a - b else a + 2 ^ 64 - b

/-- An `int`, given by its unsigned value, converted to `size_t`. -/
def intToSize (n : Nat) : Nat := if n < 2 ^ 31 then n else n + (2 ^ 64 - 2 ^ 32)

variable (s : ReadIo)

/-- `hio_read`: what is left in the buffer is passed on if no other request is waiting. -/
def hioRead : ReadIo :=
  if s.io.closed then s
  else
    let io := { s.io with reading := true }
    if io.readbuf.tail > io.readbuf.head ∧ io.readFlags = {} then
      -- hio_read_remain
      deliver { s with io := { io with readbuf := { io.readbuf with head := 0, tail := 0 } } } .plain
        (slice io.readbuf.base io.readbuf.head io.readbuf.tail)
    else { s with io }

/-- `hio_read_once` -/
def hioReadOnce : ReadIo :=
  hioRead { s with io := { s.io with readFlags := { s.io.readFlags with once := true } } }

variable (io : Hio)

/-- `hio_read_until_length` when the buffer does not hold enough bytes, up to the preparation of the
    read buffer. -/
def armUntilLength (n : Nat) : Hio :=
  let io := { io with readFlags := { untilLength := true }, readUntilLength := n }
  if io.readbuf.head > 1024 ∨ sizeSub io.readbuf.tail io.readbuf.head < 1024 then hioMemmoveReadbuf io
  else io

/-- The buffer that `hio_read_until_length` needs, as an `unsigned int`. -/
def needLen (n : Nat) : Nat := (io.readbuf.head + n) % 2 ^ 32

/-- The preparation of the read buffer for an `int` number of bytes, given by its unsigned value. -/
def prepareReadbuf (len : Nat) : Except Halt Hio :=
  if io.kind = .loop ∨ io.readbuf.len < intToSize len then hioAllocReadbuf io len else .ok io

/-- `hio_read_until_length`, which is served at once if enough has been received. -/
def hioReadUntilLength (n : Nat) : Except Halt ReadIo :=
  if n = 0 then .ok s
  else if sizeSub s.io.readbuf.tail s.io.readbuf.head ≥ n then
    .ok (deliver { s with io := consume s.io n } (.untilLength n)
      (slice s.io.readbuf.base s.io.readbuf.head (s.io.readbuf.head + n)))
  else
    let io := armUntilLength s.io n
    (prepareReadbuf io (needLen io n)).map fun io => hioReadOnce { s with io }

/-- The search of `hio_read_until_delim`: it looks at the byte behind the buffered ones as well. -/
def findDelim (delim : UInt8) : Option Nat :=
  if io.readbuf.tail ≠ io.readbuf.head then
    (slice io.readbuf.base io.readbuf.head (io.readbuf.tail + 1)).findIdx? (· == delim)
  else none

/-- `hio_read_until_delim` when the delimiter is not found, up to the preparation of the read buffer. -/
def armUntilDelim (delim : UInt8) : Hio :=
  { io with readFlags := { untilDelim := true }, readUntilLength := delim.toNat }

/-- `hio_read_until_delim`, which is served at once if the delimiter has been received. -/
def hioReadUntilDelim (delim : UInt8) : Except Halt ReadIo :=
  match findDelim s.io delim with
  | some i =>
    .ok (deliver { s with io := consume s.io (i + 1) } (.untilDelim delim)
      (slice s.io.readbuf.base s.io.readbuf.head (s.io.readbuf.head + (i + 1))))
  | none =>
    (prepareReadbuf (armUntilDelim s.io delim) hloopReadBufsize).map fun io => hioReadOnce { s with io }

/-- The calls of user code. -/
inductive ReadOp where
  | hioRead
  | hioReadOnce
  | hioReadUntilLength (n : Nat)
  | hioReadUntilDelim (delim : UInt8)
  | hioReadStop
  | hioClose
  deriving DecidableEq

/-- A call of user code. -/
def callReadOp : ReadOp → Except Halt ReadIo
  | .hioRead => .ok (hioRead s)
  | .hioReadOnce => .ok (hioReadOnce s)
  | .hioReadUntilLength n => hioReadUntilLength s n
  | .hioReadUntilDelim delim => hioReadUntilDelim s delim
  | .hioReadStop => .ok { s with io := { s.io with reading := false } }
  | .hioClose => .ok { s with io := hioClose s.io }

/-! ## Receiving -/

/-- The request that is open. -/
def readMode : ReadMode :=
  if io.readFlags.untilLength then .untilLength io.readUntilLength
  else if io.readFlags.untilDelim then .untilDelim io.readUntilDelim
  else .plain

/-- `hio_handle_read` up to the call of `read_cb`, or up to the autosize. -/
def handleRead (s : ReadIo) (readbytes : Nat) : ReadIo :=
  match hioHandleReadPre s.io readbytes with
  | (io, none) => { s with io, stack := .handleRead :: s.stack }
  | (io, some (bytes, .autosize)) =>
    deliver { s with io, stack := .handleRead :: s.stack } (readMode s.io) bytes
  | (io, some (bytes, .leave)) => deliver { s with io } (readMode s.io) bytes

/-- `nio_read` from its read call on, for the answer `r` of the kernel. The assertion before the read
    ends the process. -/
def nioReadCall (r : RecvResult) : Option ReadIo :=
  if nioReadLen s.io ≤ 0 then none
  else
    match r with
    | .data seg =>
      if seg ≠ [] ∧ (seg.length : Int) ≤ nioReadLen s.io then
        some (handleRead
          { s with
            io := recvInto s.io seg
            again := false
            received := s.received ++ seg
            stack := .nioRead (seg.length = nioReadLen s.io) :: s.stack } seg.length)
      else none
    | .again => some { s with again := false }
    | .error => some { s with io := hioClose { s.io with error := .errno }, again := false }
    | .disconnect => some { s with io := hioClose s.io, again := false }

/-- `nio_read` reaches its read call. -/
def ReadIo.reads : Bool := s.stack.isEmpty && !s.io.closed && (s.io.reading || s.again)

/-- User code may call the io. -/
def ReadIo.inUserCode : Bool :=
  match s.stack with
  | [] => !s.again
  | .readCb _ :: _ => true
  | _ => false

/-- The steps. `loopReadbufUsed` is a read of another io, which uses the read buffer of the loop. -/
inductive ReadAct where
  | call (op : ReadOp)
  | recv (r : RecvResult)
  | ret
  | resume
  | closeEvent
  | loopReadbufUsed (base : Base.BytePtr)

/-- One step; none if the model has no result for it. -/
def readStep : ReadAct → Option ReadIo
  | .call op => if s.inUserCode then (callReadOp s op).toOption else none
  | .recv r => if s.reads then nioReadCall s r else none
  | .ret =>
    match s.stack with
    | .readCb len :: stack => some { s with io := hioReadCbExit s.io len, stack }
    | _ => none
  | .resume =>
    match s.stack with
    | .handleRead :: stack => (readbufAutosize s.io).toOption.map fun io => { s with io, stack }
    | .nioRead full :: stack => some { s with again := full && s.ssl && !s.io.closed, stack }
    | _ => none
  | .closeEvent =>
    if s.stack.isEmpty && !s.again && s.io.closeAsync then some { s with io := hioClose s.io } else none
  | .loopReadbufUsed base =>
    if s.stack.isEmpty && !s.again && s.io.kind = .loop then
      some { s with io := { s.io with readbuf := { s.io.readbuf with base } } }
    else none

/-- An io after `hio_ready`, with any read buffer: the one of the loop, one allocated by
    `hio_alloc_readbuf` (for an `int` size), or one set by `hio_set_readbuf`, and with any limit. -/
def ReadInit : Prop :=
  ∃ base len kind maxReadBufsize ssl, 0 < len ∧ (kind = .loop → len = hloopReadBufsize) ∧
    (kind = .alloced → len < 2 ^ 31) ∧
    s = { io := { hioReady with readbuf := { base, len, head := 0, tail := 0 }, kind, maxReadBufsize }, ssl }

end HvVerified.Event
