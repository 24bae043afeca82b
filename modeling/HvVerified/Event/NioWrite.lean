import HvVerified.Lib.Runs

/-!
# `event/nio.c`: the write side and the closing of a stream io

`write_cb` and `close_cb` are called in the middle of the functions below and may call back into the
io. A function is therefore cut where it calls one of them: the state keeps the calls that have not
returned (`stack`), and `ret` continues the innermost of them. While a callback runs, and between the
events of the loop, the user may call `hio_write` and `hio_close`; the loop itself delivers writable
events, the close timeout and posted close events when no call is pending.

One opening of the io is modelled, from `hio_ready` on, in the thread of its loop.
-/

namespace HvVerified.Event

open Lib

/-- `offset_buf_t`. `base` identifies the allocation; `bytes` are its `len` bytes. -/
structure OffsetBuf where
  base : Nat
  bytes : List UInt8
  offset : Nat
  deriving DecidableEq

/-- The part of a queued buffer that has not been sent. -/
def OffsetBuf.unsent (b : OffsetBuf) : List UInt8 := b.bytes.drop b.offset

/-- The callback in which a function of the io is suspended. -/
inductive WriteCall where
  /-- `hio_write4` in `write_cb`. -/
  | hioWrite
  /-- `nio_write` in `write_cb`, for the buffer `base`; `full` says whether it is written completely. -/
  | nioWrite (base : Nat) (full : Bool)
  /-- `hio_close` in `close_cb`. -/
  | hioClose
  deriving DecidableEq

/-- The write side of `hio_t`. The fields from `stack` on are not in the source: the pending calls, and
    the history of the opening. -/
structure WriteIo where
  ready : Bool
  closed : Bool
  /-- `io->close`: a close was deferred. -/
  close : Bool
  /-- `io->error` is not 0. -/
  error : Bool
  /-- `HV_WRITE` is in `io->events`. -/
  writing : Bool
  writeQueue : List OffsetBuf
  writeBufsize : Nat
  maxWriteBufsize : Nat
  closeTimer : Bool
  /-- The close events that `hio_close_async` has posted and the loop has not handled. -/
  closeEvents : Nat
  stack : List WriteCall
  /-- The next allocation. -/
  nextBase : Nat
  /-- The allocations given to `HV_FREE`, in order. -/
  released : List Nat
  /-- `pop_front` was called on an empty queue: its assertion failed. -/
  popEmpty : Bool
  /-- How often `close_cb` was called. -/
  closeCbs : Nat
  /-- The bytes that the kernel has accepted. -/
  accepted : List UInt8
  /-- The buffers passed to `hio_write`. -/
  calls : List (List UInt8)
  /-- Some `hio_write` has returned a negative value. -/
  failed : Bool

/-- An io after `hio_ready`. -/
def writeReady (maxWriteBufsize : Nat) : WriteIo where
  ready := true
  closed := false
  close := false
  error := false
  writing := false
  writeQueue := []
  writeBufsize := 0
  maxWriteBufsize := maxWriteBufsize
  closeTimer := false
  closeEvents := 0
  stack := []
  nextBase := 0
  released := []
  popEmpty := false
  closeCbs := 0
  accepted := []
  calls := []
  failed := false

/-- What the kernel answers to a write: how many bytes it accepts, `EAGAIN` or `EINTR`, or another
    error. -/
inductive SendResult where
  | wrote (n : Nat)
  | again
  | error
  deriving DecidableEq

/-! ## Closing -/

variable (io : WriteIo)

/-- `hio_done`, for the write queue. -/
def hioDone : WriteIo :=
  if io.ready then
    { io with
      ready := false
      writing := false
      released := io.released ++ io.writeQueue.map OffsetBuf.base
      writeQueue := [] }
  else io

/-- `hio_close` on the write side, up to the call of `close_cb` if the io is closed. -/
def hioCloseWrite : WriteIo :=
  if io.closed then io
  else if io.writeQueue ≠ [] ∧ io.error = false ∧ io.close = false then
    -- write_queue not empty, close later.
    { io with close := true, closeTimer := true }
  else
    let io := hioDone { io with closed := true }
    { io with closeTimer := false, closeCbs := io.closeCbs + 1, stack := .hioClose :: io.stack }

/-- `hio_close_async` -/
def postClose : WriteIo := { io with closeEvents := io.closeEvents + 1 }

/-! ## `nio_write` -/

/-- `nio_write` from the label `write` on, up to the call of a callback. The kernel's answer is for the
    write of the first buffer, if there is one; `none` if it is not a possible answer. -/
def nioWrite (io : WriteIo) (r : SendResult) : Option WriteIo :=
  match io.writeQueue with
  | [] => some (if io.close then hioCloseWrite { io with close := false } else io)
  | pbuf :: queue =>
    let len := pbuf.bytes.length - pbuf.offset
    match r with
    | .again => some io
    | .error => some (hioCloseWrite { io with error := true })
    | .wrote n =>
      if n > len then none
      else if n = 0 then some (hioCloseWrite io)
      else
        some { io with
          writeQueue := { pbuf with offset := pbuf.offset + n } :: queue
          writeBufsize := io.writeBufsize - n
          accepted := io.accepted ++ pbuf.unsent.take n
          stack := .nioWrite pbuf.base (n = len) :: io.stack }

/-- `nio_write` after `write_cb` has returned. -/
def nioWriteRest (base : Nat) (full : Bool) (r : SendResult) : Option WriteIo :=
  if full then
    let io := { io with released := io.released ++ [base] }
    match io.writeQueue with
    | [] => some { io with popEmpty := true }
    | _ :: queue =>
      let io := { io with writeQueue := queue }
      if io.closed then some io else nioWrite io r
  else some io

/-! ## `hio_write` -/

/-- The end of `hio_write4` for an error. -/
def hioWriteFail : WriteIo := { postClose io with failed := true }

/-- The end of `hio_write4` from the test `nwrite < len` on: what was not written is enqueued, and
    `write_cb` is called if something was written. -/
def hioWriteRest (buf : List UInt8) (nwrite : Nat) : WriteIo :=
  if nwrite < buf.length then
    let unwritten := buf.drop nwrite
    if io.writeBufsize + unwritten.length > io.maxWriteBufsize then
      hioWriteFail { io with error := true }
    else
      { io with
        writeQueue := io.writeQueue ++ [{ base := io.nextBase, bytes := unwritten, offset := 0 }]
        nextBase := io.nextBase + 1
        writeBufsize := io.writeBufsize + unwritten.length
        stack := if nwrite > 0 then .hioWrite :: io.stack else io.stack }
  else { io with stack := if nwrite > 0 then .hioWrite :: io.stack else io.stack }

/-- `hio_write` on a stream io. -/
def hioWrite (buf : List UInt8) (r : SendResult) : Option WriteIo :=
  let io := { io with calls := io.calls ++ [buf] }
  if io.closed then some { io with failed := true }
  else if io.writeQueue = [] then
    match r with
    | .again => some (hioWriteRest { io with writing := true } buf 0)
    | .error => some (hioWriteFail { io with error := true })
    | .wrote n =>
      if n > buf.length then none
      else
        let io := { io with accepted := io.accepted ++ buf.take n }
        if n = buf.length then some (hioWriteRest io buf n)
        else if n = 0 then some (hioWriteFail io)
        else some (hioWriteRest { io with writing := true } buf n)
  else some (hioWriteRest io buf 0)

/-! ## Steps -/

/-- A call, or a step of the loop. -/
inductive WriteAct where
  | write (buf : List UInt8) (r : SendResult)
  | close
  | closeAsync
  /-- The running callback returns; the answer is for the next write of `nio_write`. -/
  | ret (r : SendResult)
  /-- The loop handles a writable event. -/
  | writable (r : SendResult)
  /-- The close timer expires. -/
  | closeTimeout
  /-- The loop handles a posted close event. -/
  | closeEvent

/-- `hio_handle_events` with `HV_WRITE` in `io->revents`. -/
def handleWritable (r : SendResult) : Option WriteIo :=
  if io.writing then
    nioWrite (if io.writeQueue = [] then { io with writing := false } else io) r
  else some io

/-- One step; none once an empty queue has been popped. -/
def writeStep (act : WriteAct) : Option WriteIo :=
  if io.popEmpty then none
  else
    match act with
    | .write buf r => hioWrite io buf r
    | .close => some (hioCloseWrite io)
    | .closeAsync => some (postClose io)
    | .ret r =>
      match io.stack with
      | [] => none
      | .hioWrite :: stack => some { io with stack := stack }
      | .hioClose :: stack => some { io with stack := stack }
      | .nioWrite base full :: stack => nioWriteRest { io with stack := stack } base full r
    | .writable r => if io.stack = [] then handleWritable io r else none
    | .closeTimeout =>
      -- __close_timeout_cb
      if io.stack = [] ∧ io.closeTimer then
        some (hioCloseWrite { io with closeTimer := false, error := true })
      else none
    | .closeEvent =>
      -- hio_close_event_cb
      if io.stack = [] ∧ 0 < io.closeEvents then
        some (hioCloseWrite { io with closeEvents := io.closeEvents - 1 })
      else none

/-- The ios in which runs begin. -/
def WriteInit : Prop := ∃ maxWriteBufsize, io = writeReady maxWriteBufsize

end HvVerified.Event
