import HvVerified.Http.Reserve
import HvVerified.Lib.Wire

/-!
# `http/websocket_parser.c`, `http/WebSocketParser.cpp`, `http/WebSocketChannel.cpp`: frames

The receiver gets the bytes of a connection in pieces. `websocket_parser_execute` finds the frames in them
and calls back for each header, each piece of a payload and each end of a frame; `WebSocketParser` puts
the messages together. A `reserve` beyond the largest size of a string throws: then there is no result.
Frames are shorter than 2 ^ 63, so that the pointer to their end does not wrap around. The sender cuts its
messages into frames; its writes succeed.
-/

namespace HvVerified.Http

open Base Lib

/-! ## `websocket_parser` -/

/-- The states of `websocket_parser`. -/
inductive WsState where
  | start
  | head
  | length
  | mask
  | body
  deriving DecidableEq, Repr

/-- A masking key. -/
abbrev WsMask := Fin 4 → UInt8

scoped instance maskLength : NeZero 4 := ⟨by decide⟩

/-- `websocket_parser`, with the parts of `flags` as fields of their own -/
structure WebsocketParser where
  state : WsState := .start
  opcode : Nat := 0
  fin : Bool := false
  hasMask : Bool := false
  mask : WsMask := fun _ => 0
  maskOffset : Nat := 0
  length : Nat := 0
  require : Nat := 0

variable (parser : WebsocketParser)

/-- `websocket_parser_decode` -/
def websocketParserDecode (src : List UInt8) : List UInt8 × WebsocketParser :=
  (xorKey parser.mask parser.maskOffset src,
    { parser with maskOffset := (src.length + parser.maskOffset) % 4 })

/-! ## `WebSocketParser` -/

/-- `websocket_parser_state` -/
inductive WsFrameState where
  | frameBegin
  | frameHeader
  | frameBody
  | frameEnd
  | frameFin
  deriving DecidableEq, Repr

/-- `WebSocketParser`, and the calls of `onMessage` so far. -/
structure WebSocketParser where
  parser : WebsocketParser := {}
  state : WsFrameState := .frameBegin
  opcode : Nat := 8
  message : ByteString := []
  received : List (Nat × ByteString) := []

/-- The largest length of a `std::string`. -/
def maxStringSize : Nat := 2 ^ 63 - 1

variable (wp : WebSocketParser)

/-- `on_frame_header`. A size above `maxStringSize` is above the capacity of the string, too. -/
def onFrameHeader : Option WebSocketParser := do
  let reserve ← reserveLength maxPayloadLength wp.parser.length
  if reserve > maxStringSize then none
  else some { wp with
    opcode := if wp.parser.opcode ≠ 0 then wp.parser.opcode else wp.opcode
    message := if wp.state = .frameBegin ∨ wp.state = .frameFin then [] else wp.message
    state := .frameHeader }

/-- `on_frame_body` -/
def onFrameBody (at_ : List UInt8) : WebSocketParser :=
  let wp := { wp with state := .frameBody }
  if wp.parser.hasMask then
    let (decoded, parser) := websocketParserDecode wp.parser at_
    { wp with parser, message := wp.message ++ decoded }
  else { wp with message := wp.message ++ at_ }

/-- `on_frame_end` -/
def onFrameEnd : WebSocketParser :=
  if wp.parser.fin then
    { wp with state := .frameFin, received := wp.received ++ [(wp.opcode, wp.message)] }
  else { wp with state := .frameEnd }

/-! ## `websocket_parser_execute` -/

/-- The first byte of a frame. -/
def startByte (c : UInt8) : WebSocketParser :=
  { wp with parser := { wp.parser with
    length := 0
    maskOffset := 0
    opcode := c.toNat % 16
    fin := 128 ≤ c.toNat
    hasMask := false
    state := .head } }

/-- The end of a header. -/
def headerDone : Option WebSocketParser :=
  if wp.parser.length ≠ 0 then
    onFrameHeader { wp with parser := { wp.parser with state := .body, require := wp.parser.length } }
  else (onFrameHeader { wp with parser := { wp.parser with state := .start } }).map onFrameEnd

/-- The end of the length field. -/
def lengthDone : Option WebSocketParser :=
  if wp.parser.hasMask then some { wp with parser := { wp.parser with state := .mask, require := 4 } }
  else headerDone wp

/-- The second byte of a frame. -/
def headByte (c : UInt8) : Option WebSocketParser :=
  let parser := { wp.parser with length := c.toNat % 128, hasMask := wp.parser.hasMask || 128 ≤ c.toNat }
  if parser.length ≥ 126 then
    some { wp with parser := { parser with
      require := if parser.length = 127 then 8 else 2
      length := 0
      state := .length } }
  else lengthDone { wp with parser }

/-- A byte of the length field. -/
def lengthByte (c : UInt8) : WebsocketParser :=
  { parser with length := (parser.length * 256 + c.toNat) % 2 ^ 64, require := parser.require - 1 }

/-- A byte of the masking key. -/
def maskByte (c : UInt8) : WebsocketParser :=
  { parser with
    mask := Function.update parser.mask (Fin.ofNat 4 (4 - parser.require)) c
    require := parser.require - 1 }

/-- The loops of `s_length` and `s_mask`: the parser and the bytes that are left. -/
def requireLoop (byte : WebsocketParser → UInt8 → WebsocketParser) (parser : WebsocketParser) :
    List UInt8 → WebsocketParser × List UInt8
  | [] => (parser, [])
  | c :: rest =>
    if parser.require ≠ 0 then requireLoop byte (byte parser c) rest else (parser, c :: rest)

/-- The first part of `s_body`: as much of the payload as is there. -/
def bodyBytes (data : List UInt8) : WebSocketParser × List UInt8 :=
  let n := min wp.parser.require data.length
  let wp := onFrameBody wp (data.take n)
  ({ wp with parser := { wp.parser with require := wp.parser.require - n } }, data.drop n)

/-- The end of a body. -/
def bodyDone : WebSocketParser :=
  onFrameEnd { wp with parser := { wp.parser with state := .start } }

/-- The loop of `websocket_parser_execute`. Every round takes a byte, so that there are at most as many
    rounds as bytes. -/
def executeLoop : Nat → WebSocketParser → List UInt8 → Option WebSocketParser
  | _, wp, [] => some wp
  | 0, wp, _ :: _ => some wp
  | n + 1, wp, c :: rest =>
    match wp.parser.state with
    | .start => executeLoop n (startByte wp c) rest
    | .head => (headByte wp c).bind fun wp => executeLoop n wp rest
    | .length =>
      let (parser, rest) := requireLoop lengthByte wp.parser (c :: rest)
      if parser.require = 0 then (lengthDone { wp with parser }).bind fun wp => executeLoop n wp rest
      else executeLoop n { wp with parser } rest
    | .mask =>
      let (parser, rest) := requireLoop maskByte wp.parser (c :: rest)
      if parser.require = 0 then (headerDone { wp with parser }).bind fun wp => executeLoop n wp rest
      else executeLoop n { wp with parser } rest
    | .body =>
      if wp.parser.require ≠ 0 then
        let (wp, rest) := bodyBytes wp (c :: rest)
        executeLoop n (if wp.parser.require = 0 then bodyDone wp else wp) rest
      else executeLoop n (bodyDone wp) rest

/-- `FeedRecvData` -/
def feedRecvData (data : List UInt8) : Option WebSocketParser :=
  executeLoop data.length wp data

/-! ## The sender -/

/-- `ws_opcode` -/
inductive WsOpcode where
  | continuation
  | text
  | binary
  | close
  | ping
  | pong
  deriving DecidableEq, Repr

/-- The number of an opcode. -/
def WsOpcode.code : WsOpcode → Nat
  | .continuation => 0
  | .text => 1
  | .binary => 2
  | .close => 8
  | .ping => 9
  | .pong => 10

/-- `websocket_calc_frame_size` -/
def wsCalcFrameSize (dataLen : Nat) (hasMask : Bool) : Nat :=
  dataLen + 2 + (if dataLen ≥ 126 then if dataLen > 0xFFFF then 8 else 2 else 0) + if hasMask then 4 else 0

/-- `websocket_build_frame` -/
def websocketBuildFrame (opcode : Nat) (fin hasMask : Bool) (mask : WsMask) (data : List UInt8) : List UInt8 :=
  let frame0 : UInt8 := (if fin then 0x80 else 0) ||| UInt8.ofNat (opcode % 16)
  let frame1 : UInt8 := if hasMask then 0x80 else 0
  let dataLen := data.length
  let head :=
    if dataLen < 126 then [frame0, frame1 ||| UInt8.ofNat dataLen]
    else if dataLen ≤ 0xFFFF then
      [frame0, frame1 ||| 126, UInt8.ofNat (dataLen >>> 8), UInt8.ofNat dataLen]
    else
      [frame0, frame1 ||| 127, UInt8.ofNat (dataLen >>> 56), UInt8.ofNat (dataLen >>> 48),
        UInt8.ofNat (dataLen >>> 40), UInt8.ofNat (dataLen >>> 32), UInt8.ofNat (dataLen >>> 24),
        UInt8.ofNat (dataLen >>> 16), UInt8.ofNat (dataLen >>> 8), UInt8.ofNat dataLen]
  head ++ if hasMask then [mask 0, mask 1, mask 2, mask 3] ++ xorKey mask 0 data else data

/-- `ws_session_type` -/
inductive WsSessionType where
  | client
  | server
  deriving DecidableEq, Repr

/-- `WebSocketChannel` -/
structure WebSocketChannel where
  type : WsSessionType
  sendbuf : List UInt8 := []
  rands : Nat := 0

section Send

variable (rand : Nat → WsMask) (channel : WebSocketChannel)

/-- `WebSocketChannel::sendFrame`: the bytes that are written. The buffer has been enlarged to hold them. -/
def WebSocketChannel.sendFrame (buf : List UInt8) (opcode : WsOpcode) (fin : Bool) :
    WebSocketChannel × List UInt8 :=
  let hasMask : Bool := channel.type = .client
  let mask := if hasMask then rand channel.rands else fun _ => 0
  let frameSize := wsCalcFrameSize buf.length hasMask
  let frame := websocketBuildFrame opcode.code fin hasMask mask buf
  let sendbuf := frame ++ channel.sendbuf.drop frame.length
  ({ channel with sendbuf, rands := if hasMask then channel.rands + 1 else channel.rands },
    sendbuf.take frameSize)

/-- The loop over the fragments behind the first one, and the last fragment. -/
def WebSocketChannel.sendRest (fragment : Nat) : Nat → WebSocketChannel → List UInt8 → WebSocketChannel × List UInt8
  | 0, channel, p => sendFrame rand channel p .continuation true
  | n + 1, channel, p =>
    if p.length > fragment then
      let (channel, sent) := sendFrame rand channel (p.take fragment) .continuation false
      let (channel, rest) := sendRest fragment n channel (p.drop fragment)
      (channel, sent ++ rest)
    else sendFrame rand channel p .continuation true

/-- `WebSocketChannel::send` with a fragment size. There are less rounds than bytes. -/
def WebSocketChannel.sendFragments (buf : List UInt8) (fragment : Nat) (opcode : WsOpcode) :
    WebSocketChannel × List UInt8 :=
  if buf.length ≤ fragment then sendFrame rand channel buf opcode true
  else
    let (channel, sent) := sendFrame rand channel (buf.take fragment) opcode false
    let (channel, rest) := sendRest rand fragment buf.length channel (buf.drop fragment)
    (channel, sent ++ rest)

/-- `send` with an opcode -/
def WebSocketChannel.send (buf : List UInt8) (opcode : WsOpcode) (fin : Bool) :
    WebSocketChannel × List UInt8 :=
  if buf.length > 0xFFFF then sendFragments rand channel buf 0xFFFF opcode
  else sendFrame rand channel buf opcode fin

/-- Messages, sent one after the other. -/
def WebSocketChannel.sendAll (channel : WebSocketChannel) : List (WsOpcode × ByteString) → WebSocketChannel × List UInt8
  | [] => (channel, [])
  | (opcode, buf) :: messages =>
    let (channel, sent) := send rand channel buf opcode true
    let (channel, rest) := sendAll channel messages
    (channel, sent ++ rest)

/-- A message in several buffers: one call of `send` for each, the last one with `fin`. -/
def WebSocketChannel.sendStream (channel : WebSocketChannel) (opcode : WsOpcode) :
    List ByteString → WebSocketChannel × List UInt8
  | [] => (channel, [])
  | buf :: bufs =>
    let (channel, sent) := send rand channel buf opcode bufs.isEmpty
    let (channel, rest) := sendStream channel .continuation bufs
    (channel, sent ++ rest)

end Send

end HvVerified.Http
