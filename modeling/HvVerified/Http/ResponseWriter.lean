import HvVerified.Http.Message

/-!
# `http/server/HttpResponseWriter.h`, `http/server/HttpResponseWriter.cpp`: writing a response

The calls of `HttpResponseWriter` from `Begin` to `End`. Each call is given the text of the time at
which it is made, which `HttpResponse::Dump` puts into the `Date` header. The results of the calls,
which only report what `hio_write` returns, and the file transfer of `ResponseFile` are left out.
-/

namespace HvVerified.Http

open Base
open Lib (crlf hex)

/-- `HttpResponseWriter::State` -/
inductive SendState where
  | begin
  | header
  | body
  | chunked
  | chunkedEnd
  | ended
  deriving DecidableEq, Repr

/-- An `HttpResponseWriter`. `endState` is the field `end`, `connected` says that the channel is
    connected, and `out` is what has been written to it. -/
structure HttpResponseWriter where
  state : SendState
  endState : SendState
  response : HttpMessage
  connected : Bool
  out : List Part

/-- A new writer. -/
def newWriter (response : HttpMessage) : HttpResponseWriter := ⟨.begin, .begin, response, true, []⟩

/-- The argument of `WriteResponse`. -/
inductive ResponseArg where
  | null
  /-- the writer's own `response` -/
  | own
  | other (resp : HttpMessage)

variable (w : HttpResponseWriter) (date : ByteString)

namespace HttpResponseWriter

/-- The parts reach the peer of an open connection. -/
def write (parts : List Part) : HttpResponseWriter :=
  if w.connected then { w with out := w.out ++ parts } else w

/-- `Begin` -/
def sendBegin : HttpResponseWriter := { w with state := .begin, endState := .begin }

/-- `WriteStatus` -/
def writeStatus (statusCode : Nat) : HttpResponseWriter :=
  { w with response := { w.response with type := .response statusCode } }

/-- `WriteHeader`, and `SetHeader` of the response -/
def writeHeader (key value : ByteString) : HttpResponseWriter :=
  { w with response := w.response.setHeader key value }

/-- `WriteCookie` -/
def writeCookie (cookie : HttpCookie) : HttpResponseWriter :=
  { w with response := { w.response with cookies := w.response.cookies ++ [cookie] } }

/-- `EndHeaders` -/
def endHeaders (header : Option (ByteString × ByteString)) :
    HttpResponseWriter :=
  if w.state ≠ .begin then w
  else
    let response := header.elim w.response fun h => w.response.setHeader h.1 h.2
    -- the header is removed from the text only, the response keeps it
    let headers := eraseFirst (ascii "Content-Length: 0\r\n") (response.dumpHead date true)
    { w with state := .header, response := response.dumped date true false }.write [.head true headers]

/-- The number of bytes that an `int` argument `len` stands for. Strings of `2 ^ 31` bytes and more,
    for which `len` is negative or cut off, are outside of the results. -/
def intLen (buf : ByteString) : Nat := buf.length % 2 ^ 32

/-- The bytes that `WriteChunked` is given; `none` is the null pointer with length zero of `EndChunked`. -/
def chunkData (buf : Option ByteString) : ByteString := buf.elim [] fun bytes => bytes.take (intLen bytes)

/-- `WriteChunked(buf, len)` -/
def writeChunked (buf : Option ByteString) : HttpResponseWriter :=
  let w := if w.state = .begin then
      w.endHeaders date (some (ascii "Transfer-Encoding", ascii "chunked")) else w
  let data := chunkData buf
  let w := w.write [.body (hex data.length ++ crlf)]
  let w := if data ≠ [] then { w with state := .chunked }.write [.body data] else { w with state := .chunkedEnd }
  w.write [.body crlf]

/-- `EndChunked` -/
def endChunked : HttpResponseWriter := w.writeChunked date none

/-- `WriteBody` -/
def writeBody (date buf : ByteString) : HttpResponseWriter :=
  if w.response.isChunked then w.writeChunked date (some buf)
  else if w.state = .begin then
    { w with response := { w.response with body := w.response.body ++ buf.take (intLen buf) } }
  else { w with state := .body }.write [.body (buf.take (intLen buf))]

/-- `WriteResponse` -/
def writeResponse (resp : ResponseArg) : HttpResponseWriter :=
  let isDumpHeaders := decide (w.state = .begin)
  match resp with
  | .null => w.writeStatus 500
  | .own =>
    { w with state := .body, response := w.response.dumped date isDumpHeaders true }.write
      (w.response.dump date isDumpHeaders true)
  | .other resp => { w with state := .body }.write (resp.dump date isDumpHeaders true)

/-- `SSEvent` -/
def ssEvent (date data : ByteString) (event : Option ByteString) : HttpResponseWriter :=
  let w := if w.state = .begin then
      w.endHeaders date (some (ascii "Content-Type", ascii "text/event-stream")) else w
  let msg := event.elim [] (fun name => ascii "event: " ++ name ++ ascii "\n") ++ ascii "data: " ++ data ++
    ascii "\n\n"
  { w with state := .body }.write [.body msg]

/-- `End` of a chunked response -/
def endOfChunks (buf : Option ByteString) : HttpResponseWriter :=
  let w := buf.elim w fun bytes => w.writeChunked date (some bytes)
  if w.state = .chunked then w.endChunked date else w

/-- The part of `End` that writes, in the other states: what has not been sent is dumped. -/
def endOfBody (buf : Option ByteString) : HttpResponseWriter :=
  let w := buf.elim w (w.writeBody date)
  if w.state = .body then w
  else
    let isDumpHeaders := decide (w.state ≠ .header)
    { w with state := .body, response := w.response.dumped date isDumpHeaders true }.write
      (w.response.dump date isDumpHeaders true)

/-- `End` -/
def sendEnd (buf : Option ByteString) : HttpResponseWriter :=
  if w.endState = .ended then w
  else if w.connected = false then { w with endState := .ended }
  else
    let keepAlive := w.response.isKeepAlive
    let w := { w with endState := .ended }
    let w := if w.state = .chunked then w.endOfChunks date buf else w.endOfBody date buf
    -- close(true)
    if keepAlive then w else { w with connected := false }

end HttpResponseWriter

/-- The calls between `Begin` and `End`. -/
inductive WriterCall where
  | writeStatus (statusCode : Nat)
  | writeHeader (key value : ByteString)
  | writeCookie (cookie : HttpCookie)
  | endHeaders (header : Option (ByteString × ByteString))
  | writeBody (buf : ByteString)
  | writeChunked (buf : ByteString)
  | endChunked
  | writeResponse (resp : ResponseArg)
  | ssEvent (data : ByteString) (event : Option ByteString)

/-- One call of the handler. -/
def writerStep : WriterCall → HttpResponseWriter
  | .writeStatus statusCode => w.writeStatus statusCode
  | .writeHeader key value => w.writeHeader key value
  | .writeCookie cookie => w.writeCookie cookie
  | .endHeaders header => w.endHeaders date header
  | .writeBody buf => w.writeBody date buf
  | .writeChunked buf => w.writeChunked date (some buf)
  | .endChunked => w.endChunked date
  | .writeResponse resp => w.writeResponse date resp
  | .ssEvent data event => w.ssEvent date data event

/-- The calls of the handler, in order. -/
def writerRun : HttpResponseWriter → List (ByteString × WriterCall) → HttpResponseWriter
  | w, [] => w
  | w, call :: calls => writerRun (writerStep w call.1 call.2) calls

/-- What one response writes. -/
def respond (calls : List (ByteString × WriterCall)) (date : ByteString)
    (last : Option ByteString) : List Part :=
  ((writerRun { w.sendBegin with out := [] } calls).sendEnd date last).out

end HvVerified.Http
