import HvVerified.Http.FileCache
import HvVerified.Http.Message

/-!
# `http/server/HttpHandler.cpp`: `GetSendData`

The bytes of a response over HTTP/1, as `GetSendData` hands them out from one call to the next. A response
from the file cache is written into the buffer of the entry, in front of the content of the file: the
entry is shared by all connections that send the file.
-/

namespace HvVerified.Http

open Base
open Lib (slice store)

namespace FileCacheT

/-- `prepend_header`. There is no result if `memcpy` leaves the buffer: `filebuf.base` is null, or the
    length is negative. -/
def prependHeader (fc : FileCacheT) (header : ByteString) (len : Int) : Option FileCacheT :=
  if len > httpHeaderMaxLength then some fc
  else if len < 0 ∨ fc.filebuf = none then none
  else
    let base := httpHeaderMaxLength - len.toNat
    some { fc with
      httpbuf := .view base (len.toNat + fc.fileLen)
      buf := { fc.buf with cells := store fc.buf.cells base (header.take len.toNat) } }

/-- The bytes of `httpbuf`, unless they are those of a block that has been freed. -/
def httpBytes (fc : FileCacheT) : Option ByteString :=
  match fc.httpbuf with
  | .null => some []
  | .view base len => some (slice fc.buf.cells base (base + len))
  | .dangling _ => none

end FileCacheT

/-- The states of `HttpHandler`. -/
inductive ResponseState where
  | wantRecv
  | handleBegin
  | handleContinue
  | handleEnd
  | wantSend
  | sendHeader
  | sendBody
  | sendDone
  | wantClose
  deriving DecidableEq, Repr

/-- The fields of `HttpHandler` that `GetSendData` reads. -/
structure Responder where
  state : ResponseState
  method : Nat
  parserComplete : Bool
  resp : HttpMessage
  header : ByteString

/-- What a call of `GetSendData` leaves behind, and the bytes it hands out. The handler keeps its entry
    if `keepsFile`; `closed` is the path that is closed in the cache. -/
structure SendResult where
  responder : Responder
  fc : Option FileCacheT
  data : ByteString
  keepsFile : Bool
  closed : Option ByteString

/-- `FILE_CACHE_MAX_SIZE` -/
def fileCacheMaxSize : Nat := 2 ^ 22

namespace Responder

/-- Nothing to send. -/
def nothing (r : Responder) (fc : Option FileCacheT) : SendResult := ⟨r, fc, [], true, none⟩

/-- The label `return_header`. -/
def returnHeader (r : Responder) (fc : Option FileCacheT) (date : ByteString) : SendResult :=
  if r.header = [] then
    let header := r.resp.dumpHead date true
    ⟨{ r with header, resp := r.resp.dumped date true false }, fc, header, true, none⟩
  else ⟨r, fc, r.header, true, none⟩

/-- `HEAD`: the length is that of the file. -/
def sendHead (r : Responder) (fc : Option FileCacheT) (date : ByteString) : SendResult :=
  let resp := match fc with
    | some fc =>
      (r.resp.setHeader (ascii "Accept-Ranges") (ascii "bytes")).setHeader (ascii "Content-Length") (decimal fc.st.size)
    | none =>
      (r.resp.setHeader (ascii "Content-Type") (ascii "text/html")).setHeader (ascii "Content-Length") (ascii "0")
  returnHeader { r with state := .sendDone, resp := { resp with contentLength := 0 } } fc date

/-- File service: the header is put in front of the content in the buffer of the entry. -/
def sendFile (r : Responder) (fc : FileCacheT) (date : ByteString) : Option SendResult :=
  let header := r.resp.dumpHead date true
  (fc.prependHeader header (toInt header.length)).bind fun fc =>
    fc.httpBytes.map fun data =>
      ⟨{ r with state := .sendDone, header, resp := r.resp.dumped date true false }, some fc, data, true, none⟩

/-- The length of the body, filled in. -/
def withContentLength (m : HttpMessage) : HttpMessage := if m.contentLength = 0 then m.fillContentLength else m

/-- API service: header and body in one piece if the body is not larger than 1M. -/
def sendContent (r : Responder) (date : ByteString) : SendResult :=
  let resp := r.resp.fillContent
  match resp.content with
  | some content =>
    let resp := withContentLength resp
    if resp.contentLength > 2 ^ 20 then returnHeader { r with state := .sendBody, resp } none date
    else
      returnHeader { r with
        state := .sendDone
        header := resp.dumpHead date true ++ content.take resp.contentLength
        resp := resp.dumped date true false } none date
  | none => returnHeader { r with state := .sendDone, resp } none date

/-- `GetSendData` in `SEND_HEADER` -/
def sendHeader (r : Responder) (fc : Option FileCacheT) (date : ByteString) : Option SendResult :=
  let r := { r with state := .sendHeader }
  if r.method = httpHead then some (r.sendHead fc date)
  else
    match fc with
    | some fc => r.sendFile fc date
    | none => some (r.sendContent date)

/-- `GetSendData` for `HTTP_V1`. There is no result if it reads or writes outside of the buffers. -/
def getSendData (r : Responder) (fc : Option FileCacheT) (date : ByteString) : Option SendResult :=
  match r.state with
  | .wantRecv => if r.parserComplete then r.sendHeader fc date else some (r.nothing fc)
  | .handleEnd => r.sendHeader fc date
  | .wantSend => r.sendHeader fc date
  | .sendHeader => r.sendHeader fc date
  | .sendBody =>
    let resp := withContentLength r.resp.fillContent
    some ⟨{ r with state := .sendDone, resp }, fc, (resp.content.getD []).take resp.contentLength, true, none⟩
  | .sendDone =>
    let closed := fc.bind fun fc => if fc.fileLen > fileCacheMaxSize then some fc.filepath else none
    some ⟨{ r with header := [] }, fc, [], false, closed⟩
  | .handleBegin => some (r.nothing fc)
  | .handleContinue => some (r.nothing fc)
  | .wantClose => some (r.nothing fc)

/-- Whether `GetSendData` has something to send. -/
def readyToSend (r : Responder) : Bool :=
  match r.state with
  | .wantRecv => r.parserComplete
  | .handleEnd => true
  | .wantSend => true
  | .sendHeader => true
  | _ => false

end Responder

/-! ## An entry that is shared -/

/-- What happens to an entry: `Open` finds it in the cache, or a connection sends it. -/
inductive EntryAct where
  | open_ (cache : FileCache) (param : OpenParam) (sys : Syscalls)
  | send (r : Responder) (date : ByteString)

section Entry

variable (gmtimeFmt : Int → ByteString)

/-- One step of a cached entry. -/
def entryStep (fc : FileCacheT) : EntryAct → Option FileCacheT
  | .open_ cache param sys => some (cache.openHit gmtimeFmt fc.filepath fc param sys).1
  | .send r date => (r.getSendData (some fc) date).bind SendResult.fc

/-- An entry that `Open` has just made. -/
def isNewEntry (fc : FileCacheT) : Prop :=
  ∃ filepath st now param sys, fc = ((newFileCacheT filepath st now).load gmtimeFmt filepath param sys).1

end Entry

end HvVerified.Http
