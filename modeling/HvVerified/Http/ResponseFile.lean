import HvVerified.Base.Hbase
import HvVerified.Http.HttpHandler
import HvVerified.Http.ResponseWriter

/-!
# `http/server/HttpResponseWriter.cpp`: `ResponseFile`

A file, or the range of it that the request asks for, as a response. A short range is read into the body
of the response; a long one is sent by `writeFile`, in pieces, as the connection takes them. The size of
the file is the one that `HFile::size` reports; it does not change while the file is sent.
-/

namespace HvVerified.Http

open Base

/-! ## Files -/

/-- A regular file that is not empty. Its size is an `off_t`. -/
structure DiskFile where
  content : ByteString
  nonempty : 0 < content.length
  offset : content.length < 2 ^ 63

/-- The size of a file. -/
def DiskFile.size (f : DiskFile) : Nat := f.content.length

/-- An open `HFile`: the content and the position of the stream. -/
structure HFile where
  content : ByteString
  pos : Nat
  deriving DecidableEq, Repr

variable (f : HFile)

/-- `HFile::seek`: a negative offset is an error, and the position stays -/
def HFile.seek (offset : Int) : HFile := if 0 ≤ offset then { f with pos := offset.toNat } else f

/-- The next `len` bytes. -/
def HFile.peek (len : Nat) : ByteString := (f.content.drop f.pos).take len

/-- `HFile::read` -/
def HFile.read (len : Nat) : HFile := { f with pos := f.pos + (f.peek len).length }

/-- `std::string::resize` -/
def resizeString (str : ByteString) (n : Nat) : ByteString := str.take n ++ List.replicate (n - str.length) 0

/-- `HFile::readrange`: the string and the number of bytes read. There is no result if the string would be
    longer than strings can be. -/
def HFile.readrange (str : ByteString) (from_ to_ : Int) : Option (ByteString × Int) :=
  let filesize := f.content.length
  if filesize = 0 then some (str, 0)
  else
    let to_ := if toSizeT to_ = 0 ∨ filesize ≤ toSizeT to_ then filesize - 1 else toSizeT to_
    let readbytes := toSizeT ((to_ : Int) - (toSizeT from_ : Int) + 1)
    if 2 ^ 63 ≤ readbytes then none
    else
      let bytes := (f.seek from_).peek readbytes
      some (bytes ++ (resizeString str readbytes).drop bytes.length, toInt bytes.length)

/-! ## `GetRange` -/

/-- `sscanf(str, "bytes=%ld-%ld", &from, &to)`, for variables that are zero before -/
def scanRange (str : ByteString) : Int × Int :=
  if (ascii "bytes=").isPrefixOf str then
    match scanLong (str.drop 6) with
    | none => (0, 0)
    | some r =>
      if r.2.head? = some 45 then
        match scanLong r.2.tail with
        | none => (r.1, 0)
        | some r' => (r.1, r'.1)
      else (r.1, 0)
  else (0, 0)

/-- `GetRange` -/
def HttpRequest.getRange (req : HttpRequest) : Option (Int × Int) :=
  (req.headers.get (ascii "Range")).map fun value => scanRange (cStr value)

/-- The text of a `Content-Range` header. -/
def contentRange (from_ to_ total : Int) : ByteString :=
  ascii "bytes " ++ decimal from_ ++ ascii "-" ++ decimal to_ ++ ascii "/" ++ decimal total

variable (m : HttpMessage)

/-- `SetRange` -/
def HttpMessage.setRange (from_ to_ total : Int) : HttpMessage :=
  m.setHeader (ascii "Content-Range") (contentRange from_ to_ total)

/-- `hv_suffixname` -/
def suffixname (filename : ByteString) : ByteString := ((strrchr 46 (cStr filename)).map List.tail).getD []

/-- `SetContentTypeByFilename` -/
def HttpMessage.setContentTypeByFilename (filepath : ByteString) : HttpMessage :=
  let type := httpContentTypeEnumBySuffix (suffixname filepath)
  { m with contentType := if type = .none ∨ type = .undefined then .applicationOctetStream else type }

/-! ## `writeFile` -/

/-- What `write` returns: an error, the number of bytes given, or less, when the rest waits in the write
    buffer. -/
inductive WriteOutcome where
  | failed
  | buffered
  | written
  deriving DecidableEq, Repr

/-- A response while its file is sent. `sent` are the bytes that `write` has taken. -/
structure Transfer where
  contentLength : Nat
  file : HFile
  isopen : Bool
  waitWritable : Bool
  closed : Bool
  sent : ByteString
  deriving DecidableEq, Repr

namespace Transfer

variable (t : Transfer)

/-- `closeFile` -/
def endFile : Transfer := { t with isopen := false, waitWritable := false }

/-- The number of bytes that one turn of the loop asks for. -/
def pieceLen (maxSize : Int) : Nat :=
  let len := min 4096 t.contentLength
  if 0 < maxSize then min len maxSize.toNat else len

/-- The end of a transfer. -/
def finish (keepAlive : Bool) : Transfer :=
  if t.contentLength = 0 then { t.endFile with closed := t.closed || !keepAlive } else t

/-- One piece of the file is written. -/
def advance (maxSize : Int) : Transfer :=
  let len := t.pieceLen maxSize
  { t with
    contentLength := t.contentLength - (t.file.peek len).length
    file := t.file.read len
    sent := t.sent ++ t.file.peek len }

/-- A call with a limit stops when the write buffer is not empty, one without a limit waits until the
    connection is writable. -/
def pause (maxSize : Int) : Transfer := if 0 < maxSize then t else { t with waitWritable := true }

/-- What `max_size` leaves after a piece. -/
def restLimit (maxSize : Int) : Int :=
  if 0 < maxSize then maxSize - (t.file.peek (t.pieceLen maxSize)).length else maxSize

/-- The loop of `writeFile`. `outcomes` are the results of the calls of `write`; when there are no more,
    everything is written. -/
def writeLoop (keepAlive : Bool) (t : Transfer) (maxSize : Int) (outcomes : List WriteOutcome) : Transfer :=
  if t.contentLength = 0 ∨ maxSize = 0 then t.finish keepAlive
  else if t.file.peek (t.pieceLen maxSize) = [] then { t with closed := true }.finish keepAlive
  else
    match outcomes.headD .written with
    | .failed => t.endFile.finish keepAlive
    | .buffered => (t.advance maxSize).pause maxSize
    | .written => writeLoop keepAlive (t.advance maxSize) (t.restLimit maxSize) outcomes.tail
termination_by t.contentLength
decreasing_by
  rename_i h hread
  rw [not_or] at h
  have hpos : 0 < (t.file.peek (t.pieceLen maxSize)).length := List.length_pos_iff.2 hread
  simp only [advance]
  omega

/-- `sendFile` -/
def writeFile (keepAlive : Bool) (t : Transfer) (maxSize : Int) (outcomes : List WriteOutcome) : Transfer :=
  if t.isopen then t.writeLoop keepAlive maxSize outcomes else t

/-- The calls of `writeFile`: at once, whenever the connection is writable again, or once a second. -/
def run (keepAlive : Bool) : Transfer → List (Int × List WriteOutcome) → Transfer
  | t, [] => t
  | t, call :: calls => run keepAlive (t.writeFile keepAlive call.1 call.2) calls

/-- The bytes of the body are `bytes`: nothing else is sent, a transfer that has come to its end has sent
    all of them, and it comes to its end if `write` takes what it is given. -/
def delivers (keepAlive : Bool) (t : Transfer) (bytes : ByteString) : Prop :=
  (∀ calls, (t.run keepAlive calls).sent <+: bytes ∧
    ((t.run keepAlive calls).contentLength = 0 → (t.run keepAlive calls).sent = bytes)) ∧
  ∀ calls : List (Int × List WriteOutcome), (∀ call ∈ calls, WriteOutcome.failed ∉ call.2) → ∀ maxSize ≠ 0,
    ∃ n, ((t.run keepAlive calls).run keepAlive (List.replicate n (maxSize, []))).contentLength = 0

end Transfer

/-! ## `ResponseFile` -/

/-- The body of a file response. -/
inductive FileBody where
  | text (bytes : ByteString)
  | stream (keepAlive : Bool) (t : Transfer)

/-- The body delivers these bytes. -/
def FileBody.is : FileBody → ByteString → Prop
  | .text bytes, expected => bytes = expected
  | .stream keepAlive t, expected => t.delivers keepAlive expected

/-- A response from a file: the status, the headers as they are dumped, and the body. `range` are the
    arguments of `SetRange`, if it was called. -/
structure FileReply where
  status : Nat
  range : Option (Int × Int × Int)
  headers : HttpHeaders
  body : FileBody

/-- What becomes of a response that is dumped by the handler. -/
def FileReply.ofBody (status : Nat) (range : Option (Int × Int × Int)) (m : HttpMessage) (date : ByteString) :
    FileReply :=
  ⟨status, range, (m.dumped date true true).headers, .text (m.dumped date true true).bodyText⟩

/-- The end of `ResponseFile`, for the response `m` whose status and length are set. There is no result if
    an exception is thrown. -/
def sendFileRange (file : HFile) (from_ to_ : Int) (range : Option (Int × Int × Int))
    (date : ByteString) : Option FileReply :=
  if m.contentLength < 2 ^ 21 then
    (file.readrange m.body from_ to_).map fun r =>
      if toSizeT r.2 ≠ m.contentLength then
        -- the status is the one that is returned, the response is reset
        .ofBody 500 none { newResponse with type := .response 500 } date
      else .ofBody m.statusCode range { m with body := r.1 } date
  else
    let m := m.dumped date true false
    some ⟨m.statusCode, range, m.headers,
      .stream m.isKeepAlive ⟨m.contentLength, file, true, false, false, []⟩⟩

/-- `to - from + 1` is a `long`. -/
def isLong (i : Int) : Bool := -2 ^ 63 ≤ i && i < 2 ^ 63

/-- The last byte of the range, from the number that was scanned. -/
def lastByte (to_ total : Int) : Int := if to_ = 0 ∨ total ≤ to_ then total - 1 else to_

/-- `ResponseFile` for a file that can be opened. There is no result if the length of the range is not a
    `long`, or if an exception is thrown. -/
def responseFile (f : DiskFile) (path : ByteString) (range : Option (Int × Int)) (date : ByteString) :
    Option FileReply :=
  let total : Int := f.size
  let m := m.setContentTypeByFilename path
  let file : HFile := ⟨f.content, 0⟩
  match range with
  | some r =>
    let to_ := lastByte r.2 total
    if isLong (to_ - r.1 + 1) = false then none
    else
      let m := { m with contentLength := toSizeT (to_ - r.1 + 1) }.setRange r.1 to_ total
      sendFileRange { m with type := .response 206 } (file.seek r.1) r.1 to_ (some (r.1, to_, total)) date
  | none => sendFileRange { m with type := .response 200, contentLength := f.size } file 0 (total - 1) none date

/-! ## Exact ranges -/

/-- A response to which nothing has been added that its text would be made from. -/
structure FreshResponse (m : HttpMessage) : Prop where
  json : m.json = none
  form : m.form = none
  kv : m.kv = none
  content : m.content = none
  contentLength : m.headers.get (ascii "Content-Length") = none
  contentType : m.headers.get (ascii "Content-Type") = none
  transferEncoding : m.headers.get (ascii "Transfer-Encoding") = none

/-- A header of the form `bytes=a-b`. -/
def isRangeHeader (value : ByteString) (a b : Nat) : Prop :=
  ∃ da db : ByteString, da ≠ [] ∧ db ≠ [] ∧ (∀ d ∈ da, isdigit d) ∧ (∀ d ∈ db, isdigit d) ∧
    value = ascii "bytes=" ++ da ++ ascii "-" ++ db ∧ leadingNumber da 0 = a ∧ leadingNumber db 0 = b

/-- The reply is not a partial one, or it is exactly the range that it announces, which is the one that was
    asked for. -/
def exactReply (f : DiskFile) (value : ByteString) (reply : FileReply) : Prop :=
  reply.status ≠ 206 ∨ ∃ from_ to_ : Nat, from_ ≤ to_ ∧ to_ < f.size ∧
    reply.range = some ((from_ : Int), (to_ : Int), (f.size : Int)) ∧
    reply.headers.get (ascii "Content-Range") = some (contentRange from_ to_ f.size) ∧
    reply.headers.get (ascii "Content-Length") = some (decimal ((to_ - from_ + 1 : Nat) : Int)) ∧
    reply.body.is ((f.content.drop from_).take (to_ - from_ + 1)) ∧
    ∀ a b, isRangeHeader value a b → a ≤ b → b < f.size → from_ = a ∧ to_ = b

/-- The requests that are answered exactly, in terms of the numbers that are scanned: a range inside of the
    file that is not `0-0` of a longer file, for a file that is not sent as an event stream; or numbers that
    are refused, since the file has less bytes, or another number of bytes, than their difference says. -/
def rangeAnswered (f : DiskFile) (path value : ByteString) : Prop :=
  let from_ := (scanRange (cStr value)).1
  let to_ := lastByte (scanRange (cStr value)).2 f.size
  (0 ≤ from_ ∧ from_ ≤ to_ ∧ suffixname path ≠ ascii "sse" ∧ (isRangeHeader value 0 0 → f.size = 1)) ∨
  (from_ < 0 ∧ 0 ≤ to_ ∧ f.size < to_ - from_ + 1 ∧ to_ - from_ + 1 < 2 ^ 21) ∨
  (to_ < 0 ∧ 0 ≤ to_ - from_ + 1 ∧ to_ - from_ + 1 < 2 ^ 21 ∧ f.size - from_ < 2 ^ 63 ∧
    toInt f.size ≠ to_ - from_ + 1)

end HvVerified.Http
