import HvVerified.Http.Httpdef
import HvVerified.Lib.Chunked

/-!
# `http/HttpMessage.h`, `http/HttpMessage.cpp`: messages and their text

`HttpMessage` with the functions that make its text: the content type and the content length are
derived from the headers and from the content, and written back to both. The serialisers of structured
content (JSON, multipart form, URL-encoded pairs) are represented by the texts they give.
-/

namespace HvVerified.Http

open Base
open Lib (crlf)

/-! ## Headers -/

/-- `http_headers`, a map whose keys are compared without case, in the order of the map -/
abbrev HttpHeaders := List (ByteString × ByteString)

/-- The value of a header, whatever the case of its name. -/
def HttpHeaders.get (key : ByteString) : HttpHeaders → Option ByteString
  | [] => none
  | entry :: rest => if foldCase key = foldCase entry.1 then some entry.2 else HttpHeaders.get key rest

/-- `headers[key] = value`. A key that is there keeps its spelling. -/
def HttpHeaders.set (key value : ByteString) : HttpHeaders → HttpHeaders
  | [] => [(key, value)]
  | entry :: rest =>
    if foldCase key = foldCase entry.1 then (entry.1, value) :: rest
    else if foldCase key < foldCase entry.1 then (key, value) :: entry :: rest
    else entry :: HttpHeaders.set key value rest

theorem HttpHeaders.get_set_self (key value : ByteString) (headers : HttpHeaders) :
    HttpHeaders.get key (HttpHeaders.set key value headers) = some value := by
  induction headers with
  | nil => simp [HttpHeaders.set, HttpHeaders.get]
  | cons entry rest ih =>
    unfold HttpHeaders.set
    split_ifs with heq hlt
    · simp [HttpHeaders.get, heq]
    · simp [HttpHeaders.get]
    · simp [HttpHeaders.get, heq, ih]

theorem HttpHeaders.get_set_of_ne {key key' : ByteString} (hne : foldCase key' ≠ foldCase key) (value : ByteString)
    (headers : HttpHeaders) :
    HttpHeaders.get key' (HttpHeaders.set key value headers) = HttpHeaders.get key' headers := by
  induction headers with
  | nil => simp [HttpHeaders.set, HttpHeaders.get, hne]
  | cons entry rest ih =>
    unfold HttpHeaders.set
    split_ifs with heq hlt
    · simp [HttpHeaders.get, ← heq, hne]
    · simp [HttpHeaders.get, hne]
    · simp [HttpHeaders.get, ih]

/-! ## Cookies -/

/-- `HttpCookie::SameSite` -/
inductive SameSite where
  | default
  | strict
  | lax
  | none
  deriving DecidableEq, Repr

/-- `HttpCookie::Priority` -/
inductive CookiePriority where
  | notSet
  | low
  | medium
  | high
  deriving DecidableEq, Repr

/-- `HttpCookie` -/
structure HttpCookie where
  name : ByteString
  value : ByteString
  domain : ByteString
  path : ByteString
  expires : ByteString
  maxAge : Int
  secure : Bool
  httponly : Bool
  samesite : SameSite
  priority : CookiePriority
  /-- for multiple names -/
  kv : List (ByteString × ByteString)
  deriving Repr

/-- One turn of the loop of `dump` over `kv`. -/
def HttpCookie.dumpPair (name res : ByteString) (pair : ByteString × ByteString) : ByteString :=
  if pair.1 = name then res
  else res ++ (if res = [] then [] else ascii "; ") ++ pair.1 ++ ascii "=" ++ pair.2

/-- `HttpCookie::dump` -/
def HttpCookie.dump (c : HttpCookie) : ByteString :=
  c.kv.foldl (HttpCookie.dumpPair c.name) (if c.name = [] then [] else c.name ++ ascii "=" ++ c.value)
    ++ (if c.domain = [] then [] else ascii "; Domain=" ++ c.domain)
    ++ (if c.path = [] then [] else ascii "; Path=" ++ c.path)
    ++ (if 0 < c.maxAge then ascii "; Max-Age=" ++ decimal c.maxAge
        else if c.expires = [] then [] else ascii "; Expires=" ++ c.expires)
    ++ (match c.samesite with
        | .default => []
        | .strict => ascii "; SameSite=Strict"
        | .lax => ascii "; SameSite=Lax"
        | .none => ascii "; SameSite=None")
    ++ (match c.priority with
        | .notSet => []
        | .low => ascii "; Priority=Low"
        | .medium => ascii "; Priority=Medium"
        | .high => ascii "; Priority=High")
    ++ (if c.secure then ascii "; Secure" else [])
    ++ (if c.httponly then ascii "; HttpOnly" else [])

/-! ## Messages -/

/-- `type`, with the `status_code` that only an `HttpResponse` has -/
inductive MessageType where
  | request
  | response (statusCode : Nat)
  deriving DecidableEq, Repr

/-- The fields of `HttpMessage` that its text depends on. `json`, `form` and `kv` are `none` when the
    structured content is empty and otherwise what its serialiser returns, for a form as a function of
    the boundary. `content` is what the pointer `content` points to. -/
structure HttpMessage where
  type : MessageType
  httpMajor : Nat
  httpMinor : Nat
  headers : HttpHeaders
  cookies : List HttpCookie
  body : ByteString
  json : Option ByteString
  form : Option (ByteString → ByteString)
  kv : Option ByteString
  content : Option ByteString
  contentLength : Nat
  contentType : HttpContentType

/-- A response after `Init`. -/
def newResponse : HttpMessage where
  type := .response 200
  httpMajor := 1
  httpMinor := 1
  headers := []
  cookies := []
  body := []
  json := none
  form := none
  kv := none
  content := none
  contentLength := 0
  contentType := .none

variable (m : HttpMessage)

namespace HttpMessage

/-- `SetHeader` -/
def setHeader (key value : ByteString) : HttpMessage :=
  { m with headers := m.headers.set key value }

/-- `IsChunked` -/
def isChunked : Bool :=
  (m.headers.get (ascii "Transfer-Encoding")).any fun value => foldCase value = ascii "chunked"

/-- `IsKeepAlive` -/
def isKeepAlive : Bool :=
  match m.headers.get (ascii "connection") with
  | some value => foldCase value ≠ ascii "close"
  | none => ¬ (m.httpMajor = 1 ∧ m.httpMinor = 0)

/-- The content type that the content itself suggests. -/
def suggestedContentType : HttpContentType :=
  if m.json.isSome then .applicationJson
  else if m.form.isSome then .multipartFormData
  else if m.kv.isSome then .applicationUrlencoded
  else if m.body ≠ [] then .textPlain
  else .none

/-- The key of a boundary. -/
def boundaryKey : ByteString := ascii "boundary="

/-- `DEFAULT_MULTIPART_BOUNDARY` -/
def defaultMultipartBoundary : ByteString := ascii "----WebKitFormBoundary7MA4YWxkTrZu0gW"

/-- The end of `FillContentType`: a multipart type gets a boundary. -/
def appendBoundary : HttpMessage :=
  if m.contentType = .multipartFormData then
    match m.headers.get (ascii "Content-Type") with
    | some value =>
      if find boundaryKey (cStr value) = none then
        m.setHeader (ascii "Content-Type") (value ++ ascii "; boundary=" ++ defaultMultipartBoundary)
      else m
    | none => m
  else m

/-- `FillContentType` -/
def fillContentType : HttpMessage :=
  match m.headers.get (ascii "Content-Type") with
  | some value => appendBoundary { m with contentType := httpContentTypeEnum value }
  | none =>
    let type := if m.contentType = .none then m.suggestedContentType else m.contentType
    let m := { m with contentType := type }
    appendBoundary (if type = .none then m else m.setHeader (ascii "Content-Type") (httpContentTypeStr type))

/-- `DumpBody()`: structured content becomes the body of a message that has none. -/
def dumpBody : HttpMessage :=
  if m.body ≠ [] then m
  else
    let m := m.fillContentType
    match m.contentType with
    | .applicationJson => { m with body := m.json.getD [] }
    | .multipartFormData =>
      match m.headers.get (ascii "Content-Type") with
      | some value =>
        match find boundaryKey (cStr value) with
        | some pos =>
          { m with body := (m.form.map fun dump => dump ((cStr value).drop (pos + boundaryKey.length))).getD [] }
        | none => m
      | none => m
    | .applicationUrlencoded => { m with body := m.kv.getD [] }
    | _ => m

/-- `NeedContentLength` -/
def needContentLength : Bool :=
  match m.type with
  | .request => false
  | .response statusCode => ¬ (statusCode / 100 = 1 ∨ statusCode = 204 ∨ statusCode = 304)

/-- `FillContentLength`: the length itself, from the header or from the body -/
def computeContentLength : HttpMessage :=
  let m : HttpMessage := match m.headers.get (ascii "Content-Length") with
    | some value => { m with contentLength := toSizeT (atoll value) }
    | none => m
  if m.contentLength = 0 then { m.dumpBody with contentLength := m.dumpBody.body.length } else m

/-- `FillContentLength` -/
def fillContentLength : HttpMessage :=
  let n := m.computeContentLength
  if m.headers.get (ascii "Content-Length") = none ∧ n.isChunked = false ∧ n.contentType ≠ .textEventStream ∧
      (n.contentLength ≠ 0 ∨ n.needContentLength) then
    n.setHeader (ascii "Content-Length") (decimal n.contentLength)
  else n

/-- A header value as it is written: line ends are spelled out. -/
def escapeLineEnds (value : ByteString) : ByteString :=
  value.flatMap fun b => if b = 13 then ascii "\\r" else if b = 10 then ascii "\\n" else [b]

/-- One step of the loop over the headers. The source tests the first byte of the text written so far. -/
def dumpHeader (str : ByteString) (header : ByteString × ByteString) : ByteString :=
  if str.head? = some 58 then str
  else str ++ header.1 ++ ascii ": " ++ escapeLineEnds header.2 ++ crlf

/-- The header of a cookie. -/
def cookieField : ByteString :=
  match m.type with
  | .request => ascii "Cookie"
  | .response _ => ascii "Set-Cookie"

/-- `DumpHeaders`, for the message whose types and lengths are filled in -/
def headerLines (str : ByteString) : ByteString :=
  m.headers.foldl dumpHeader str ++
    m.cookies.flatMap fun cookie => m.cookieField ++ ascii ": " ++ cookie.dump ++ crlf

/-- The effect of `DumpHeaders` on the message. -/
def fillHeaders : HttpMessage := m.fillContentType.fillContentLength

/-- `content` points to the body -/
def fillContent : HttpMessage :=
  if m.content = none ∧ m.body ≠ [] then { m with content := some m.body, contentLength := m.body.length } else m

/-- `DumpBody` and the length of the body -/
def fillBody : HttpMessage :=
  let m := m.dumpBody.fillContent
  if m.contentLength = 0 then m.fillContentLength else m

/-- `DumpBody(str)`: what is appended, for the message after `fillBody` -/
def bodyText : ByteString := (m.content.getD []).take m.contentLength

/-- `status_code` -/
def statusCode (m : HttpMessage) : Nat :=
  match m.type with
  | .request => 0
  | .response statusCode => statusCode

/-- The status line. -/
def statusLine : ByteString :=
  ascii "HTTP/" ++ decimal m.httpMajor ++ ascii "." ++ decimal m.httpMinor ++ ascii " " ++ decimal m.statusCode
    ++ ascii " " ++ httpStatusStr m.statusCode ++ crlf

end HttpMessage

/-! ## The text of a response -/

/-- A part of a written message. -/
inductive Part where
  /-- a status line and the blank line after it, with the header lines between them if `headers` -/
  | head (headers : Bool) (bytes : ByteString)
  | body (bytes : ByteString)
  deriving DecidableEq, Repr

/-- The bytes of a part. -/
def Part.bytes : Part → ByteString
  | .head _ bytes => bytes
  | .body bytes => bytes

/-- The message after `HttpResponse::Dump`. `date` is the text of the current time. -/
def HttpMessage.dumped (date : ByteString) (isDumpHeaders isDumpBody : Bool) : HttpMessage :=
  let m := if isDumpHeaders then (m.setHeader (ascii "Date") date).fillHeaders else m
  if isDumpBody then m.fillBody else m

/-- The text before the body. -/
def HttpMessage.dumpHead (date : ByteString) (isDumpHeaders : Bool) : ByteString :=
  (if isDumpHeaders then (m.setHeader (ascii "Date") date).fillHeaders.headerLines m.statusLine
    else m.statusLine) ++ crlf

/-- `HttpResponse::Dump`, its text in parts -/
def HttpMessage.dump (m : HttpMessage) (date : ByteString) (isDumpHeaders isDumpBody : Bool) : List Part :=
  .head isDumpHeaders (m.dumpHead date isDumpHeaders) ::
    if isDumpBody then [.body (m.dumped date isDumpHeaders true).bodyText] else []

end HvVerified.Http
