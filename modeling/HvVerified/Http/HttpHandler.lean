import HvVerified.Http.Message

/-!
# `http/Http1Parser.cpp`, `http/server/HttpHandler.cpp`: receiving requests

A connection of the HTTP server, in a build without nghttp2, for a service without proxies and state
handlers. The vendored `http_parser` is a parameter: a machine that reads one byte after the other and
says which callbacks are due. It collects the data of adjacent callbacks of one kind, so that within
one call of `http_parser_execute` they are made as one.

The handler runs on one `HttpRequest` object for all requests, which an asynchronous handler keeps a pointer to.
-/

namespace HvVerified.Http

open Base

/-! ## Requests -/

/-- `HttpRequest` -/
structure HttpRequest extends HttpMessage where
  method : Nat
  url : ByteString
  scheme : ByteString
  host : ByteString
  port : Nat
  path : ByteString
  queryParams : List (ByteString × ByteString)

/-- `DEFAULT_HTTP_USER_AGENT` -/
def defaultHttpUserAgent : ByteString :=
  ascii ("Mozilla/5.0 (Windows NT 10.0; WOW64) AppleWebKit/537.36 (KHTML, like Gecko) " ++
    "Chrome/63.0.3239.132 Safari/537.36")

/-- `HttpRequest::HttpRequest`, and what `HttpRequest::Reset` makes of a request -/
def newRequest : HttpRequest where
  type := .request
  httpMajor := 1
  httpMinor := 1
  headers := HttpHeaders.set (ascii "Accept") (ascii "*/*")
    (HttpHeaders.set (ascii "User-Agent") defaultHttpUserAgent [])
  cookies := []
  body := []
  json := none
  form := none
  kv := none
  content := none
  contentLength := 0
  contentType := .none
  method := 1
  url := []
  scheme := ascii "http"
  host := ascii "127.0.0.1"
  port := 80
  path := ascii "/"
  queryParams := []

/-! ## The vendored parser -/

/-- The data callbacks of the vendored parser. -/
inductive DataKind where
  | url
  | headerField
  | headerValue
  | body
  deriving DecidableEq, Repr

/-- Its other callbacks. -/
inductive Notice where
  | messageBegin
  | headersComplete (method httpMajor httpMinor : Nat)
  | chunkHeader
  | chunkComplete
  | messageComplete
  deriving DecidableEq, Repr

/-- A callback of the vendored parser. -/
inductive ParserEvent where
  | data (kind : DataKind) (bytes : ByteString)
  | notice (n : Notice)
  deriving DecidableEq, Repr

/-- `http_parser`: its state after `http_parser_init`, and what one byte does, `none` being a parse
    error. -/
structure VendoredParser (σ : Type) where
  init : σ
  next : σ → UInt8 → Option (σ × List ParserEvent)

def ParserEvent.isHeadersComplete : ParserEvent → Bool
  | .notice (.headersComplete _ _ _) => true
  | _ => false

def ParserEvent.isMessageComplete : ParserEvent → Bool
  | .notice .messageComplete => true
  | _ => false

/-- The bytes of one request, from a state of the parser on: they are read without an error, the message
    is complete with the last byte and not before, and its headers were complete before it (`seen` says
    that they are). -/
def VendoredParser.completes {σ : Type} (P : VendoredParser σ) : σ → Bool → ByteString → Bool
  | _, _, [] => false
  | st, seen, b :: bs =>
    match P.next st b with
    | none => false
    | some r =>
      if bs = [] then
        (seen || r.2.any ParserEvent.isHeadersComplete) && r.2.getLast? == some (.notice .messageComplete) &&
          r.2.dropLast.all fun ev => !ev.isMessageComplete
      else
        (r.2.all fun ev => !ev.isMessageComplete) &&
          P.completes r.1 (seen || r.2.any ParserEvent.isHeadersComplete) bs

/-- The byte strings of single valid requests. -/
def VendoredParser.isRequest {σ : Type} (P : VendoredParser σ) (s : ByteString) : Bool := P.completes P.init false s

/-! ## The handler -/

/-- `http_parser_state` -/
inductive HttpParserState where
  | startReqOrRes
  | messageBegin
  | url
  | status
  | headerField
  | headerValue
  | headersComplete
  | chunkHeader
  | body
  | chunkComplete
  | messageComplete
  deriving DecidableEq, Repr

/-- `Http1Parser`: what it has collected of the request that it writes to -/
structure Http1Parser where
  state : HttpParserState
  url : ByteString
  headerField : ByteString
  headerValue : ByteString
  deriving DecidableEq, Repr

/-- `ProtocolType`, without HTTP/2 -/
inductive ProtocolType where
  | unknown
  | httpV1
  | websocket
  deriving DecidableEq, Repr

/-- The states of the handler that reading depends on. -/
inductive HandlerState where
  | wantRecv
  | handleContinue
  | sendDone
  | wantClose
  deriving DecidableEq, Repr

/-- The error of the handler. -/
inductive HandlerError where
  | none
  | request
  | parse
  | invalidProtocol
  | forbidden
  deriving DecidableEq, Repr

/-- What `HandleHttpRequest` comes to: a response, `HTTP_STATUS_NEXT` for an asynchronous handler, or
    `HTTP_STATUS_CLOSE`. -/
inductive Handling where
  | sync
  | async
  | close
  deriving DecidableEq, Repr

/-- What the handler calls: the vendored parser, `HttpCookie::parse`, `ParseUrl`, the header handler of
    the service (with the status code it returns), the effect of `GetRoute` on the request, and the
    handlers of the service. A response is produced from the request that the handler sees. -/
structure ServerEnv (σ ρ : Type) where
  parser : VendoredParser σ
  ssl : Bool
  parseCookie : ByteString → Option HttpCookie
  parseUrl : HttpRequest → HttpRequest
  headerHandler : Option (HttpRequest → HttpRequest × Int)
  route : HttpRequest → HttpRequest
  handling : HttpRequest → Handling
  respond : HttpRequest → ρ
  upgradeResponse : HttpRequest → ρ
  errorResponse : HttpRequest → ρ

/-- `HttpHandler`, with the request object it owns and the state of the vendored parser. History
    variables: `delivered` are the requests as they were handed to a handler, `running` those of the
    asynchronous handlers that have not finished, `written` the responses written to the connection. -/
structure HttpHandler (σ ρ : Type) where
  protocol : ProtocolType
  state : HandlerState
  error : HandlerError
  keepalive : Bool
  upgrade : Bool
  proxy : Bool
  parser : Http1Parser
  vendored : σ
  req : HttpRequest
  delivered : List HttpRequest
  running : List HttpRequest
  written : List ρ

variable {σ ρ : Type}

/-- A parser before its first request. -/
def newParser : Http1Parser := ⟨.startReqOrRes, [], [], []⟩

variable (env : ServerEnv σ ρ)

/-- A handler before its first request. -/
def newHandler : HttpHandler σ ρ where
  protocol := .unknown
  state := .wantRecv
  error := .none
  keepalive := true
  upgrade := false
  proxy := false
  parser := newParser
  vendored := env.parser.init
  req := newRequest
  delivered := []
  running := []
  written := []

namespace HttpHandler

variable (h : HttpHandler σ ρ)

/-- `Reset`. The flags keep their values. -/
def reset : HttpHandler σ ρ :=
  { h with state := .wantRecv, error := .none, req := newRequest, parser := newParser, vendored := env.parser.init }

/-! ### `Http1Parser` -/

/-- `handle_header` -/
def handleHeader : HttpHandler σ ρ :=
  if h.parser.headerField = [] then h
  else
    let isCookie := foldCase h.parser.headerField = ascii "set-cookie" ∨ foldCase h.parser.headerField = ascii "cookie"
    let cookie := if isCookie then env.parseCookie h.parser.headerValue else none
    { h with
      parser := { h.parser with headerField := [], headerValue := [] }
      req := match cookie with
        | some cookie => { h.req with cookies := h.req.cookies ++ [cookie] }
        | none => { h.req with headers := h.req.headers.set h.parser.headerField h.parser.headerValue } }

/-- `on_url` -/
def onUrl (bytes : ByteString) : HttpHandler σ ρ :=
  { h with parser := { h.parser with state := .url, url := h.parser.url ++ bytes } }

/-- `on_header_field` -/
def onHeaderField (bytes : ByteString) : HttpHandler σ ρ :=
  let h := if h.parser.state = .headerField then h else h.handleHeader env
  { h with parser := { h.parser with state := .headerField, headerField := h.parser.headerField ++ bytes } }

/-- `on_header_value` -/
def onHeaderValue (bytes : ByteString) : HttpHandler σ ρ :=
  { h with parser := { h.parser with state := .headerValue, headerValue := h.parser.headerValue ++ bytes } }

/-- `on_headers_complete`, up to the call of `http_cb` -/
def headersCompleted (method httpMajor httpMinor : Nat) : HttpHandler σ ρ :=
  let h := h.handleHeader env
  { h with
    parser := { h.parser with state := .headersComplete }
    req := { h.req with
      httpMajor, httpMinor, method
      url := h.parser.url
      contentType := ((h.req.headers.get (ascii "content-type")).map httpContentTypeEnum).getD h.req.contentType
      contentLength :=
        ((h.req.headers.get (ascii "content-length")).map fun value => toSizeT (atoll value)).getD h.req.contentLength } }

/-! ### `http_cb` -/

/-- Sets the error. -/
def setError (error : HandlerError) : HttpHandler σ ρ := { h with error }

/-- The value of the `Proxy-Connection` header. -/
def proxyKeepAlive (req : HttpRequest) (keepalive : Bool) : Bool :=
  match req.headers.get (ascii "Proxy-Connection") with
  | some value =>
    if foldCase value = ascii "close" then false
    else keepalive || foldCase value = ascii "keep-alive" || foldCase value = ascii "upgrade"
  | none => keepalive

/-- `handleRequestHeaders`, for a service without reverse proxies -/
def handleRequestHeaders : HttpHandler σ ρ :=
  let req := { h.req with scheme := if env.ssl then ascii "https" else ascii "http" }
  -- 5 is HTTP_CONNECT
  let isConnect := ¬ (ascii "http").isPrefixOf req.url ∧ req.method = 5
  let url := if isConnect then ascii "https://" ++ req.url else req.url
  let proxy := decide ((ascii "http").isPrefixOf req.url ∨ req.method = 5)
  let keepalive := if isConnect then true else req.isKeepAlive
  let req := env.parseUrl { req with url := url }
  { h with
    req := req
    keepalive := if proxy then proxyKeepAlive req keepalive else keepalive
    upgrade := (h.req.headers.get (ascii "upgrade")).isSome
    proxy := proxy }

/-- A path with a line end in it, spelled out or not. -/
def illegalCrlfPath : ByteString → Bool
  | [] => false
  | b :: rest => b = 13 || b = 10 || (b = 37 && rest.head? = some 48 &&
      (rest.drop 1).head?.any fun d => d = 100 || d = 68 || d = 97 || d = 65) || illegalCrlfPath rest

/-- The end of `onHeadersComplete`: the path is checked, the route is looked up, and a request to a proxy
    is refused. -/
def checkRequest : HttpHandler σ ρ :=
  if illegalCrlfPath (cStr h.req.path) then h.setError .request
  else
    let h := { h with req := env.route h.req }
    if h.proxy then h.setError .forbidden else h

/-- `onHeadersComplete` -/
def onHeadersComplete : HttpHandler σ ρ :=
  let h := h.handleRequestHeaders env
  match env.headerHandler with
  | none => h.checkRequest env
  | some handler =>
    let statusCode := (handler h.req).2
    let h := { h with req := (handler h.req).1 }
    -- HTTP_STATUS_CLOSE, HTTP_STATUS_NEXT
    if statusCode = -100 then { h with state := .wantClose }
    else if statusCode ≠ 200 ∧ statusCode ≠ 0 then h.setError .request
    else h.checkRequest env

/-- `onBody` -/
def onBody (bytes : ByteString) : HttpHandler σ ρ :=
  { h with req := { h.req with body := h.req.body ++ bytes } }

/-- `upgradeWebSocket` and the other protocols -/
def handleUpgrade : HttpHandler σ ρ :=
  match h.req.headers.get (ascii "upgrade") with
  | some value =>
    if foldCase value = ascii "websocket" then
      { h with protocol := .websocket, written := h.written ++ [env.upgradeResponse h.req] }
    else h.setError .invalidProtocol
  | none => h

/-- `Reset` or the end of the connection -/
def finishRequest : HttpHandler σ ρ :=
  if h.keepalive then h.reset env else { h with state := .wantClose }

/-- `onMessageComplete` -/
def onMessageComplete : HttpHandler σ ρ :=
  if h.error ≠ .none then { h with state := .sendDone, written := h.written ++ [env.errorResponse h.req] }
  else if h.proxy then h
  else
    let h := { h with delivered := h.delivered ++ [h.req] }
    if h.upgrade then (h.handleUpgrade env).finishRequest env
    else
      match env.handling h.req with
      | .sync => { h with written := h.written ++ [env.respond h.req] }.finishRequest env
      | .async => { h with state := .handleContinue, running := h.running ++ [h.req] }
      | .close => { h with state := .wantClose }

/-! ### `http_parser_execute` -/

/-- `http_cb` ignores headers and bodies. -/
def stuck : Bool := h.state = .wantClose || h.error ≠ .none

/-- A data callback. -/
def onData : DataKind → ByteString → HttpHandler σ ρ
  | .url, bytes => h.onUrl bytes
  | .headerField, bytes => h.onHeaderField env bytes
  | .headerValue, bytes => h.onHeaderValue bytes
  | .body, bytes =>
    let h := { h with parser := { h.parser with state := .body } }
    if h.stuck then h else h.onBody bytes

/-- Another callback. -/
def onNotice : Notice → HttpHandler σ ρ
  | .messageBegin => { h with parser := { h.parser with state := .messageBegin } }
  | .headersComplete method httpMajor httpMinor =>
    let h := h.headersCompleted env method httpMajor httpMinor
    if h.stuck then h else h.onHeadersComplete env
  | .chunkHeader => { h with parser := { h.parser with state := .chunkHeader } }
  | .chunkComplete => { h with parser := { h.parser with state := .chunkComplete } }
  | .messageComplete =>
    let h := { h with parser := { h.parser with state := .messageComplete } }
    if h.state = .wantClose then h else h.onMessageComplete env

/-- The call of a pending data callback. -/
def flush : Option (DataKind × ByteString) → HttpHandler σ ρ
  | none => h
  | some piece => h.onData env piece.1 piece.2

/-- One event of the vendored parser: data is collected as long as it is of one kind. -/
def deliver (x : HttpHandler σ ρ × Option (DataKind × ByteString)) :
    ParserEvent → HttpHandler σ ρ × Option (DataKind × ByteString)
  | .data kind bytes =>
    match x.2 with
    | some piece =>
      if piece.1 = kind then (x.1, some (kind, piece.2 ++ bytes)) else (x.1.flush env x.2, some (kind, bytes))
    | none => (x.1, some (kind, bytes))
  | .notice n => ((x.1.flush env x.2).onNotice env n, none)

/-- The loop of `http_parser_execute`. `false` is a parse error. -/
def execute (env : ServerEnv σ ρ) (x : HttpHandler σ ρ × Option (DataKind × ByteString)) :
    ByteString → HttpHandler σ ρ × Bool
  | [] => (x.1.flush env x.2, true)
  | b :: bs =>
    match env.parser.next x.1.vendored b with
    | none => (x.1, false)
    | some r => execute env (r.2.foldl (deliver env) ({ x.1 with vendored := r.1 }, x.2)) bs

/-! ### `FeedRecvData` -/

/-- `MIN_HTTP_REQUEST_LEN` -/
def minHttpRequestLen : Nat := 14

/-- `IS_GRAPH` -/
def isGraph (b : UInt8) : Bool := 32 ≤ b && b < 127

/-- The part of `FeedRecvData` for `HTTP_V1`. -/
def feedHttp (data : ByteString) : HttpHandler σ ρ × Int :=
  let h := if h.state ≠ .wantRecv then h.reset env else h
  let r := execute env (h, none) data
  if r.2 = false then (r.1.setError .parse, -1)
  else if r.1.state = .wantClose then (r.1, 0)
  else (r.1, if r.1.error ≠ .none then -1 else data.length)

/-- `FeedRecvData`, with its result. `Init` leaves the handler as it was made, but for the protocol. -/
def feedRecvData (data : ByteString) : HttpHandler σ ρ × Int :=
  match h.protocol with
  | .unknown =>
    if data.length < minHttpRequestLen then (h.setError .request, -1)
    else if (data.take minHttpRequestLen).all isGraph = false then (h.setError .request, -1)
    else feedHttp env { h with protocol := .httpV1 } data
  | .httpV1 => feedHttp env h data
  -- the WebSocket parser takes over
  | .websocket => (h, data.length)

/-- `on_recv` for one segment after the other; the connection is closed when a segment is not taken. -/
def feedAll (env : ServerEnv σ ρ) : HttpHandler σ ρ → List ByteString → HttpHandler σ ρ
  | h, [] => h
  | h, seg :: segs =>
    let r := feedRecvData env h seg
    if r.2 = seg.length then feedAll env r.1 segs else r.1

end HttpHandler

end HvVerified.Http
