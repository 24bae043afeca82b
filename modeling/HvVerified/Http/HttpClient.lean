import HvVerified.Http.HttpHandler

/-!
# `http/client/HttpClient.cpp`: the synchronous client

`http_client_send` on one client, in a build without curl and without proxies. `http_client_exec` is a
machine that takes a turn for each connection attempt, each `send` and each `recv`; what the system calls
return, the clock and the flag `cancel` are the parameters of the turn. The server puts bytes into a
connection at any time. A redirected request is sent by a temporary client of its own.

The vendored `http_parser` and the response it fills are a parameter.
-/

namespace HvVerified.Http

open Base

/-! ## The parser of responses -/

/-- What `http_parser_execute` does with some bytes: the new state, the values that the callbacks give to
    `Http1Parser::state`, in their order, and the number of bytes parsed. -/
structure Feed (σ : Type) where
  parser : σ
  callbacks : List HttpParserState
  nparse : Nat

/-- `http_parser` for responses, with the response that it fills. The first argument of `execute` says that
    there is no body. The end of the connection before the first byte calls nothing. -/
structure ResponseParser (σ : Type) where
  init : σ
  execute : Bool → σ → ByteString → Feed σ
  isKeepAlive : σ → Bool
  isRedirect : σ → Bool
  location : σ → ByteString
  init_eof : ∀ skipBody, (execute skipBody init []).callbacks = []

/-- `Http1Parser` as the client uses it -/
structure ClientParser (σ : Type) where
  state : HttpParserState
  skipBody : Bool
  vendored : σ

variable {σ : Type} (P : ResponseParser σ)

namespace ClientParser

variable (p : ClientParser σ)

/-- `IsComplete` -/
def isComplete : Bool := p.state = .messageComplete

/-- `SubmitRequest` -/
def submitRequest (isHead : Bool) : ClientParser σ := { p with skipBody := isHead }

/-- `InitResponse` -/
def initResponse : ClientParser σ := { p with vendored := P.init }

/-- What `FeedRecvData` does to the parser. -/
def feed (data : ByteString) : ClientParser σ :=
  let r := P.execute p.skipBody p.vendored data
  { p with state := r.callbacks.getLast?.getD p.state, vendored := r.parser }

/-- The bytes are taken with the message complete after the last callback. -/
def completes (data : ByteString) : Bool :=
  (P.execute p.skipBody p.vendored data).callbacks.getLast? = some .messageComplete

end ClientParser

/-! ## The client -/

/-- The fields of an `HttpRequest` that the client reads. -/
structure ClientRequest where
  host : ByteString
  port : Nat
  https : Bool
  isHead : Bool
  keepAlive : Bool
  redirect : Bool
  text : ByteString
  timeout : Nat
  connectTimeout : Nat
  retryCount : Nat
  retryDelay : Nat
  deriving DecidableEq, Repr

/-- `http_client_t`. `fd` is the number of a connection. The parser is there from the start. -/
structure HttpClient (σ : Type) where
  host : ByteString
  port : Nat
  fd : Option Nat
  ssl : Bool
  keepaliveRequests : Nat
  parser : ClientParser σ

/-- A client without a connection. -/
def newClient : HttpClient σ where
  host := ascii "127.0.0.1"
  port := 80
  fd := none
  ssl := false
  keepaliveRequests := 0
  parser := ⟨.startReqOrRes, false, P.init⟩

/-- `http_client_close` -/
def HttpClient.close (cli : HttpClient σ) : HttpClient σ := { cli with fd := none, ssl := false }

/-- A connection. `inbox` are the bytes that the server has sent and that are not read, each with the number
    of the last call of `http_client_send` at that time. History variable: `failed` says that an exchange on
    the connection ended with an error, or without a response. -/
structure Conn where
  tls : Bool
  inbox : List (Nat × UInt8)
  failed : Bool
  deriving DecidableEq, Repr

/-! ## `http_client_exec` -/

/-- Where `http_client_exec` stands: before its first line, or at the label `connect`, in the loop that
    sends, or in the loop that receives. -/
inductive ExecPc where
  | start
  | connect
  | send
  | recv
  deriving DecidableEq, Repr

/-- The locals of `http_client_exec`. `data` is what is left to be sent; `used` is the connection. History
    variables: `received` are the bytes that were parsed since the request was sent, and `completed` says
    that they, or the end of the connection, completed a message. -/
structure Exec (σ : Type) where
  cli : HttpClient σ
  temporary : Bool
  req : ClientRequest
  pc : ExecPc
  err : Int
  retryCount : Nat
  startTime : Int
  leftTime : Int
  data : ByteString
  used : Option Nat
  received : ByteString
  completed : Bool

/-- A turn of the loops: the clock at `CHECK_TIMEOUT`, the flag `cancel` before the system call, its result
    if it is positive, `errno`, the flag after it, and the clock at the second `CHECK_TIMEOUT`. -/
structure IoTurn where
  now : Int
  cancel : Bool
  result : Option Nat
  errno : Int
  cancelled : Bool
  later : Int
  deriving DecidableEq, Repr

/-- The result of one turn of the loop. -/
inductive Turn (σ : Type) where
  | next (e : Exec σ)
  | return_ (e : Exec σ) (code : Int)

/-- `EINTR` -/
def eintr : Int := 4

/-- `ERR_PARSE` -/
def errParse : Int := 1024

/-- `ERR_TASK_TIMEOUT` -/
def errTaskTimeout : Int := 1100

/-- `INFINITE` -/
def infinite : Int := 2 ^ 32 - 1

/-- A call of `http_client_exec`. -/
def newExec (cli : HttpClient σ) (temporary : Bool) (req : ClientRequest) : Exec σ :=
  ⟨cli, temporary, req, .start, 0, 0, 0, infinite, [], none, [], false⟩

variable (e : Exec σ)

namespace Exec

/-- `CHECK_TIMEOUT`; `none` is `goto timeout` -/
def checkTimeout (now : Int) : Option (Exec σ) :=
  let timeoutMs : Int := e.req.timeout * 1000
  if 0 < timeoutMs then
    if timeoutMs ≤ now - e.startTime then none else some { e with leftTime := timeoutMs - (now - e.startTime) }
  else some e

/-- The label `disconnect`. -/
def disconnect : Turn σ := .return_ { e with cli := e.cli.close } e.err

/-- The timeout of the whole request. -/
def timedOut : Turn σ := disconnect { e with err := errTaskTimeout }

/-- The time `http_client_connect` may take. -/
def connectTimeout (e : Exec σ) : Nat := min e.req.connectTimeout e.req.timeout

/-- `goto connect` if there is a retry left and time for it, else `goto disconnect` -/
def retryOrDisconnect : Turn σ :=
  if 0 < e.retryCount ∧ (e.req.retryDelay + e.connectTimeout * 1000 : Nat) < e.leftTime then
    .next { e with err := 0, retryCount := e.retryCount - 1, pc := .connect }
  else e.disconnect

/-- The request is sent. -/
def awaitResponse : Exec σ :=
  { e with
    cli := { e.cli with parser := e.cli.parser.initResponse P }
    pc := .recv
    received := []
    completed := false }

/-- `SubmitRequest`, up to the first `send`. -/
def submit (P : ResponseParser σ) (e : Exec σ) : Exec σ :=
  let e := { e with cli := { e.cli with parser := e.cli.parser.submitRequest e.req.isHead }, data := e.req.text }
  if e.req.text = [] then e.awaitResponse P else { e with pc := .send }

/-- Whether the open connection serves the request. -/
def reuses : Bool := e.cli.fd.isSome && e.cli.host = e.req.host && e.cli.port = e.req.port

/-- The retries of a call: at least one on a connection that was kept. -/
def retries : Nat := if 0 < e.cli.keepaliveRequests ∧ e.req.retryCount = 0 then 1 else e.req.retryCount

/-- The first lines, up to the label `connect` or to the first `send`. -/
def startTurn (now : Int) : Exec σ :=
  let e := { e with retryCount := e.retries, startTime := now, leftTime := infinite }
  if e.reuses then submit P { e with used := e.cli.fd }
  else { e with cli := { e.cli with host := e.req.host, port := e.req.port }, pc := .connect }

/-- The label `connect`: `http_client_connect` fails with a code, or makes the connection `conn`. -/
def connectTurn (conn : Nat) (failure : Option Int) (now : Int) : Turn σ :=
  let e := { e with cli := e.cli.close }
  match failure with
  | some code => .return_ e code
  | none =>
    let e := { e with cli := { e.cli with fd := some conn, ssl := e.req.https, keepaliveRequests := 0 }, used := some conn }
    match e.checkTimeout now with
    | none => e.timedOut
    | some e => .next (e.submit P)

/-- The turn gets as far as the system call. -/
def callsSystem (io : IoTurn) : Bool := (e.checkTimeout io.now).isSome && !io.cancel

/-- `n` bytes are sent -/
def sentData (n : Nat) : Exec σ :=
  let e := { e with data := e.data.drop n }
  if e.data = [] then e.awaitResponse P else e

/-- `send` fails -/
def sendFailed (errno : Int) : Turn σ :=
  let e := { e with err := errno }
  if errno = eintr then .next e else e.retryOrDisconnect

/-- One turn of the send loop. -/
def sendTurn (io : IoTurn) : Turn σ :=
  match e.checkTimeout io.now with
  | none => e.timedOut
  | some e =>
    if io.cancel || io.cancelled then e.disconnect
    else
      match io.result with
      | some n => .next (e.sentData P n)
      | none =>
        match e.checkTimeout io.later with
        | none => e.timedOut
        | some e => e.sendFailed io.errno

/-- The end of the loop after a complete response. -/
def succeed : Turn σ :=
  if e.req.keepAlive && P.isKeepAlive e.cli.parser.vendored then
    .return_ { e with cli := { e.cli with keepaliveRequests := e.cli.keepaliveRequests + 1 } } 0
  else .return_ { e with cli := e.cli.close } 0

def feed (P : ResponseParser σ) (e : Exec σ) (data : ByteString) : Exec σ :=
  { e with
    cli := { e.cli with parser := e.cli.parser.feed P data }
    received := e.received ++ data
    completed := e.cli.parser.completes P data ||
      (e.completed && (P.execute e.cli.parser.skipBody e.cli.parser.vendored data).callbacks.isEmpty) }

/-- The number of bytes that the parser takes. -/
def nparse (P : ResponseParser σ) (e : Exec σ) (data : ByteString) : Nat :=
  (P.execute e.cli.parser.skipBody e.cli.parser.vendored data).nparse

/-- `recv` returns bytes -/
def recvData (data : ByteString) : Turn σ :=
  if e.nparse P data ≠ data.length then .return_ (e.feed P data) errParse
  else if (e.feed P data).cli.parser.isComplete then (e.feed P data).succeed P
  else .next (e.feed P data)

/-- `recv` fails or the peer has closed -/
def recvFailed (errno : Int) : Turn σ :=
  let e := { e with err := errno }
  if errno = eintr then if e.cli.parser.isComplete then e.succeed P else .next e
  else if (e.feed P []).cli.parser.isComplete then disconnect { e.feed P [] with err := 0 }
  else (e.feed P []).retryOrDisconnect

/-- A turn of the loop that receives. `data` are the bytes, if `recv` returns some. -/
def recvTurn (io : IoTurn) (data : ByteString) : Turn σ :=
  match e.checkTimeout io.now with
  | none => e.timedOut
  | some e =>
    if io.cancel || io.cancelled then e.disconnect
    else
      match io.result with
      | some _ => e.recvData P data
      | none =>
        match e.checkTimeout io.later with
        | none => e.timedOut
        | some e => e.recvFailed P io.errno

end Exec

/-! ## Calls of `http_client_send` -/

/-- What a call returns. -/
structure ExecReturn where
  code : Int
  received : ByteString
  completed : Bool
  deriving DecidableEq, Repr

/-- A request as it is written to a connection. -/
structure RequestWrite where
  https : Bool
  tls : Bool
  failed : Bool
  deriving DecidableEq, Repr

/-- A read of bytes that are parsed into the response of a call. `sent` are the calls at which the server
    sent them. -/
structure ResponseRead where
  call : Nat
  sent : List Nat
  failed : Bool
  deriving DecidableEq, Repr

/-- A client and its connections. `exec` is the running `http_client_exec`. History variables: `returns`,
    `writes` and `reads`. -/
structure ClientWorld (σ : Type) where
  cli : HttpClient σ
  conns : Nat → Conn
  nconns : Nat
  calls : Nat
  exec : Option (Exec σ)
  returns : List ExecReturn
  writes : List RequestWrite
  reads : List ResponseRead

/-- The parser, and the request that a redirected request becomes. -/
structure ClientEnv (σ : Type) where
  parser : ResponseParser σ
  redirectTo : ClientRequest → ByteString → ClientRequest

variable (env : ClientEnv σ)

/-- A client that has made no call. -/
def newClientWorld (host : ByteString) (port : Nat) : ClientWorld σ where
  cli := { newClient env.parser with host := host, port := port }
  conns := fun _ => ⟨false, [], false⟩
  nconns := 0
  calls := 0
  exec := none
  returns := []
  writes := []
  reads := []

/-- What can happen: a call of `http_client_send`, the turns of `http_client_exec`, and bytes from the
    server. -/
inductive ClientAct where
  | call (req : ClientRequest)
  | start (now : Int)
  | connect (failure : Option Int) (now : Int)
  | send (io : IoTurn)
  | recv (io : IoTurn)
  | server (conn : Nat) (bytes : ByteString)

variable (w : ClientWorld σ)

namespace ClientWorld

/-- Changes connection `conn`. -/
def updateConn (conn : Nat) (change : Conn → Conn) : ClientWorld σ :=
  { w with conns := fun c => if c = conn then change (w.conns c) else w.conns c }

/-- A call that fails spoils its connection. -/
def spoil (e : Exec σ) (code : Int) : ClientWorld σ :=
  match e.used with
  | some conn => if code ≠ 0 ∨ e.completed = false then w.updateConn conn fun c => { c with failed := true } else w
  | none => w

/-- `http_client_redirect`: the request to the new location -/
def redirected (e : Exec σ) : Option ClientRequest :=
  let location := env.parser.location e.cli.parser.vendored
  if e.req.redirect && env.parser.isRedirect e.cli.parser.vendored && location ≠ [] then
    some (env.redirectTo e.req location)
  else none

/-- The end of a call, which a redirect continues. -/
def returned (e : Exec σ) (code : Int) : ClientWorld σ :=
  let w := w.spoil e code
  { w with
    cli := if e.temporary then w.cli else e.cli
    exec :=
      if code = 0 then (redirected env e).map fun req => newExec (newClient env.parser) true req else none
    returns := w.returns ++ [⟨code, e.received, e.completed⟩] }

/-- The client after a turn. -/
def afterTurn : Turn σ → ClientWorld σ
  | .next e => { w with exec := some e }
  | .return_ e code => w.returned env e code

/-- Records the write of a request. -/
def wrote (e : Exec σ) (conn : Nat) : ClientWorld σ :=
  { w with writes := w.writes ++ [⟨e.req.https, (w.conns conn).tls, (w.conns conn).failed⟩] }

/-- `recv` has taken `n` bytes, which are parsed if the call is not cancelled. -/
def received (conn n : Nat) (cancelled : Bool) : ClientWorld σ :=
  let c := w.conns conn
  { w.updateConn conn (fun c => { c with inbox := c.inbox.drop n }) with
    reads := if cancelled then w.reads else w.reads ++ [⟨w.calls, (c.inbox.take n).map Prod.fst, c.failed⟩] }

/-- The result of `send` is possible. -/
def canSend (io : IoTurn) : Bool := io.result.all fun n => 0 < n && n ≤ e.data.length

/-- The result of `recv` is possible: there are at least `n` bytes, and the buffer holds 1024. -/
def canRecv (conn : Nat) (io : IoTurn) : Bool :=
  io.result.all fun n => 0 < n && n ≤ 1024 && n ≤ (w.conns conn).inbox.length

/-- The bytes that `recv` returns. -/
def recvBytes (conn : Nat) (io : IoTurn) : ByteString :=
  ((w.conns conn).inbox.take (io.result.getD 0)).map Prod.snd

end ClientWorld

open ClientWorld in
/-- One step of the client, its user and its peers. -/
def clientStep : ClientAct → Option (ClientWorld σ)
  | .call req =>
    match w.exec with
    | some _ => none
    | none => some { w with calls := w.calls + 1, exec := some (newExec w.cli false req) }
  | .start now =>
    match w.exec with
    | some e => if e.pc = .start then some { w with exec := some (e.startTurn env.parser now) } else none
    | none => none
  | .connect failure now =>
    match w.exec with
    | some e =>
      if e.pc = .connect ∧ (failure.all fun code => code < 0) then
        let turn := e.connectTurn env.parser w.nconns failure now
        if failure = none then
          some ({ w.updateConn w.nconns (fun _ => ⟨e.req.https, [], false⟩) with nconns := w.nconns + 1 }.afterTurn env turn)
        else some (w.afterTurn env turn)
      else none
    | none => none
  | .send io =>
    match w.exec with
    | some e =>
      match e.cli.fd with
      | some conn =>
        if e.pc = .send ∧ canSend e io then
          let w := if e.callsSystem io && io.result.isSome then w.wrote e conn else w
          some (w.afterTurn env (e.sendTurn env.parser io))
        else none
      | none => none
    | none => none
  | .recv io =>
    match w.exec with
    | some e =>
      match e.cli.fd with
      | some conn =>
        if e.pc = .recv ∧ w.canRecv conn io then
          let turn := e.recvTurn env.parser io (w.recvBytes conn io)
          let w := match io.result with
            | some n => if e.callsSystem io then w.received conn n io.cancelled else w
            | none => w
          some (w.afterTurn env turn)
        else none
      | none => none
    | none => none
  | .server conn bytes =>
    if conn < w.nconns then
      some (w.updateConn conn fun c => { c with inbox := c.inbox ++ bytes.map fun b => (w.calls, b) })
    else none

/-! ## Properties of runs -/

namespace ClientWorld

/-- Success means that a response was received after the request was sent, and was complete. -/
def freshSuccess : Prop := ∀ r ∈ w.returns, r.code = 0 → r.received ≠ [] ∧ r.completed

/-- The turns that cannot be taken for a response: the call is not cancelled, a system call that fails leaves
    an error number or ends a response that goes up to the end of the connection, and, if the parser is still
    at the end of an earlier response, `recv` does not fail and its bytes call something. -/
def failsVisibly : ClientAct → Bool
  | .send io => !io.cancel && !io.cancelled && (io.result.isSome || io.errno ≠ 0)
  | .recv io =>
    !io.cancel && !io.cancelled && w.exec.all fun e => e.cli.fd.all fun conn =>
      let p := e.cli.parser
      match io.result with
      | some _ => !p.isComplete || !(env.parser.execute p.skipBody p.vendored (w.recvBytes conn io)).callbacks.isEmpty
      | none => !p.isComplete && (io.errno ≠ 0 || p.completes env.parser [])
  | _ => true

/-- The bytes of a request with scheme `https` are only written to a connection with TLS. -/
def neverClear : Prop := ∀ r ∈ w.writes, r.https → r.tls

/-- A connection that is used again has TLS if the request has the scheme `https`. -/
def reusesScheme : ClientAct → Bool
  | .start _ => w.exec.all fun e => !e.reuses || !e.req.https || e.cli.ssl
  | _ => true

/-- The bytes that are parsed into a response were sent by the server during this call, on a connection on
    which no exchange has failed; nothing is written to another connection. -/
def ownResponses : Prop :=
  (∀ r ∈ w.reads, (∀ k ∈ r.sent, k = r.call) ∧ r.failed = false) ∧ ∀ r ∈ w.writes, r.failed = false

/-- The server sends nothing on the connection that the client keeps between its calls, and the bytes that
    `recv` returns are parsed, are all there are if they complete a response and the connection is kept, and
    call something if the parser is still at the end of an earlier response, in which case `recv` is not
    interrupted. -/
def exchangesCleanly : ClientAct → Bool
  | .server conn _ => w.cli.fd ≠ some conn || w.exec.any fun e => !e.temporary
  | .recv io =>
    w.exec.all fun e => e.cli.fd.all fun conn =>
      let p := e.cli.parser
      let data := w.recvBytes conn io
      match io.result with
      | some n =>
        e.nparse env.parser data = n &&
        (!p.isComplete || !(env.parser.execute p.skipBody p.vendored data).callbacks.isEmpty) &&
        (!(p.feed env.parser data).isComplete ||
          !(e.req.keepAlive && env.parser.isKeepAlive (p.feed env.parser data).vendored) ||
          n = (w.conns conn).inbox.length)
      | none => !p.isComplete || io.errno ≠ eintr
  | _ => true

end ClientWorld

end HvVerified.Http
