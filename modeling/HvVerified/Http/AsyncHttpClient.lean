import HvVerified.Http.HttpClient
import Mathlib.Data.List.AList

/-!
# `http/client/AsyncHttpClient.cpp`: the asynchronous client

One `AsyncHttpClient` with the events of its loop: functions that `queueInLoop` has put into the queue,
retry timers, and the events of the channels. What the system gives (the clock, name resolution, sockets,
whether output is still queued when a channel is closed) and a `cancel` of another thread are parameters of
the event.

Tasks and requests are numbers; several tasks may have the same request. Proxies and HTTP/2 are left out.
-/

namespace HvVerified.Http

open Base

variable {σ : Type}

/-! ## Channels -/

/-- The status of a `Channel`. -/
inductive ChannelStatus where
  | opened
  | connecting
  | connected
  | closed
  deriving DecidableEq, Repr

/-- `HttpClientContext`. `resp` says that there is a response object, and `timer` that the timer of the task
    is running. -/
structure HttpClientContext (σ : Type) where
  task : Option Nat
  resp : Bool
  parser : Option (ClientParser σ)
  timer : Bool

variable (P : ResponseParser σ)

namespace HttpClientContext

variable (ctx : HttpClientContext σ)

/-- `cancelTimer` -/
def cancelTimer : HttpClientContext σ := { ctx with timer := false }

/-- `cancelTask`: no task and no timer -/
def cancelTask : HttpClientContext σ := { ctx.cancelTimer with task := none }

/-- `callback`, after the callback of the task -/
def callback : HttpClientContext σ := { ctx.cancelTimer with task := none }

/-- `successCallback` -/
def successCallback : HttpClientContext σ := { ctx.callback with resp := false }

/-- `errorCallback`: the callback gets no response -/
def errorCallback : HttpClientContext σ := callback { ctx with resp := false }

/-- Whether the end of the stream completes the response. -/
def isEof (ctx : HttpClientContext σ) : Bool :=
  ctx.parser.any fun p => (p.feed P []).isComplete

/-- A request is submitted to the parser. -/
def submit (P : ResponseParser σ) (ctx : HttpClientContext σ) (isHead : Bool) : HttpClientContext σ :=
  { ctx with
    resp := true
    parser := some (((ctx.parser.getD ⟨.startReqOrRes, false, P.init⟩).initResponse P).submitRequest isHead) }

end HttpClientContext

/-- `SocketChannel`. `connects` counts the calls of `startConnect` that the loop has not answered. -/
structure SocketChannel (σ : Type) where
  peeraddr : ByteString
  ssl : Bool
  status : ChannelStatus
  connects : Nat
  ctx : HttpClientContext σ

/-- A channel of a new socket, not yet connected. -/
def newChannel (addr : ByteString) (https : Bool) : SocketChannel σ :=
  ⟨addr, https, .opened, 0, ⟨none, false, none, false⟩⟩

namespace SocketChannel

variable (c : SocketChannel σ)

/-- `ctx->task = task`, and the timer of the task -/
def setTask (t timeout : Nat) : SocketChannel σ :=
  { c with ctx := { c.ctx with task := some t, timer := c.ctx.timer || 0 < timeout } }

/-- `startConnect` -/
def startConnect : SocketChannel σ :=
  { c with status := .connecting, connects := c.connects + 1 }

/-- `on_connect`, after `getpeername` -/
def onConnect (peer : ByteString) : SocketChannel σ :=
  { c with peeraddr := peer, status := .connected, connects := c.connects - 1 }

end SocketChannel

/-! ## The client -/

/-- A request and its cancel flag. -/
structure AsyncRequest where
  req : ClientRequest
  cancel : Bool
  deriving DecidableEq, Repr

namespace AsyncRequest

/-- One less, of a `uint32_t`. -/
def decrement (n : Nat) : Nat := if n = 0 then 2 ^ 32 - 1 else n - 1

/-- The first lines of `send`. -/
def clampRetries (r : AsyncRequest) : AsyncRequest :=
  if 0 < r.req.retryCount ∧ 0 < r.req.retryDelay then
    { r with req := { r.req with
        retryCount := min r.req.retryCount (decrement (r.req.timeout * 1000 / r.req.retryDelay)) } }
  else r

/-- One retry less. -/
def takeRetry (r : AsyncRequest) : AsyncRequest :=
  { r with req := { r.req with retryCount := decrement r.req.retryCount } }

end AsyncRequest

/-- A request as it is written: what it asks for and what the channel is. -/
structure TaskWrite where
  https : Bool
  tls : Bool
  deriving DecidableEq, Repr

/-- An `AsyncHttpClient`. `tasks` gives the request of each task, and `ntasks` is the number of tasks that
    have been sent. `queue` are the tasks of the calls of `sendInLoop` that are queued, and `retries` those
    of the retry timers. History variables: `called` are the tasks that are done, and `writes`. -/
structure AsyncWorld (σ : Type) where
  reqs : Nat → AsyncRequest
  tasks : Nat → Nat
  ntasks : Nat
  queue : List Nat
  retries : List Nat
  channels : AList fun _ : Nat => SocketChannel σ
  pools : ByteString → List Nat
  called : List Nat
  writes : List TaskWrite

/-- A client without tasks and channels. -/
def newAsyncWorld (reqs : Nat → ClientRequest) (tasks : Nat → Nat) : AsyncWorld σ where
  reqs := fun i => ⟨reqs i, false⟩
  tasks := tasks
  ntasks := 0
  queue := []
  retries := []
  channels := ∅
  pools := fun _ => []
  called := []
  writes := []

/-- What the system gives to `doTask`: the time since the task was sent, the address of the host, the
    descriptor of a new socket, whether the task is cancelled meanwhile, and whether output is queued. -/
structure TaskTurn where
  elapsed : Int
  addr : Option ByteString
  socket : Option Nat
  cancelled : Bool
  later : Bool
  deriving DecidableEq, Repr

variable (w : AsyncWorld σ) (env : ClientEnv σ)

namespace AsyncWorld

/-- The request of task `t`. -/
def request (t : Nat) : AsyncRequest := w.reqs (w.tasks t)

/-- Changes request `i`. -/
def updateReq (i : Nat) (change : AsyncRequest → AsyncRequest) : AsyncWorld σ :=
  { w with reqs := fun j => if j = i then change (w.reqs j) else w.reqs j }

/-- Stores the channel of `fd`. -/
def setChannel (fd : Nat) (c : SocketChannel σ) : AsyncWorld σ :=
  { w with channels := w.channels.insert fd c }

/-- Stores the pool of `addr`. -/
def setPool (addr : ByteString) (fds : List Nat) : AsyncWorld σ :=
  { w with pools := fun a => if a = addr then fds else w.pools a }

/-- The callback of task `t` is called. -/
def call (w : AsyncWorld σ) (t : Nat) : AsyncWorld σ := { w with called := w.called ++ [t] }

/-- A task waits in the event loop. -/
def enqueue (t : Nat) : AsyncWorld σ := { w with queue := w.queue ++ [t] }

/-- What `onclose` does with the task of the channel. -/
def closedTask (ctx : HttpClientContext σ) (t : Nat) : AsyncWorld σ :=
  let r := w.request t
  if ctx.isEof P || r.cancel then w.call t
  else if r.req.retryCount = 0 then (w.updateReq (w.tasks t) .takeRetry).call t
  else if 0 < r.req.retryDelay then
    { w.updateReq (w.tasks t) .takeRetry with retries := w.retries ++ [t] }
  else (w.updateReq (w.tasks t) .takeRetry).enqueue t

/-- `onclose` of a channel -/
def onclose (fd : Nat) (c : SocketChannel σ) : AsyncWorld σ :=
  let w := w.setPool c.peeraddr ((w.pools c.peeraddr).erase fd)
  let w := match c.ctx.task with
    | some t => w.closedTask P c.ctx t
    | none => w
  { w with channels := w.channels.erase fd }

/-- `Channel::close`. If output is queued, the channel is closed later. -/
def close (P : ResponseParser σ) (w : AsyncWorld σ) (fd : Nat) (c : SocketChannel σ) (later : Bool) : AsyncWorld σ :=
  if c.status = .closed then w
  else if later then w.setChannel fd { c with status := .closed }
  else w.onclose P fd c

/-- `sendRequest` on the channel `c` of the task `t` -/
def sendRequest (fd : Nat) (c : SocketChannel σ) (t : Nat)
    (cancelled later : Bool) : AsyncWorld σ :=
  let w := if cancelled then w.updateReq (w.tasks t) fun r => { r with cancel := true } else w
  let r := w.request t
  let c := { c with ctx := c.ctx.submit P r.req.isHead }
  let w := w.setChannel fd c
  if r.req.text = [] then w
  else if r.cancel then w.close P fd c later
  else { w with writes := w.writes ++ [⟨r.req.https, c.ssl⟩] }

/-- The connection for a task: the first one of the pool, else a new socket. -/
def getConn (req : ClientRequest) (addr : ByteString) (socket : Option Nat) :
    Option (AsyncWorld σ × Nat) :=
  match w.pools addr with
  | fd :: rest => some (w.setPool addr rest, fd)
  | [] => socket.map fun fd => (w.setChannel fd (newChannel addr req.https), fd)

/-- The lines of `doTask` from `getChannel` on. There is no channel: the assertion fails. -/
def startTask (t fd : Nat) (turn : TaskTurn) : Option (AsyncWorld σ) :=
  match w.channels.lookup fd with
  | none => none
  | some c =>
    let c := c.setTask t (w.request t).req.timeout
    let w := w.setChannel fd c
    if c.status = .connected then some (w.sendRequest P fd c t turn.cancelled turn.later)
    else some (w.setChannel fd c.startConnect)

/-- `doTask`, with the code that it returns -/
def doTask (t : Nat) (turn : TaskTurn) : Option (AsyncWorld σ × Int) :=
  let r := w.request t
  let timeoutMs : Int := r.req.timeout * 1000
  if r.cancel then some (w, -1)
  else if 0 < timeoutMs ∧ timeoutMs ≤ turn.elapsed then some (w, -10)
  else
    match turn.addr with
    | none => some (w, -20)
    | some addr =>
      match w.getConn r.req addr turn.socket with
      | none => some (w, -30)
      | some (w, fd) => (w.startTask P t fd turn).map fun w => (w, 0)

/-- `sendInLoop`: a task that cannot be done is answered at once -/
def sendInLoop (t : Nat) (turn : TaskTurn) : Option (AsyncWorld σ) :=
  (w.doTask P t turn).map fun r => if r.2 ≠ 0 then r.1.call t else r.1

/-- A response with a redirect status and a `Location`: the task is sent again. -/
def redirect (env : ClientEnv σ) (w : AsyncWorld σ) (t : Nat) (location : ByteString) : AsyncWorld σ :=
  (w.updateReq (w.tasks t) fun r => { r with req := env.redirectTo r.req location }).enqueue t

/-- What a complete response does to its task. A redirect status without a `Location` does nothing. -/
def answer (w : AsyncWorld σ) (c : SocketChannel σ) (p : ClientParser σ) (t : Nat) :
    AsyncWorld σ × SocketChannel σ :=
  if (w.request t).req.redirect && env.parser.isRedirect p.vendored then
    if env.parser.location p.vendored ≠ [] then
      (w.redirect env t (env.parser.location p.vendored), { c with ctx := c.ctx.cancelTask })
    else (w, c)
  else (w.call t, { c with ctx := c.ctx.successCallback })

/-- `onread` after the bytes that completed a response. -/
def oncomplete (w : AsyncWorld σ) (fd : Nat) (c : SocketChannel σ) (p : ClientParser σ) (t : Nat)
    (later : Bool) : AsyncWorld σ :=
  let keepalive := (w.request t).req.keepAlive && env.parser.isKeepAlive p.vendored
  let r := w.answer env c p t
  let w := r.1.setChannel fd r.2
  if keepalive then w.setPool r.2.peeraddr (w.pools r.2.peeraddr ++ [fd]) else w.close env.parser fd r.2 later

/-- `onread`. Without a response object the behaviour is undefined. -/
def onread (w : AsyncWorld σ) (fd : Nat) (c : SocketChannel σ) (p : ClientParser σ)
    (data : ByteString) (later : Bool) : Option (AsyncWorld σ) :=
  match c.ctx.task with
  | none => some w
  | some t =>
    if (w.request t).cancel then some (w.close env.parser fd c later)
    else if c.ctx.resp = false then none
    else
      let nparse := (env.parser.execute p.skipBody p.vendored data).nparse
      let p := p.feed env.parser data
      let c := { c with ctx := { c.ctx with parser := some p } }
      if nparse ≠ data.length then
        let c := { c with ctx := c.ctx.errorCallback }
        some (((w.call t).setChannel fd c).close env.parser fd c later)
      else if p.isComplete then some (w.oncomplete env fd c p t later)
      else some (w.setChannel fd c)

end AsyncWorld

/-- What can happen: the next task is sent, the flag `cancel` of a request is set, the first function of the
    queue runs, a retry timer fires, and the events of the channels. -/
inductive AsyncAct where
  | send
  | cancel (i : Nat)
  | run (turn : TaskTurn)
  | retry (t : Nat) (turn : TaskTurn)
  | connected (fd : Nat) (peer : ByteString) (cancelled later : Bool)
  | read (fd : Nat) (data : ByteString) (later : Bool)
  | timeout (fd : Nat) (later : Bool)
  | closed (fd : Nat)

/-- A new socket has an `fd` that no channel holds. -/
def AsyncWorld.newSocket (turn : TaskTurn) : Bool :=
  turn.socket.all fun fd => (w.channels.lookup fd).isNone

/-- One step of the client, its users and its peers. -/
def asyncStep (w : AsyncWorld σ) : AsyncAct → Option (AsyncWorld σ)
  | .send => some ({ w.updateReq (w.tasks w.ntasks) .clampRetries with ntasks := w.ntasks + 1 }.enqueue w.ntasks)
  | .cancel i => some (w.updateReq i fun r => { r with cancel := true })
  | .run turn =>
    match w.queue with
    | [] => none
    | t :: queue => if w.newSocket turn then { w with queue := queue }.sendInLoop env.parser t turn else none
  | .retry t turn =>
    if t ∈ w.retries ∧ w.newSocket turn then
      { w with retries := w.retries.erase t }.sendInLoop env.parser t turn
    else none
  | .connected fd peer cancelled later =>
    match w.channels.lookup fd with
    | none => none
    | some c =>
      -- without a task, the assertion of sendRequest fails
      match c.ctx.task with
      | none => none
      | some t =>
        if 0 < c.connects then some (w.sendRequest env.parser fd (c.onConnect peer) t cancelled later) else none
  | .read fd data later =>
    match w.channels.lookup fd with
    | none => none
    | some c =>
      match c.ctx.parser with
      | none => none
      | some p => w.onread env fd c p data later
  | .timeout fd later =>
    match w.channels.lookup fd with
    | none => none
    | some c =>
      if c.ctx.timer then
        let c := { c with ctx := c.ctx.cancelTimer }
        some ((w.setChannel fd c).close env.parser fd c later)
      else none
  | .closed fd =>
    match w.channels.lookup fd with
    | none => none
    | some c => some (w.onclose env.parser fd c)

/-! ## Properties of runs -/

namespace AsyncWorld

/-- The task has a place: it is queued, waits for its retry, belongs to a channel, or is done. -/
def hasPlace (t : Nat) : Prop :=
  t ∈ w.queue ∨ t ∈ w.retries ∨ (∃ fd c, w.channels.lookup fd = some c ∧ c.ctx.task = some t) ∨ t ∈ w.called

/-- The callback of a task is called at most once, no task is dropped, and the pooled connections have no
    task. -/
def callsOnce : Prop :=
  w.called.Nodup ∧ (∀ t, t < w.ntasks → w.hasPlace t) ∧
    ∀ addr, ∀ fd ∈ w.pools addr, ∀ c, w.channels.lookup fd = some c → c.ctx.task = none

/-- A response that keeps the connection, to a request that follows redirects, has a `Location` if it has a
    redirect status. -/
def locatesRedirects (w : AsyncWorld σ) : AsyncAct → Bool
  | .read fd data _ =>
    (w.channels.lookup fd).all fun c => c.ctx.task.all fun t => c.ctx.parser.all fun p =>
      let req := (w.request t).req
      let p := p.feed env.parser data
      !p.isComplete || !(req.redirect && env.parser.isRedirect p.vendored) ||
        !(req.keepAlive && env.parser.isKeepAlive p.vendored) || env.parser.location p.vendored ≠ []
  | _ => true

/-- A request with the scheme `https` is only written to a channel with TLS. -/
def neverClear : Prop := ∀ r ∈ w.writes, r.https → r.tls

/-- The pool has a connection without TLS for no task with the scheme `https`. -/
def poolSecure (t : Nat) (turn : TaskTurn) : Bool :=
  !(w.request t).req.https || turn.addr.all fun addr => (w.pools addr).head?.all fun fd =>
    (w.channels.lookup fd).all SocketChannel.ssl

/-- A task with the scheme `https` does not find a pooled connection without TLS, and a request that another
    channel has is not redirected to `https`. -/
def takesSecure (w : AsyncWorld σ) : AsyncAct → Bool
  | .run turn => w.queue.head?.all fun t => w.poolSecure t turn
  | .retry t turn => w.poolSecure t turn
  | .read fd data _ =>
    (w.channels.lookup fd).all fun c => c.ctx.task.all fun t => c.ctx.parser.all fun p =>
      let r := w.request t
      let p := p.feed env.parser data
      !p.isComplete || !(r.req.redirect && env.parser.isRedirect p.vendored) || env.parser.location p.vendored = [] ||
        !(env.redirectTo r.req (env.parser.location p.vendored)).https ||
        w.channels.entries.all fun s => s.1 = fd || s.2.ssl || s.2.ctx.task.all fun t' => w.tasks t' ≠ w.tasks t
  | _ => true

end AsyncWorld

end HvVerified.Http
