import HvVerified.Http.HttpHandler

/-!
# A keep-alive connection

One connection of the HTTP server: the bytes of a sequence of requests arrive in segments (`on_recv`),
and asynchronous handlers, which hold the `HttpRequest` of the connection and its `HttpResponseWriter`,
finish at any time in between. What a handler answers is computed from the request it sees when it
finishes.
-/

namespace HvVerified.Http

open Base HttpHandler

variable {σ ρ : Type}

/-- A connection of the server. -/
structure Connection (σ ρ : Type) where
  handler : HttpHandler σ ρ
  closed : Bool
  /-- the number of bytes received so far -/
  received : Nat

variable (env : ServerEnv σ ρ)

/-- A connection that has received nothing. -/
def newConnection : Connection σ ρ := ⟨newHandler env, false, 0⟩

/-- What can happen on a connection. -/
inductive ConnAction where
  /-- a segment of the next `n` bytes -/
  | recv (n : Nat)
  /-- the end of an asynchronous handler, one of those in `running` -/
  | finish (i : Nat)
  deriving DecidableEq, Repr

/-- `on_recv` for the next `n` bytes of the stream. -/
def onRecv (stream : ByteString) (conn : Connection σ ρ) (n : Nat) : Connection σ ρ :=
  let r := feedRecvData env conn.handler ((stream.drop conn.received).take n)
  { handler := r.1, closed := r.2 ≠ n, received := conn.received + n }

/-- `HttpResponseWriter::End` of an asynchronous handler. On a closed connection nothing is written. -/
def onFinish (conn : Connection σ ρ) (i : Nat) : Connection σ ρ :=
  let h := conn.handler
  { conn with
    handler := { h with
      running := h.running.eraseIdx i
      written := if conn.closed then h.written else h.written ++ [env.respond h.req] } }

/-- One step of a connection that receives `stream`. -/
def connStep (stream : ByteString) (conn : Connection σ ρ) : ConnAction → Option (Connection σ ρ)
  | .recv n =>
    if conn.closed = false ∧ 0 < n ∧ conn.received + n ≤ stream.length then some (onRecv env stream conn n) else none
  | .finish i => if i < conn.handler.running.length then some (onFinish env conn i) else none

/-! ## Requests by themselves -/

/-- A handler that has recognised HTTP/1 and not received anything yet. -/
def httpHandler : HttpHandler σ ρ := { newHandler env with protocol := .httpV1 }

/-- The handler after one segment `s` on a new connection. -/
def readAlone (s : ByteString) : HttpHandler σ ρ := (feedRecvData env (httpHandler env) s).1

/-- What a handler should see of a request. -/
def requestOf (s : ByteString) : HttpRequest := (readAlone env s).delivered.headD newRequest

/-- A valid request of a keep-alive connection: it is handed to the service, which does not refuse it, does
    not close the connection and is not asked to change the protocol. -/
structure KeepAliveRequest (env : ServerEnv σ ρ) (s : ByteString) : Prop where
  valid : env.parser.isRequest s
  accepted : (readAlone env s).delivered = [requestOf env s]
  keepalive : (readAlone env s).keepalive
  upgrade : (readAlone env s).upgrade = false
  handled : env.handling (requestOf env s) ≠ .close

/-- Every handler was given its own request, and those that still run see it unchanged; the responses are
    those to the first requests, in order. On an open connection every request that has been received is
    answered or runs. -/
def Paired (reqs : List ByteString) (conn : Connection σ ρ) : Prop :=
  ∃ j k, j ≤ k ∧ k ≤ reqs.length ∧
    conn.handler.delivered = (reqs.take k).map (requestOf env) ∧
    conn.handler.running = ((reqs.take k).drop j).map (requestOf env) ∧
    (∀ r ∈ conn.handler.running, conn.handler.req = r) ∧
    conn.handler.written = (reqs.take j).map (fun s => env.respond (requestOf env s)) ∧
    (conn.closed = false → (reqs.take k).flatten.length ≤ conn.received ∧
      (k < reqs.length → conn.received < (reqs.take (k + 1)).flatten.length))

/-- Bytes are received only while no asynchronous handler runs, and no segment goes on behind the end of a
    request with an asynchronous handler. -/
def recvAllowed (reqs : List ByteString) (conn : Connection σ ρ) : ConnAction → Bool
  | .recv n => conn.handler.running.isEmpty &&
      (List.range reqs.length).all fun k =>
        !(decide (env.handling (requestOf env (reqs.getD k [])) = .async) &&
          decide (conn.received < (reqs.take (k + 1)).flatten.length) &&
          decide ((reqs.take (k + 1)).flatten.length < conn.received + n))
  | .finish _ => true

end HvVerified.Http
