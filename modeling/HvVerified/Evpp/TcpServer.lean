import Mathlib.Algebra.Ring.Nat
import Mathlib.Logic.Function.Basic

/-!
# `evpp/TcpServer.h`, `evpp/EventLoopThreadPool.h`: the connections of a server

`onAccept` runs on the acceptor loop and gives a connection to a worker loop, which it counts there in
`connectionNum`. On the worker loop `newConnEvent` takes the connection over or closes it; `connectionNum()` and
`addChannel` are critical sections of `mutex_` of their own, so that other loops may run between them.
A loop runs one callback at a time, but a callback of the user may close further connections of its loop.
-/

namespace HvVerified.Evpp

/-- `load_balance_e` -/
inductive LoadBalance where
  | roundRobin
  | random
  | leastConnections
  | ipHash
  | urlHash
  deriving DecidableEq, Repr

/-- The connection of an `hio_t`: what `hio_next_id` has given it, and its descriptor. -/
structure ConnIo where
  id : UInt32
  fd : Fin (2 ^ 31)
  deriving DecidableEq, Repr

/-- The states of a channel that matter here. -/
inductive ChannelStatus where
  | connected
  | closed
  deriving DecidableEq, Repr

/-- A channel in the map of the server, and the loop that runs it. -/
structure ServerChannel where
  io : ConnIo
  loop : Nat
  status : ChannelStatus
  deriving DecidableEq, Repr

/-- An `EventLoop` of the server: the counter `connectionNum`, the `newConnEvent`s in its queue, and the connection
    of the one that is running, if it has found room and not called `addChannel` yet. `rejected` is a history
    variable: how many connections given to this loop were over `max_connections`. -/
structure ServerLoop where
  connectionNum : Nat := 0
  newConns : List ConnIo := []
  adding : Option ConnIo := none
  rejected : Nat := 0
  deriving DecidableEq, Repr

/-- The worker loops are `0, …, threadNum - 1`, and `threadNum` is the acceptor loop. -/
structure TcpServer where
  threadNum : Nat
  maxConnections : Nat := 0xFFFFFFFF
  loadBalance : LoadBalance := .roundRobin
  nextLoopIdx : Nat := 0
  loops : Nat → ServerLoop := fun _ => {}
  channels : List ServerChannel := []

variable (s : TcpServer)

namespace TcpServer

/-- A loop is changed. -/
def modifyLoop (l : Nat) (f : ServerLoop → ServerLoop) : TcpServer :=
  { s with loops := Function.update s.loops l (f (s.loops l)) }

/-- The `for` loop of `LB_LeastConnections`. -/
def leastLoop (connectionNum : Nat → Nat) (numLoops : Nat) : Nat :=
  (List.range' 1 (numLoops - 1)).foldl (fun idx i => if connectionNum i < connectionNum idx then i else idx) 0

/-- `EventLoopThreadPool::nextLoop`, and `next_loop_idx_` afterwards. -/
def nextLoop (s : TcpServer) (rand : Nat) : Option Nat × Nat :=
  if s.threadNum = 0 then (none, s.nextLoopIdx)
  else
    match s.loadBalance with
    | .roundRobin =>
      let next := (s.nextLoopIdx + 1) % 2 ^ 32
      let next := if next ≥ s.threadNum then 0 else next
      (some (next % s.threadNum), next)
    | .random => (some (rand % s.threadNum), s.nextLoopIdx)
    | .leastConnections => (some (leastLoop (fun i => (s.loops i).connectionNum) s.threadNum), s.nextLoopIdx)
    | .ipHash | .urlHash => (some 0, s.nextLoopIdx)

/-- `newConnEvent` up to `addChannel`. -/
def newConnEvent (l : Nat) (io : ConnIo) : TcpServer :=
  if s.channels.length ≥ s.maxConnections then s.modifyLoop l fun loop => { loop with rejected := loop.rejected + 1 }
  else s.modifyLoop l fun loop => { loop with adding := some io }

/-- `onAccept`. Without worker loops, `runInLoop` calls `newConnEvent` at once. -/
def onAccept (io : ConnIo) (rand : Nat) : TcpServer :=
  let next := s.nextLoop rand
  let s := { s with nextLoopIdx := next.2 }
  match next.1 with
  | none =>
    (s.modifyLoop s.threadNum fun loop =>
      { loop with connectionNum := (loop.connectionNum + 1) % 2 ^ 32 }).newConnEvent s.threadNum io
  | some l =>
    s.modifyLoop l fun loop =>
      { loop with
        connectionNum := (loop.connectionNum + 1) % 2 ^ 32
        newConns := loop.newConns ++ [io] }

/-- The rest of `newConnEvent`. -/
def addChannel (l : Nat) (io : ConnIo) : TcpServer :=
  { s.modifyLoop l fun loop => { loop with adding := none } with
    channels := s.channels.filter (fun c => c.io.id ≠ io.id) ++ [⟨io, l, .connected⟩] }

/-- `channel->onclose` up to `removeChannel`. -/
def onClose (channel : ServerChannel) : TcpServer :=
  { s.modifyLoop channel.loop fun loop => { loop with connectionNum := (loop.connectionNum + 2 ^ 32 - 1) % 2 ^ 32 } with
    channels := s.channels.map fun c => if c.io.id = channel.io.id then { c with status := .closed } else c }

/-- `TcpServerEventLoopTmpl::removeChannel` -/
def removeChannel (id : UInt32) : TcpServer :=
  { s with channels := s.channels.filter fun c => c.io.id ≠ id }

/-- The loop is in no callback. -/
def loopFree (l : Nat) : Bool :=
  (s.loops l).adding.isNone && s.channels.all fun c => c.loop ≠ l || c.status = .connected

end TcpServer

/-- What the acceptor and the loops do. -/
inductive ServerAct where
  | accept (io : ConnIo) (rand : Nat)
  /-- the loop takes a `newConnEvent` from its queue -/
  | newConnEvent (l : Nat)
  | addChannel (l : Nat)
  | onClose (id : UInt32)
  | removeChannel (id : UInt32)
  deriving DecidableEq, Repr

/-- The open connections have descriptors of their own, and ids as long as `hio_next_id` does not come back to one
    in use. -/
def TcpServer.fresh (io : ConnIo) : Bool :=
  s.channels.all fun c => c.io.id ≠ io.id && c.io.fd ≠ io.fd

/-- One step of one loop. -/
def tcpStep : ServerAct → Option TcpServer
  | .accept io rand => if s.loopFree s.threadNum then some (s.onAccept io rand) else none
  | .newConnEvent l =>
    if l < s.threadNum ∧ s.loopFree l then
      match (s.loops l).newConns with
      | [] => none
      | io :: rest => some ((s.modifyLoop l fun loop => { loop with newConns := rest }).newConnEvent l io)
    else none
  | .addChannel l =>
    match (s.loops l).adding with
    | none => none
    | some io => if s.fresh io then some (s.addChannel l io) else none
  | .onClose id =>
    match s.channels.find? fun c => c.io.id = id with
    | none => none
    | some c =>
      if c.status = .connected ∧ (s.loops c.loop).adding.isNone then some (s.onClose c) else none
  | .removeChannel id =>
    match s.channels.find? fun c => c.io.id = id with
    | none => none
    | some c =>
      if c.status = .closed ∧ (s.loops c.loop).adding.isNone then some (s.removeChannel id) else none

/-! ## What the counters are for -/

namespace TcpServer

/-- The open channels that run in a loop. -/
def openOn (l : Nat) : Nat :=
  s.channels.countP fun c => c.loop = l && c.status = .connected

/-- The `newConnEvent`s that have found room and not called `addChannel` yet. -/
def addingNum : Nat :=
  (List.range (s.threadNum + 1)).countP fun l => (s.loops l).adding.isSome

/-- Every connection that was accepted has its channel or was closed. -/
def Settled : Prop := ∀ l ≤ s.threadNum, (s.loops l).newConns = [] ∧ (s.loops l).adding = none

instance (s : TcpServer) : Decidable s.Settled := inferInstanceAs (Decidable (∀ l ≤ s.threadNum, _))

/-- Every `newConnEvent` that finds room finds it also for those that have not called `addChannel` yet. -/
def RoomLeft : ServerAct → Prop
  | .newConnEvent _ => s.channels.length < s.maxConnections → s.channels.length + s.addingNum < s.maxConnections
  | _ => True

instance (s : TcpServer) (a : ServerAct) : Decidable (s.RoomLeft a) :=
  match a with
  | .newConnEvent _ => inferInstanceAs (Decidable (_ → _))
  | .accept _ _ | .addChannel _ | .onClose _ | .removeChannel _ => inferInstanceAs (Decidable True)

end TcpServer

/-- A server without connections. -/
def tcpStarted : Prop :=
  s.loops = (fun _ => {}) ∧ s.channels = []

end HvVerified.Evpp
