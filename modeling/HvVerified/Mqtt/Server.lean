import HvVerified.Lib.Runs
import HvVerified.Mqtt.TopicTree

/-!
# `mqtt/mqtt_server.cpp`: the server

The state holds the topic tree, the sessions that are alive, and the log of what the server has written
to the channels and of the user callbacks it has called. Where the source goes on with the null
pointer that `parseProp` returns for a malformed length, the packet has no result. The callbacks do not
call back into the server.
-/

namespace HvVerified.Mqtt

open Base Lib

/-- `MqttSession`. Nothing in it says what `onAuth` has answered. -/
structure MqttSession where
  /-- the TCP channel is set -/
  tcp : Bool := false
  /-- the WebSocket channel is set -/
  ws : Bool := false
  /-- the protocol version that the last CONNECT packet names -/
  version : Nat := mqttProtocolV311
  /-- the topic of the will; there is none if it is empty -/
  willTopic : StdString := []
  /-- what the will says -/
  willPayload : StdString := []
  /-- the properties of the will, in version 5 -/
  willProp : StdString := []
  /-- the last packet identifier of a PUBLISH packet to the client, a `uint16_t` -/
  mid : Nat := 0
  deriving DecidableEq, Repr

/-- What leaves the server: bytes on the channel of a session, and calls of the application's callbacks. -/
inductive Output where
  | write (session : SessionId) (bytes : List UInt8)
  | onPublish (session : SessionId) (message : MqttMessage)
  | onSubscribe (session : SessionId) (message : MqttMessage)
  | onUnsubscribe (session : SessionId) (message : MqttMessage)
  deriving DecidableEq, Repr

/-- `MqttServer`. The sessions are numbered in the order in which they were created. -/
structure MqttServer where
  topicTree : TopicNode := .new [separator]
  created : Nat := 0
  sessions : SessionId → Option MqttSession := fun _ => none
  log : List Output := []

/-- `onAuth`, which may look at everything. It only answers: what the application does to a session besides, such as
    closing it, is a step of its own. -/
abbrev OnAuth := MqttServer → SessionId → MqttConn → MqttConnack

/-- The policy of a new server. -/
def acceptAll : OnAuth := fun _ _ _ => .accepted

namespace MqttServer

variable (server : MqttServer) (id : SessionId)

/-- The session has not been released. -/
def live : Bool := (server.sessions id).isSome

/-- The log grows by one entry. -/
def output (o : Output) : MqttServer := { server with log := server.log ++ [o] }

/-- The session is changed, if it has not been released. -/
def modifySession (f : MqttSession → MqttSession) : MqttServer :=
  { server with sessions := Function.update server.sessions id ((server.sessions id).map f) }

/-- The topic tree is changed. -/
def modifyTree (f : TopicNode → TopicNode) : MqttServer := { server with topicTree := f server.topicTree }

end MqttServer

/-! ## `MqttSession` -/

/-- `MqttSession::write`: to the channel of the session, if it has one. -/
def sessionWrite (server : MqttServer) (id : SessionId) (bytes : List UInt8) : MqttServer :=
  match server.sessions id with
  | some session => if session.tcp || session.ws then server.output (.write id bytes) else server
  | none => server

/-- `MqttSession::close`: the session loses its channels. -/
def sessionClose (server : MqttServer) (id : SessionId) : MqttServer :=
  server.modifySession id fun session => { session with tcp := false, ws := false }

/-- `MqttSession::parseProp`: the property and the pointer behind it. The length is cut to an `int`
    for the pointer, and to an `unsigned short` for the property. -/
def parseProp (version : Nat) (mem : PacketMem) (p : Int) : Option (StdString × Int) :=
  if version ≠ mqttProtocolV5 then some ([], p)
  else
    let (len, propBytes) := varintDecode (mem.ptr p) 0
    let propLen := Int.bmod len.toNat (2 ^ 32)
    if propBytes ≤ 0 then none
    else some (mem.bytes (p + propBytes) (propLen % 2 ^ 16).toNat, p + propBytes + propLen)

/-- `MqttSession::send`: a header, and the body unless it is empty. -/
def sessionSend (server : MqttServer) (id : SessionId) (type : MqttType) (data : List UInt8) : MqttServer :=
  let server := sessionWrite server id (mqttHeadPack { type, length := data.length })
  if data.length ≠ 0 then sessionWrite server id data else server

/-- `MqttSession::sendAck` -/
def sessionSendAck (server : MqttServer) (id : SessionId) (version : Nat) (type : MqttType) (mid : Nat)
    (reason : UInt8 := 0) : MqttServer :=
  let head : MqttHead := {
    type
    qos := if type = .pubrel then 1 else 0
    length := if version = mqttProtocolV5 then 4 else 2 }
  sessionWrite server id
    (mqttHeadPack head ++ push16 mid ++ if version = mqttProtocolV5 then [reason, 0] else [])

variable (session : MqttSession)

/-- The bytes of `MqttSession::publish` before the payload. -/
def publishHead (msg : MqttMessage) : List UInt8 :=
  let qos : Fin 4 := ⟨msg.qos % 4, Nat.mod_lt _ (by decide)⟩
  let prop :=
    if session.version = mqttProtocolV5 then varintEncode msg.prop.length ++ msg.prop else []
  let length := 2 + msg.topic.length + msg.payload.length + (if msg.qos ≠ 0 then 2 else 0) + prop.length
  mqttHeadPack { type := .publish, qos, retain := msg.retain, length := length % 2 ^ 32 } ++
    push16 msg.topic.length ++ msg.topic ++
    (if qos ≠ 0 then push16 ((session.mid + 1) % 2 ^ 16) else []) ++ prop

/-- `MqttSession::publish`: the header with a new packet identifier if the QoS asks for one, and the payload.
    -/
def sessionPublish (server : MqttServer) (id : SessionId) (msg : MqttMessage) : MqttServer :=
  match server.sessions id with
  | none => server
  | some session =>
    let server := server.modifySession id fun session =>
      { session with mid := if msg.qos % 4 ≠ 0 then (session.mid + 1) % 2 ^ 16 else session.mid }
    let server := sessionWrite server id (publishHead session msg)
    if msg.payload.length ≠ 0 then sessionWrite server id msg.payload else server

/-! ## `MqttServer` -/

/-- `MqttServer::publish`: a copy for each subscriber, whatever the QoS of its subscription. -/
def serverPublish (server : MqttServer) (msg : MqttMessage) : MqttServer :=
  (getSubscribers server.live msg.topic server.topicTree).foldl
    (fun server sub => sessionPublish server sub.session msg) server

/-- `MqttServer::closeSession`: the will is published and cleared. -/
def closeSession (server : MqttServer) (id : SessionId) : MqttServer :=
  match server.sessions id with
  | none => server
  | some session =>
    if session.willTopic.length > 0 then
      let msg : MqttMessage := {
        topic := session.willTopic
        payload := session.willPayload
        qos := 0
        retain := false
        prop := session.willProp }
      (serverPublish server msg).modifySession id fun session =>
        { session with willTopic := [], willPayload := [], willProp := [] }
    else server

/-- The will in a CONNECT packet. Of the two results the second is missing if the packet ends before. -/
def readWill (conn : MqttConn) (mem : PacketMem) (p pend : Int) :
    Option (MqttSession × Option (MqttConn × Int)) :=
  if conn.hasWill then
    (parseProp session.version mem p).map fun (willProp, p) =>
      let (willTopic, p) := popStr mem p
      if p > pend then (session, none)
      else
        let (willPayload, p) := popStr mem p
        if p > pend then (session, none)
        else
          ({ session with willProp, willTopic, willPayload },
            some ({ conn with willTopic, willPayload }, p))
  else some (session, some (conn, p))

/-- A string that a flag of the CONNECT packet announces; the packet is dropped if it ends before the string
    does. -/
def readOptional (present : Bool) (mem : PacketMem) (p pend : Int) : Option (StdString × Int) :=
  if present then
    let (str, p) := popStr mem p
    if p > pend then none else some (str, p)
  else some ([], p)

/-- The user name and the password, which come last. -/
def readLogin (mem : PacketMem) (pend : Int) (rest : Option (MqttConn × Int)) : Option (MqttConn × Int) := do
  let (conn, p) ← rest
  let (userName, p) ← readOptional conn.hasUsername mem p pend
  let (password, p) ← readOptional conn.hasPassword mem p pend
  return ({ conn with userName, password }, p)

/-- The CONNECT packet up to the call of `onAuth`, and the pointer there. It changes the session also when the
    packet ends too early and `onAuth` is not called. -/
def readConnectAt (head : MqttHead) (mem : PacketMem) (p : Int) :
    Option (MqttSession × Option (MqttConn × Int)) :=
  let pend := p + head.length
  let (protocol, p) := popStr mem p
  let version := (mem p).toNat
  let connFlag := mem (p + 1)
  let (keepalive, p) := pop16 mem (p + 2)
  let session := { session with version }
  match parseProp version mem p with
  | none => none
  | some (_, p) =>
    let (clientId, p) := popStr mem p
    if p > pend then some (session, none)
    else
      (readWill session { protocol, version, connFlag, keepalive, clientId } mem p pend).map
        fun (session, rest) => (session, readLogin mem pend rest)

/-- The session and the arguments of `onAuth` that a CONNECT packet leads to. -/
def readConnect (head : MqttHead) (mem : PacketMem) (p : Int) :
    Option (MqttSession × Option MqttConn) :=
  (readConnectAt session head mem p).map fun (session, rest) => (session, rest.map Prod.fst)

variable (onAuth : OnAuth)

/-- The CONNECT packet: the session is set up, and the answer of `onAuth` is sent in the CONNACK packet. -/
def onConnect (server : MqttServer) (id : SessionId) (session : MqttSession)
    (head : MqttHead) (mem : PacketMem) (p : Int) : Option MqttServer :=
  (readConnect session head mem p).map fun (session, conn) =>
    let server := server.modifySession id fun _ => session
    match conn with
    | none => server
    | some conn =>
      sessionSend server id .connack
        (0 :: (onAuth server id conn).code :: if conn.version = mqttProtocolV5 then [0] else [])

variable (mem : PacketMem)

/-- The packet with the retain bit cleared in its first byte. -/
def clearRetain : PacketMem := Function.update mem 0 (mem 0 &&& 0xFE)

/-- PUBACK for QoS 1 and PUBREC for QoS 2. -/
def ackPublish (server : MqttServer) (id : SessionId) (version qos mid : Nat) : MqttServer :=
  if qos = 1 then sessionSendAck server id version .puback mid
  else if qos = 2 then sessionSendAck server id version .pubrec mid
  else server

/-- The retain bit in the first byte of a packet. -/
def retainBit : Bool := (mem 0).toNat % 2 = 1

/-- The whole packet is kept as the payload of the retained message. -/
def storeRetained (server : MqttServer) (topic : StdString) (head : MqttHead) (mem : PacketMem)
    (pend : Int) (payloadLen : Nat) : MqttServer :=
  if retainBit mem then
    server.modifyTree (setRetainedMessage topic (if payloadLen > 0 then mem.bytes 0 pend.toNat else [])
      head.qos.val head.dup)
  else server

/-- The PUBLISH packet: it is acknowledged, retained if its bit says so, published and reported to the
    application. -/
def onPublishPacket (server : MqttServer) (id : SessionId) (session : MqttSession) (head : MqttHead)
    (mem : PacketMem) (p : Int) : Option MqttServer :=
  if head.length < 2 then some (sessionClose server id)
  else
    let pend := p + head.length
    let (topic, p) := popStr mem p
    if head.qos.val > 0 ∧ pend - p < 2 then some (sessionClose server id)
    else
      let (mid, p) := if head.qos.val > 0 then pop16 mem p else (0, p)
      (parseProp session.version mem p).map fun (prop, p) =>
        let payloadLen := ((pend - p) % 2 ^ 32).toNat
        let server := ackPublish server id session.version head.qos.val mid
        let server := storeRetained server topic head mem pend payloadLen
        let message : MqttMessage := {
          topic
          payload := (if retainBit mem then clearRetain mem else mem).bytes p payloadLen
          qos := head.qos.val
          retain := head.retain
          prop }
        (serverPublish server message).output (.onPublish id message)

/-- The acknowledgements of a client; PUBREC and PUBREL are answered. -/
def onAckPacket (server : MqttServer) (id : SessionId) (session : MqttSession) (head : MqttHead)
    (mem : PacketMem) (p : Int) : MqttServer :=
  if head.length < 2 then sessionClose server id
  else
    let (mid, _) := pop16 mem p
    if head.type = .pubrec then sessionSendAck server id session.version .pubrel mid
    else if head.type = .pubrel then sessionSendAck server id session.version .pubcomp mid
    else server

/-- `subscribe` of the topic tree, for the session. -/
def subscribeSession (server : MqttServer) (id : SessionId) (topic : StdString) (qos : Nat) : MqttServer :=
  server.modifyTree fun tree => (subscribe server.live topic { session := id, qos } tree).1

/-- `unsubscribe` of the topic tree, for the session and every share. -/
def unsubscribeSession (server : MqttServer) (id : SessionId) (topic : StdString) : MqttServer :=
  server.modifyTree fun tree => (unsubscribe server.live topic id [] tree).1

/-- The retained messages are sent to a new subscriber. Their property is not initialized in the
    source: it is `uninit`. -/
def sendRetained (server : MqttServer) (id : SessionId) (topic : StdString) (qos : Nat)
    (uninit : StdString) : MqttServer :=
  (getRetainedMessages topic server.topicTree).foldl (fun server retained =>
    sessionPublish server id {
      topic := retained.1
      payload := retained.2.payload
      qos := min qos retained.2.qos
      retain := true
      prop := uninit }) server

/-- The SUBSCRIBE packet, of which only the first filter is read. -/
def onSubscribePacket (server : MqttServer) (id : SessionId) (session : MqttSession) (head : MqttHead)
    (mem : PacketMem) (p : Int) (uninit : StdString) : Option MqttServer :=
  if head.length > 1 then
    let (mid, p) := pop16 mem p
    (parseProp session.version mem p).map fun (_, p) =>
      let (topic, p) := popStr mem p
      let qos := mem p
      let server := sessionSend server id .suback
        (push16 mid ++ qos :: if session.version = mqttProtocolV5 then [0] else [])
      let message : MqttMessage := { topic, payload := [], qos := qos.toNat, retain := false, prop := [] }
      let server := server.output (.onSubscribe id message)
      sendRetained (subscribeSession server id topic qos.toNat) id topic qos.toNat uninit
  else some server

/-- The UNSUBSCRIBE packet, of which only the first filter is read. -/
def onUnsubscribePacket (server : MqttServer) (id : SessionId) (session : MqttSession) (head : MqttHead)
    (mem : PacketMem) (p : Int) : Option MqttServer :=
  if head.length > 1 then
    let (mid, p) := pop16 mem p
    (parseProp session.version mem p).map fun (_, p) =>
      let server := sessionSendAck server id session.version .unsuback mid
      let (topic, _) := popStr mem p
      let message : MqttMessage := { topic, payload := [], qos := 0, retain := false, prop := [] }
      unsubscribeSession (server.output (.onUnsubscribe id message)) id topic
  else some server

/-- A packet as `onMqttMessage` gets it: the header, the memory and the pointer behind the header. `uninit`
    stands for what the source leaves uninitialized. -/
structure Packet where
  head : MqttHead
  mem : PacketMem
  p : Int
  uninit : StdString := []

/-- `MqttServer::onMqttMessage`. Packets of other types are ignored. -/
def onMqttMessage (server : MqttServer) (id : SessionId) (packet : Packet) :
    Option MqttServer :=
  let { head, mem, p, uninit } := packet
  match server.sessions id with
  | none => none
  | some session =>
    match head.type with
    | .connect => onConnect onAuth server id session head mem p
    | .publish => onPublishPacket server id session head mem p
    | .puback | .pubrec | .pubrel | .pubcomp => some (onAckPacket server id session head mem p)
    | .subscribe => onSubscribePacket server id session head mem p uninit
    | .unsubscribe => onUnsubscribePacket server id session head mem p
    | .pingreq => some (sessionSend server id .pingresp [])
    | .disconnect => some (sessionClose server id)
    | _ => some server

/-- The packet that `tcp_server->onMessage` passes on, if the header can be read and the body is there;
    the sum of the lengths is an `unsigned int`. -/
def tcpPacket (size : Nat) (uninit : StdString) : Option Packet :=
  let (head, headlen) := mqttHeadUnpack (mem.ptr 0) size
  if headlen ≤ 0 ∨ (size : Int) < (headlen + head.length) % 2 ^ 32 then none
  else some { head, mem, p := headlen, uninit }

/-! ## Runs -/

/-- A connection of either kind is accepted, a packet is handled, a connection ends, the last pointer
    to a session is released, and the application publishes a message. -/
inductive ServerAct where
  | connected (ws : Bool)
  | packet (id : SessionId) (packet : Packet)
  | disconnected (id : SessionId)
  | expired (id : SessionId)
  | publish (msg : MqttMessage)

/-- One step of the server, under the policy `onAuth`. -/
def serverStep (server : MqttServer) : ServerAct → Option MqttServer
  | .connected ws => some { server with
      created := server.created + 1
      sessions := Function.update server.sessions server.created (some { tcp := !ws, ws }) }
  | .packet id packet => onMqttMessage onAuth server id packet
  | .disconnected id => some (closeSession server id)
  | .expired id => some { server with sessions := Function.update server.sessions id none }
  | .publish msg => some (serverPublish server msg)

end HvVerified.Mqtt
