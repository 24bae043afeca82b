import HvVerified.Base.Hstring
import HvVerified.Lib.Cut
import HvVerified.Mqtt.Protocol

/-!
# `mqtt/mqtt_client.c`: the client

The packets that the client sends and what `on_packet` does with the packets that it gets. A character
array is the C string in it. What a call hands to the io is listed in the order of the calls; the
result of `hio_write` is a parameter.
-/

namespace HvVerified.Mqtt

open Base Lib

/-- The bytes are a packet: the length field is complete, and says how many bytes follow. -/
def wholePacket (buf : List UInt8) : Bool :=
  let (head, headlen) := mqttHeadUnpack ((PacketMem.ofList buf).ptr 0) buf.length
  headlen > 0 && (buf.length : Int) = headlen + head.length

/-- The packets into which the unpacker of the client cuts a stream. -/
def clientPackets (stream : List UInt8) : List (List UInt8) := (cut wholePacket stream).1

/-- `mqtt_v5_skip_properties`: the pointer behind the properties. -/
def mqttV5SkipProperties (mem : PacketMem) (p pend : Int) : Option Int :=
  if pend - p ≤ 0 then none
  else
    let (len, bytes) := varintDecode (mem.ptr p) (pend - p)
    let propLen := Int.bmod len.toNat (2 ^ 32)
    if bytes ≤ 0 then none
    else if p + bytes + propLen > pend then none
    else some (p + bytes + propLen)

/-- `MQTT_PROTOCOL_V31` -/
def mqttProtocolV31 : Nat := 3

/-- `MQTT_PROTOCOL_NAME` and `MQTT_PROTOCOL_NAME_v31` -/
def mqttProtocolName (version : Nat) : StdString :=
  if version = mqttProtocolV31 then ascii "MQIsdp" else ascii "MQTT"

/-- `mqtt_message_t` as the application fills it in: a pointer is given by the bytes behind it, and may be
    null. `qos` and `retain` are `unsigned char`. -/
structure ClientMessage where
  topicLen : Nat := 0
  topic : Option StdString
  payloadLen : Nat := 0
  payload : Option StdString
  qos : Nat := 0
  retain : Nat := 0
  topicFits : topicLen ≤ (topic.getD []).length
  payloadFits : payloadLen ≤ (payload.getD []).length
  deriving DecidableEq, Repr

/-- The bytes that a length and a pointer stand for: a length of 0 means a C string. -/
def pointed (len : Nat) (ptr : Option StdString) : StdString :=
  if len ≠ 0 then (ptr.getD []).take len else cStr (ptr.getD [])

/-- The topic that `mqtt_client_publish` and `mqtt_client_login` read. -/
def ClientMessage.topicBytes (msg : ClientMessage) : StdString := pointed msg.topicLen msg.topic

/-- The payload that they read. -/
def ClientMessage.payloadBytes (msg : ClientMessage) : StdString := pointed msg.payloadLen msg.payload

/-- `mqtt_message_t` as `on_packet` fills it in: the pointers are addresses in the packet. -/
structure ReceivedMessage where
  topicLen : Nat := 0
  topic : Option Int := none
  payloadLen : Nat := 0
  payload : Option Int := none
  qos : Nat := 0
  retain : Bool := false
  deriving DecidableEq, Repr

/-- `mqtt_client_t`; `io` and `timer` say whether these pointers are set. -/
structure MqttClient where
  protocolVersion : Nat := mqttProtocolV311
  cleanSession : Bool := false
  connected : Bool := false
  keepalive : Nat := 60
  pingCnt : Nat := 0
  clientId : StdString := []
  will : Option ClientMessage := none
  username : StdString := []
  password : StdString := []
  head : MqttHead := { type := .reserved }
  error : Nat := 0
  mid : Nat := 0
  message : ReceivedMessage := {}
  io : Bool := false
  timer : Bool := false
  deriving DecidableEq, Repr

/-! ## Sending -/

/-- `mqtt_next_mid`: a static counter, shared by all clients. -/
def mqttNextMid (mid : Nat) : Nat := (mid + 1) % 2 ^ 16

/-- What a call sends, what it returns, and the counter of `mqtt_next_mid` after it. -/
structure Sent where
  writes : List (List UInt8) := []
  result : Int
  mid : Nat
  deriving DecidableEq, Repr

/-- `mqtt_send_head` -/
def mqttSendHead (type : MqttType) (length : Nat) : List UInt8 := mqttHeadPack { type, length }

/-- `mqtt_send_head_with_mid` -/
def mqttSendHeadWithMid (type : MqttType) (mid : Nat) : List UInt8 :=
  mqttHeadPack { type, qos := if type = .pubrel then 1 else 0, length := 2 } ++ push16 mid

variable (cli : MqttClient)

/-- The will that `mqtt_client_login` sends, with its lengths as `unsigned short`. -/
def MqttClient.loginWill : Option (ClientMessage × StdString × StdString) :=
  match cli.will with
  | none => none
  | some will =>
    let topicLen := will.topicBytes.length % 2 ^ 16
    let payloadLen := will.payloadBytes.length % 2 ^ 16
    if will.topic.isSome ∧ will.payload.isSome ∧ topicLen ≠ 0 ∧ payloadLen ≠ 0 then
      some (will, will.topicBytes.take topicLen, will.payloadBytes.take payloadLen)
    else none

/-- The flags of the CONNECT packet. -/
def MqttClient.connFlags : UInt8 :=
  (if cli.cleanSession then 0x02 else 0) |||
  (match cli.loginWill with
    | some (will, _, _) => 0x04 ||| UInt8.ofNat (will.qos % 4 * 8) ||| (if will.retain ≠ 0 then 0x20 else 0)
    | none => 0) |||
  (if cli.username ≠ [] then 0x80 else 0) |||
  (if cli.password ≠ [] then 0x40 else 0)

/-- The length that `mqtt_client_login` announces. -/
def MqttClient.loginLength : Nat :=
  8 + (if cli.protocolVersion = mqttProtocolV31 then 6 else 4) +
  (if cli.protocolVersion = mqttProtocolV5 then 1 else 0) + cli.clientId.length +
  (match cli.loginWill with
    | some (_, topic, payload) =>
      (if cli.protocolVersion = mqttProtocolV5 then 1 else 0) + (2 + topic.length) + (2 + payload.length)
    | none => 0) +
  (if cli.username ≠ [] then 2 + cli.username.length else 0) +
  (if cli.password ≠ [] then 2 + cli.password.length else 0)

/-- `PUSHSTR`, for strings whose length an `unsigned short` can hold. -/
def pushStr (s : StdString) : List UInt8 := push16 s.length ++ s

/-- The bytes behind the header of the CONNECT packet. -/
def MqttClient.loginBody : List UInt8 :=
  let prop : List UInt8 := if cli.protocolVersion = mqttProtocolV5 then [0] else []
  pushStr (mqttProtocolName cli.protocolVersion) ++
    [UInt8.ofNat cli.protocolVersion, cli.connFlags] ++ push16 cli.keepalive ++ prop ++
    pushStr cli.clientId ++
    (match cli.loginWill with
      | some (_, topic, payload) => prop ++ pushStr topic ++ pushStr payload
      | none => []) ++
    (if cli.username ≠ [] then pushStr cli.username else []) ++
    (if cli.password ≠ [] then pushStr cli.password else [])

/-- The client gets an identifier of 20 random characters if it has none. -/
def MqttClient.withId (random : StdString) : MqttClient :=
  if cli.clientId = [] then { cli with clientId := random } else cli

/-- `mqtt_client_login`, and the client after it. -/
def mqttClientLogin (random : StdString) : MqttClient × List UInt8 :=
  let cli := cli.withId random
  (cli, mqttHeadPack { type := .connect, length := cli.loginLength } ++ cli.loginBody)

/-- `mqtt_client_publish`: the payload is written on its own, and not if the first write fails. -/
def mqttClientPublish (hioWrite : List UInt8 → Int) (cli : MqttClient) (mid : Nat) (msg : ClientMessage) : Sent :=
  if !cli.io then { result := -1, mid }
  else if !cli.connected then { result := -2, mid }
  else
    let topic := msg.topicBytes
    let payload := msg.payloadBytes
    let prop : List UInt8 := if cli.protocolVersion = mqttProtocolV5 then [0] else []
    let length := 2 + topic.length + payload.length + (if msg.qos > 0 then 2 else 0) + prop.length
    let next := mqttNextMid mid
    let first := mqttHeadPack {
        type := .publish
        qos := ⟨msg.qos % 4, Nat.mod_lt _ (by decide)⟩
        retain := msg.retain % 2 = 1
        length := length % 2 ^ 32 } ++
      push16 topic.length ++ topic ++ (if msg.qos ≠ 0 then push16 next else []) ++ prop
    let mid' := if msg.qos ≠ 0 then next else mid
    if hioWrite first < 0 then { writes := [first], result := hioWrite first, mid := mid' }
    else {
      writes := [first, payload]
      result := if hioWrite payload < 0 then hioWrite payload else if msg.qos ≠ 0 then next else 0
      mid := mid' }

/-! ## Receiving -/

/-- What `on_packet` does to its surroundings. -/
inductive ClientOutput where
  | write (bytes : List UInt8)
  | close
  | heartbeat (intervalMs : Nat)
  | callback (type : MqttType)
  deriving DecidableEq, Repr

/-- The properties of a packet are skipped if the client uses version 5 and there is anything left. -/
def MqttClient.skipProperties (mem : PacketMem) (p pend : Int) : Option Int :=
  if cli.protocolVersion = mqttProtocolV5 ∧ p < pend then mqttV5SkipProperties mem p pend else some p

/-- The branch of `on_packet` for CONNACK. -/
def onConnack (mem : PacketMem) (p pend : Int) : MqttClient × List ClientOutput :=
  if cli.head.length < 2 then (cli, [.close])
  else
    let rc := (mem (p + 1)).toNat
    if rc ≠ 0 then ({ cli with error := rc }, [.close])
    else
      match cli.skipProperties mem (p + 2) pend with
      | none => (cli, [.close])
      | some _ =>
        let cli := { cli with connected := true, timer := false }
        if cli.keepalive ≠ 0 then
          ({ cli with pingCnt := 0 }, [.heartbeat (cli.keepalive * 1000), .callback .connack])
        else (cli, [.callback .connack])

/-- The answer to a PUBLISH packet. -/
def publishAck (qos mid : Nat) : List ClientOutput :=
  if qos = 1 then [.write (mqttSendHeadWithMid .puback mid)]
  else if qos = 2 then [.write (mqttSendHeadWithMid .pubrec mid)]
  else []

/-- The branch for PUBLISH. The message keeps pointers into the packet. -/
def onPublish (mem : PacketMem) (p pend : Int) : MqttClient × List ClientOutput :=
  if cli.head.length < 2 then (cli, [.close])
  else
    let (topicLen, p) := pop16 mem p
    let cli := { cli with message := { topicLen } }
    if pend - p < topicLen then (cli, [.close])
    else
      let cli := { cli with message := { topicLen, topic := some p } }
      let topic := p
      let p := p + topicLen
      if cli.head.qos.val > 0 ∧ pend - p < 2 then (cli, [.close])
      else
        let (mid, p) := if cli.head.qos.val > 0 then pop16 mem p else (cli.mid, p)
        let cli := { cli with mid }
        match cli.skipProperties mem p pend with
        | none => (cli, [.close])
        | some p =>
          let payloadLen := ((pend - p) % 2 ^ 32).toNat
          ({ cli with message := {
              topicLen
              topic := some topic
              payloadLen
              payload := if payloadLen > 0 then some p else none
              qos := cli.head.qos.val } },
            publishAck cli.head.qos.val mid ++ [.callback .publish])

/-- The branch for PUBACK, PUBREC, PUBREL and PUBCOMP. -/
def onPubAck (mem : PacketMem) (p : Int) : MqttClient × List ClientOutput :=
  if cli.head.length < 2 then (cli, [.close])
  else
    let cli := { cli with mid := (pop16 mem p).1 }
    let reply :=
      if cli.head.type = .pubrec then [.write (mqttSendHeadWithMid .pubrel cli.mid)]
      else if cli.head.type = .pubrel then [.write (mqttSendHeadWithMid .pubcomp cli.mid)]
      else []
    (cli, reply ++ [.callback cli.head.type])

/-- The branch for SUBACK and UNSUBACK, which looks for properties where the return codes are. -/
def onSubAck (mem : PacketMem) (p pend : Int) : MqttClient × List ClientOutput :=
  if cli.head.length < 2 then (cli, [.close])
  else
    let (mid, p) := pop16 mem p
    let cli := { cli with mid }
    match cli.skipProperties mem p pend with
    | none => (cli, [.close])
    | some _ => (cli, [.callback cli.head.type])

/-- `on_packet` -/
def onPacket (mem : PacketMem) (len : Nat) : MqttClient × List ClientOutput :=
  let (head, headlen) := mqttHeadUnpack (mem.ptr 0) len
  let cli := { cli with head }
  if headlen ≤ 0 then (cli, [])
  else
    match head.type with
    | .connack => onConnack cli mem headlen len
    | .publish => onPublish cli mem headlen len
    | .puback | .pubrec | .pubrel | .pubcomp => onPubAck cli mem headlen
    | .suback | .unsuback => onSubAck cli mem headlen len
    | .pingreq => (cli, [.write (mqttSendHead .pingresp 0)])
    | .pingresp => ({ cli with pingCnt := 0 }, [])
    | _ => (cli, [.close])

/-- What the pointers in a message stand for while the packet is there. -/
def ReceivedMessage.topicBytes (msg : ReceivedMessage) (mem : PacketMem) : StdString :=
  mem.bytes (msg.topic.getD 0) msg.topicLen

/-- The payload in the packet. -/
def ReceivedMessage.payloadBytes (msg : ReceivedMessage) (mem : PacketMem) : StdString :=
  mem.bytes (msg.payload.getD 0) msg.payloadLen

/-- What the callback of a client finds when `on_packet` gets a PUBLISH packet, if it is called. -/
def onPacketPublish (version : Nat) (buf : List UInt8) : Option MqttMessage :=
  let mem := PacketMem.ofList buf
  let r := onPacket { protocolVersion := version } mem buf.length
  if .callback .publish ∈ r.2 then
    some {
      topic := r.1.message.topicBytes mem
      payload := r.1.message.payloadBytes mem
      qos := r.1.message.qos
      retain := r.1.message.retain
      prop := [] }
  else none

end HvVerified.Mqtt
