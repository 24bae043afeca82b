import HvVerified.Mqtt.Server

/-!
# Proofs: what the handlers of the packets consist of

A packet other than CONNECT is handled by a list of operations, which is read off the packet and its session
(`handlerOps`); what holds for each operation holds for the handler. A CONNECT packet sets the version and
the will of its session and is answered as `onAuth` says.
-/

namespace HvVerified.Mqtt

open Base Lib Option

variable {s : MqttServer} {id : SessionId} {session session' : MqttSession} {packet : Packet}

/-! ## CONNECT packets -/

theorem readWill_session {conn : MqttConn} {mem : PacketMem} {p pend : Int} {rest : Option (MqttConn × Int)}
    (h : readWill session conn mem p pend = some (session', rest)) :
    ∃ willTopic willPayload willProp, session' = { session with willTopic, willPayload, willProp } := by
  unfold readWill at h
  split_ifs at h
  · obtain ⟨prop, -, hp⟩ := map_eq_some_iff.1 h
    dsimp only at hp
    split_ifs at hp <;> cases hp <;> exact ⟨_, _, _, rfl⟩
  · cases h
    exact ⟨_, _, _, rfl⟩

/-- A CONNECT packet sets the version to the one it names, and may set the will. -/
theorem readConnect_session {head : MqttHead} {mem : PacketMem} {p : Int} {conn : Option MqttConn}
    (h : readConnect session head mem p = some (session', conn)) :
    ∃ willTopic willPayload willProp, session' = { session with
      version := (mem (popStr mem p).2).toNat, willTopic, willPayload, willProp } := by
  obtain ⟨⟨session₀, rest⟩, hread, heq⟩ := map_eq_some_iff.1 h
  cases heq
  unfold readConnectAt at hread
  dsimp only at hread
  split at hread
  · cases hread
  · split_ifs at hread
    · cases hread
      exact ⟨_, _, _, rfl⟩
    · obtain ⟨⟨session₁, rest⟩, hwill, heq⟩ := map_eq_some_iff.1 hread
      cases heq
      exact readWill_session hwill

/-! ## PUBLISH packets -/

/-- The packet is long enough. -/
def PublishAccepted (packet : Packet) : Prop :=
  2 ≤ packet.head.length ∧
    (0 < packet.head.qos.val → 2 ≤ packet.p + packet.head.length - (popStr packet.mem packet.p).2)

instance (packet : Packet) : Decidable (PublishAccepted packet) :=
  inferInstanceAs (Decidable (_ ∧ _))

/-- The address of the property. -/
def publishPropAt (packet : Packet) : Int :=
  (if packet.head.qos.val > 0 then pop16 packet.mem (popStr packet.mem packet.p).2
    else (0, (popStr packet.mem packet.p).2)).2

def publishPayloadLen (packet : Packet) (p : Int) : Nat :=
  ((packet.p + packet.head.length - p) % 2 ^ 32).toNat

/-- The message of a PUBLISH packet. -/
def publishMessage (packet : Packet) (prop : StdString) (p : Int) : MqttMessage where
  topic := (popStr packet.mem packet.p).1
  payload := (if retainBit packet.mem then clearRetain packet.mem else packet.mem).bytes p
    (publishPayloadLen packet p)
  qos := packet.head.qos.val
  retain := packet.head.retain
  prop := prop

/-- Its packet identifier. -/
def publishMid (packet : Packet) : Nat :=
  (if packet.head.qos.val > 0 then pop16 packet.mem (popStr packet.mem packet.p).2
    else (0, (popStr packet.mem packet.p).2)).1

theorem publishAccepted_iff : PublishAccepted packet ↔ ¬ packet.head.length < 2 ∧
    ¬ (packet.head.qos.val > 0 ∧ packet.p + packet.head.length - (popStr packet.mem packet.p).2 < 2) := by
  rw [PublishAccepted, Nat.not_lt, not_and, Int.not_lt]

theorem onPublishPacket_eq (haccepted : PublishAccepted packet) (s : MqttServer) (id : SessionId)
    (session : MqttSession) : onPublishPacket s id session packet.head packet.mem packet.p =
      (parseProp session.version packet.mem (publishPropAt packet)).map fun r =>
        (serverPublish (storeRetained (ackPublish s id session.version packet.head.qos.val (publishMid packet))
          (popStr packet.mem packet.p).1 packet.head packet.mem (packet.p + packet.head.length)
          (publishPayloadLen packet r.2)) (publishMessage packet r.1 r.2)).output
            (.onPublish id (publishMessage packet r.1 r.2)) := by
  obtain ⟨hlen, hid⟩ := publishAccepted_iff.1 haccepted
  unfold onPublishPacket
  dsimp only
  rw [if_neg hlen, if_neg hid]
  rfl

theorem onPublishPacket_of_not_accepted (h : ¬ PublishAccepted packet) (s : MqttServer) (id : SessionId)
    (session : MqttSession) :
    onPublishPacket s id session packet.head packet.mem packet.p = some (sessionClose s id) := by
  unfold onPublishPacket
  dsimp only
  by_cases hlen : packet.head.length < 2
  · rw [if_pos hlen]
  · rw [if_neg hlen, if_pos (not_not.1 fun hid => h (publishAccepted_iff.2 ⟨hlen, hid⟩))]

/-! ## Operations -/

/-- What a handler does to the server. -/
inductive Operation where
  | send (type : MqttType) (data : List UInt8)
  | sendAck (version : Nat) (type : MqttType) (mid : Nat)
  | close
  | onPublish (msg : MqttMessage)
  | onSubscribe (msg : MqttMessage)
  | onUnsubscribe (msg : MqttMessage)
  | call (act : TreeAct)
  | publish (msg : MqttMessage)
  | sendRetained (topic : StdString) (qos : Nat) (uninit : StdString)

/-- The effect of an operation. -/
def Operation.run (id : SessionId) (server : MqttServer) : Operation → MqttServer
  | .send type data => sessionSend server id type data
  | .sendAck version type mid => sessionSendAck server id version type mid
  | .close => sessionClose server id
  | .onPublish msg => server.output (.onPublish id msg)
  | .onSubscribe msg => server.output (.onSubscribe id msg)
  | .onUnsubscribe msg => server.output (.onUnsubscribe id msg)
  | .call act => server.modifyTree fun tree => (treeCall server.live tree act).1
  | .publish msg => serverPublish server msg
  | .sendRetained topic qos uninit => Mqtt.sendRetained server id topic qos uninit

/-- The operations of an accepted PUBLISH packet. -/
def publishOps (version : Nat) (packet : Packet) (prop : StdString) (p : Int) : List Operation :=
  (if packet.head.qos.val = 1 then [.sendAck version .puback (publishMid packet)]
    else if packet.head.qos.val = 2 then [.sendAck version .pubrec (publishMid packet)]
    else []) ++
  (if retainBit packet.mem then
    [.call (.setRetained (popStr packet.mem packet.p).1 (if publishPayloadLen packet p > 0 then
      packet.mem.bytes 0 (packet.p + packet.head.length).toNat else []) packet.head.qos.val packet.head.dup)]
    else []) ++
  [.publish (publishMessage packet prop p), .onPublish (publishMessage packet prop p)]

/-- Those of an acknowledgement. -/
def ackOps (version : Nat) (packet : Packet) : List Operation :=
  if packet.head.length < 2 then [.close]
  else if packet.head.type = .pubrec then [.sendAck version .pubrel (pop16 packet.mem packet.p).1]
  else if packet.head.type = .pubrel then [.sendAck version .pubcomp (pop16 packet.mem packet.p).1]
  else []

/-- Those of a SUBSCRIBE packet. -/
def subscribeOps (id : SessionId) (version : Nat) (packet : Packet) (p : Int) : List Operation :=
  let (topic, p) := popStr packet.mem p
  let qos := packet.mem p
  [.send .suback (push16 (pop16 packet.mem packet.p).1 ++ qos :: if version = mqttProtocolV5 then [0] else []),
    .onSubscribe { topic, payload := [], qos := qos.toNat, retain := false, prop := [] },
    .call (.subscribe topic { session := id, qos := qos.toNat }), .sendRetained topic qos.toNat packet.uninit]

/-- Those of an UNSUBSCRIBE packet. -/
def unsubscribeOps (id : SessionId) (version : Nat) (packet : Packet) (p : Int) : List Operation :=
  let topic := (popStr packet.mem p).1
  [.sendAck version .unsuback (pop16 packet.mem packet.p).1,
    .onUnsubscribe { topic, payload := [], qos := 0, retain := false, prop := [] }, .call (.unsubscribe topic id [])]

/-- The operations of the handler of a packet other than CONNECT. -/
def handlerOps (id : SessionId) (session : MqttSession) (packet : Packet) : Option (List Operation) :=
  let { head, mem, p, uninit := _ } := packet
  match head.type with
  | .publish =>
    if PublishAccepted packet then
      (parseProp session.version mem (publishPropAt packet)).map fun (prop, p) =>
        publishOps session.version packet prop p
    else some [.close]
  | .puback | .pubrec | .pubrel | .pubcomp => some (ackOps session.version packet)
  | .subscribe =>
    if head.length > 1 then
      (parseProp session.version mem (p + 2)).map fun (_, p) => subscribeOps id session.version packet p
    else some []
  | .unsubscribe =>
    if head.length > 1 then
      (parseProp session.version mem (p + 2)).map fun (_, p) => unsubscribeOps id session.version packet p
    else some []
  | .pingreq => some [.send .pingresp []]
  | .disconnect => some [.close]
  | _ => some []

theorem exists_session {onAuth : OnAuth} (hs : onMqttMessage onAuth s id packet = some s') :
    ∃ session, s.sessions id = some session := by
  refine Option.ne_none_iff_exists'.1 fun hnone => ?_
  simp [onMqttMessage, hnone] at hs

theorem onMqttMessage_eq {onAuth : OnAuth} (hsession : s.sessions id = some session)
    (hconnect : packet.head.type ≠ .connect) : onMqttMessage onAuth s id packet =
      (handlerOps id session packet).map fun ops => ops.foldl (Operation.run id) s := by
  unfold onMqttMessage handlerOps
  simp only [hsession]
  cases htype : packet.head.type <;> dsimp only
  case connect => exact absurd htype hconnect
  case publish =>
    by_cases haccepted : PublishAccepted packet
    · rw [onPublishPacket_eq haccepted, if_pos haccepted, map_map]
      congr 1
      funext r
      dsimp only [Function.comp_apply]
      unfold publishOps ackPublish storeRetained
      split_ifs <;> rfl
    · rw [onPublishPacket_of_not_accepted haccepted, if_neg haccepted]
      rfl
  case puback | pubrec | pubrel | pubcomp =>
    unfold ackOps onAckPacket
    split_ifs <;> rfl
  case subscribe =>
    unfold onSubscribePacket
    by_cases hlen : packet.head.length > 1
    · rw [if_pos hlen, if_pos hlen, map_map]
      rfl
    · rw [if_neg hlen, if_neg hlen]
      rfl
  case unsubscribe =>
    unfold onUnsubscribePacket
    by_cases hlen : packet.head.length > 1
    · rw [if_pos hlen, if_pos hlen, map_map]
      rfl
    · rw [if_neg hlen, if_neg hlen]
      rfl
  case pingreq | disconnect | reserved | connack | suback | unsuback | pingresp | auth => rfl

end HvVerified.Mqtt
