import HvVerified.Mqtt.Proofs.SessionProofs

/-!
# Proofs: PUBLISH packets from one side to the other

Both sides write a PUBLISH packet in the same layout, `publishBytes`: the client with an empty property,
the server with any. The handlers of both sides read the fields of this layout back.
-/

namespace HvVerified.Mqtt

open Base Lib List

variable (f : PublishFields) {s : StdString}

/-! ## Reading what was written -/

variable {mem : PacketMem} {p : Int}

@[simp] theorem length_push16 (v : Nat) : (push16 v).length = 2 := rfl

@[simp] theorem length_pushStr (s : StdString) : (pushStr s).length = 2 + s.length := by
  simp [pushStr]

theorem holds_ofList (l : List UInt8) : Holds (PacketMem.ofList l) 0 l := by
  intro i b hb
  rw [Int.zero_add, PacketMem.ofList_nat, getD_eq_getElem?_getD, hb]
  rfl

theorem bytes_of_holds (h : Holds mem p s) : mem.bytes p s.length = s := by
  rw [PacketMem.bytes, slice, Nat.sub_zero, ← range_eq_range']
  exact map_range_of_holds h

theorem pop16_of_holds {v : Nat} (hv : v < 2 ^ 16) (h : Holds mem p (push16 v)) : pop16 mem p = (v, p + 2) := by
  rw [push16, holds_cons, holds_cons] at h
  rw [pop16, h.1, h.2.1, push16_toNat hv]

theorem popStr_of_holds (hs : s.length < 2 ^ 16) (h : Holds mem p (pushStr s)) :
    popStr mem p = (s, p + (pushStr s).length) := by
  rw [pushStr, holds_append] at h
  have hbytes : mem.bytes (p + 2) s.length = s := bytes_of_holds h.2
  rw [popStr, pop16_of_holds hs h.1]
  dsimp only
  rw [hbytes, length_pushStr]
  push_cast
  rw [Int.add_assoc]

theorem varintDecode_of_holds {n : Nat} (hn : n < 2 ^ 32) (h : Holds mem p (varintEncode n)) {len : Int}
    (hlen : len = 0 ∨ ((varintEncode n).length : Int) ≤ len) :
    (varintDecode (mem.ptr p) len).2 = (varintEncode n).length ∧ (varintDecode (mem.ptr p) len).1.toNat = n := by
  obtain ⟨hbytes, hvalue⟩ := (decodes_varint (isVarint_encode (hn.trans (by decide)))).complete _ _ h hlen
  rw [Nat.mod_eq_of_lt (hn.trans (by norm_num))] at hvalue
  exact ⟨hbytes, hvalue⟩

theorem varintEncode_length_pos (n : Nat) (hn : n < 2 ^ 32) : 0 < (varintEncode n).length :=
  (isVarint_encode (hn.trans (by decide))).1.length_pos

theorem bmod_of_lt {n : Nat} (hn : n < 2 ^ 31) : Int.bmod n (2 ^ 32) = n := by
  apply Int.bmod_eq_of_le <;> omega

def pushProp (version : Nat) (prop : StdString) : List UInt8 :=
  if version = mqttProtocolV5 then varintEncode prop.length ++ prop else []

theorem parseProp_of_holds {version : Nat} {prop : StdString} (hprop : prop.length < 2 ^ 16)
    (h : Holds mem p (pushProp version prop)) : parseProp version mem p =
      some (if version = mqttProtocolV5 then prop else [], p + (pushProp version prop).length) := by
  unfold parseProp pushProp
  unfold pushProp at h
  by_cases hversion : version = mqttProtocolV5
  · rw [if_pos hversion, holds_append] at h
    obtain ⟨hbytes, hvalue⟩ := varintDecode_of_holds (by omega) h.1 (.inl rfl)
    have hpos := varintEncode_length_pos prop.length (by omega)
    have hint : ((prop.length : Int) % 2 ^ 16).toNat = prop.length := by omega
    rw [if_neg (not_not.2 hversion), if_pos hversion, if_pos hversion]
    dsimp only
    rw [hbytes, hvalue, bmod_of_lt (by omega), if_neg (by omega), hint, bytes_of_holds h.2, length_append]
    push_cast
    rw [Int.add_assoc]
  · rw [if_pos hversion, if_neg hversion, if_neg hversion]
    simp

theorem skipProperties_of_holds {cli : MqttClient} {prop : StdString} (hprop : prop.length < 2 ^ 16)
    (h : Holds mem p (pushProp cli.protocolVersion prop)) {pend : Int}
    (hend : p + (pushProp cli.protocolVersion prop).length ≤ pend) :
    cli.skipProperties mem p pend = some (p + (pushProp cli.protocolVersion prop).length) := by
  unfold MqttClient.skipProperties
  unfold pushProp at h hend ⊢
  by_cases hversion : cli.protocolVersion = mqttProtocolV5
  · rw [if_pos hversion] at h hend ⊢
    rw [holds_append] at h
    have hpos := varintEncode_length_pos prop.length (by omega)
    rw [length_append] at hend
    obtain ⟨hbytes, hvalue⟩ := varintDecode_of_holds (by omega) h.1
      (.inr (show ((varintEncode prop.length).length : Int) ≤ pend - p by omega))
    rw [if_pos ⟨hversion, by omega⟩, mqttV5SkipProperties, if_neg (by omega)]
    dsimp only
    rw [hbytes, hvalue, bmod_of_lt (by omega), if_neg (by omega), if_neg (by omega), length_append]
    push_cast
    rw [Int.add_assoc]
  · rw [if_neg hversion, if_neg (fun hv => hversion hv.1)]
    simp

theorem mqttHeadUnpack_of_holds {head : MqttHead} (hlength : head.length < 2 ^ 32)
    (h : Holds mem 0 (mqttHeadPack head)) {len : Nat} (hlen : (mqttHeadPack head).length ≤ len) :
    mqttHeadUnpack (mem.ptr 0) len = (head, ((mqttHeadPack head).length : Int)) :=
  mqttHeadUnpack_pack hlength hlen h

theorem headPack_length_pos (head : MqttHead) : 0 < (mqttHeadPack head).length := by
  simp [mqttHeadPack]

/-- `unpack` finds the packet that was written. -/
theorem tcpPacket_of_holds {head : MqttHead} {body : List UInt8} {uninit : StdString}
    (hlength : head.length = body.length) (htotal : (mqttHeadPack head ++ body).length < 2 ^ 32)
    (h : Holds mem 0 (mqttHeadPack head ++ body)) : tcpPacket mem (mqttHeadPack head ++ body).length uninit =
      some { head, mem, p := (mqttHeadPack head).length, uninit } := by
  have hpos := headPack_length_pos head
  rw [length_append, ← hlength] at htotal ⊢
  have hunpack := mqttHeadUnpack_of_holds (by omega) (holds_append.1 h).1 (Nat.le_add_right _ head.length)
  unfold tcpPacket
  rw [hunpack]
  dsimp only
  rw [if_neg (by push_cast; omega)]

variable {p : Int} {hioWrite : List UInt8 → Int} {server : MqttServer} {id : SessionId}
  {session : MqttSession}

/-! ## The layout -/

/-- What a PUBLISH packet says. -/
structure PublishFields where
  topic : StdString
  payload : StdString
  qos : Fin 4
  retain : Bool
  mid : Nat
  prop : StdString

namespace PublishFields

variable (f : PublishFields) (version : Nat)

def midBytes : List UInt8 := if f.qos ≠ 0 then push16 f.mid else []

def fieldBytes : List UInt8 := pushStr f.topic ++ (f.midBytes ++ pushProp version f.prop)

def head : MqttHead where
  type := .publish
  qos := f.qos
  retain := f.retain
  length := (f.fieldBytes version).length + f.payload.length

def publishBytes : List UInt8 := mqttHeadPack (f.head version) ++ (f.fieldBytes version ++ f.payload)

/-- What the two writers write: they compute the length modulo 2 ^ 32. -/
def written : List UInt8 :=
  mqttHeadPack { f.head version with length := (f.head version).length % 2 ^ 32 } ++ (f.fieldBytes version ++ f.payload)

def topicAt : Int := (mqttHeadPack (f.head version)).length + 2

def midAt : Int := (mqttHeadPack (f.head version)).length + (pushStr f.topic).length

def propAt : Int := f.midAt version + f.midBytes.length

def payloadAt : Int := (mqttHeadPack (f.head version)).length + (f.fieldBytes version).length

/-- The lengths that the two writers can write and the two readers can read. -/
structure Fits : Prop where
  topic : f.topic.length < 2 ^ 16
  mid : f.mid < 2 ^ 16
  prop : f.prop.length < 2 ^ 16
  length : (f.head version).length < 2 ^ 32

end PublishFields

section Layout

variable {f : PublishFields} {version : Nat} {mem : PacketMem}

theorem PublishFields.length_head (version : Nat) : (f.head version).length =
    2 + f.topic.length + f.midBytes.length + (pushProp version f.prop).length + f.payload.length := by
  simp only [PublishFields.head, PublishFields.fieldBytes, length_append, length_pushStr]
  omega

theorem PublishFields.payloadAt_eq (version : Nat) :
    f.payloadAt version = f.propAt version + (pushProp version f.prop).length := by
  simp only [PublishFields.payloadAt, PublishFields.propAt, PublishFields.midAt, PublishFields.fieldBytes, length_append]
  omega

theorem PublishFields.length_head_le : (f.head version).length ≤ (f.written version).length := by
  rw [PublishFields.written, length_append, length_append]
  exact Nat.le_add_left _ _

theorem PublishFields.written_eq (h : (f.head version).length < 2 ^ 32) :
    f.written version = f.publishBytes version := by
  rw [PublishFields.written, Nat.mod_eq_of_lt h]
  rfl

theorem PublishFields.length_publishBytes (version : Nat) :
    (f.publishBytes version).length = (mqttHeadPack (f.head version)).length + (f.head version).length := by
  simp [PublishFields.publishBytes, PublishFields.head]

theorem PublishFields.length_midBytes : (f.midBytes.length : Int) = if f.qos.val > 0 then 2 else 0 := by
  have hzero : f.qos ≠ 0 ↔ f.qos.val > 0 := by
    rw [gt_iff_lt, Nat.pos_iff_ne_zero, ne_eq, Fin.ext_iff]
    rfl
  unfold PublishFields.midBytes
  by_cases hqos : f.qos.val > 0
  · rw [if_pos (hzero.2 hqos), if_pos hqos]
    rfl
  · rw [if_neg (mt hzero.1 hqos), if_neg hqos]
    rfl

theorem pop16_midBytes (hmid : f.mid < 2 ^ 16) (h : Holds mem p f.midBytes) (other : Nat) :
    (if f.qos.val > 0 then pop16 mem p else (other, p)) =
      (if f.qos.val > 0 then f.mid else other, p + f.midBytes.length) := by
  rw [f.length_midBytes]
  by_cases hqos : f.qos.val > 0
  · have hne : f.qos ≠ 0 := by
      rintro hzero
      rw [hzero] at hqos
      exact absurd hqos (by decide)
    rw [PublishFields.midBytes, if_pos hne] at h
    rw [if_pos hqos, if_pos hqos, if_pos hqos, pop16_of_holds hmid h]
  · rw [if_neg hqos, if_neg hqos, if_neg hqos, Int.add_zero]

theorem holds_publishBytes (h : Holds mem 0 (f.publishBytes version)) :
    Holds mem 0 (mqttHeadPack (f.head version)) ∧
      Holds mem (mqttHeadPack (f.head version)).length (pushStr f.topic) ∧
      Holds mem (f.midAt version) f.midBytes ∧ Holds mem (f.propAt version) (pushProp version f.prop) ∧
      Holds mem (f.payloadAt version) f.payload := by
  unfold PublishFields.publishBytes PublishFields.fieldBytes at h
  rw [append_assoc, append_assoc, holds_append, holds_append, holds_append, holds_append, Int.zero_add] at h
  rw [f.payloadAt_eq]
  exact h

end Layout

/-! ## The writers -/

def ClientMessage.fields (msg : ClientMessage) (mid : Nat) : PublishFields where
  topic := msg.topicBytes
  payload := msg.payloadBytes
  qos := Fin.ofNat 4 msg.qos
  retain := msg.retain % 2 = 1
  mid := mid
  prop := []

def MqttMessage.fields (msg : MqttMessage) (session : MqttSession) : PublishFields where
  topic := msg.topic
  payload := msg.payload
  qos := Fin.ofNat 4 msg.qos
  retain := msg.retain
  mid := (session.mid + 1) % 2 ^ 16
  prop := msg.prop

theorem qos_mod_ne_zero {qos : Nat} (hqos : qos < 4) :
    (⟨qos % 4, Nat.mod_lt _ (by decide)⟩ : Fin 4) ≠ 0 ↔ qos ≠ 0 := by
  rw [ne_eq, Fin.ext_iff]
  show ¬ qos % 4 = 0 ↔ qos ≠ 0
  omega

theorem mqttClientPublish_eq (hwrite : ∀ bytes, 0 ≤ hioWrite bytes) {cli : MqttClient}
    (hio : cli.io) (hconnected : cli.connected) (mid : Nat) {msg : ClientMessage} (hqos : msg.qos ≤ 2) :
    (mqttClientPublish hioWrite cli mid msg).writes.flatten =
        (msg.fields (mqttNextMid mid)).written cli.protocolVersion ∧
      (mqttClientPublish hioWrite cli mid msg).result = if msg.qos ≠ 0 then (mqttNextMid mid : Int) else 0 := by
  have hprop : pushProp cli.protocolVersion [] = if cli.protocolVersion = mqttProtocolV5 then [0] else [] := by
    congr 1
  have hmid : (msg.fields (mqttNextMid mid)).midBytes = if msg.qos ≠ 0 then push16 (mqttNextMid mid) else [] :=
    if_congr (qos_mod_ne_zero (by omega)) rfl rfl
  have hlen : 2 + msg.topicBytes.length + msg.payloadBytes.length + (if msg.qos > 0 then 2 else 0) +
      (pushProp cli.protocolVersion []).length = ((msg.fields (mqttNextMid mid)).head cli.protocolVersion).length := by
    rw [PublishFields.length_head, hmid, apply_ite length]
    simp only [ClientMessage.fields, length_push16, length_nil]
    split_ifs <;> omega
  unfold mqttClientPublish
  rw [hio, hconnected]
  simp only [Bool.not_true, Bool.false_eq_true, if_false]
  rw [← hprop, hlen, if_neg (not_lt.2 (hwrite _)), ← hmid]
  refine ⟨?_, if_neg (not_lt.2 (hwrite _))⟩
  simp only [flatten_cons, flatten_nil, append_nil, append_assoc]
  rw [PublishFields.written, PublishFields.fieldBytes, pushStr]
  simp only [append_assoc]
  rfl

theorem publishHead_append_payload (session : MqttSession) {msg : MqttMessage} (hqos : msg.qos < 4) :
    publishHead session msg ++ msg.payload = (msg.fields session).written session.version := by
  have hmid : (msg.fields session).midBytes = if msg.qos ≠ 0 then push16 ((session.mid + 1) % 2 ^ 16) else [] :=
    if_congr (qos_mod_ne_zero hqos) rfl rfl
  have hlen : 2 + msg.topic.length + msg.payload.length + (if msg.qos ≠ 0 then 2 else 0) +
      (pushProp session.version msg.prop).length = ((msg.fields session).head session.version).length := by
    rw [PublishFields.length_head, hmid, apply_ite length]
    simp only [MqttMessage.fields, length_push16, length_nil]
    omega
  unfold publishHead
  dsimp only
  rw [show (if session.version = mqttProtocolV5 then varintEncode msg.prop.length ++ msg.prop else []) =
    pushProp session.version msg.prop from rfl, hlen, PublishFields.written, PublishFields.fieldBytes, pushStr]
  simp only [append_assoc]
  rfl

/-! ## The server reads -/

section Server

variable {f : PublishFields} {version : Nat} {mem : PacketMem} {uninit : StdString}

theorem bytes_clearRetain (hp : 0 < p) (h : Holds mem p s) :
    (if retainBit mem then clearRetain mem else mem).bytes p s.length = s := by
  refine bytes_of_holds ((holds_congr fun i _ => ?_).2 h)
  split_ifs
  · exact Function.update_of_ne (by omega) _ _
  · rfl

def PublishFields.packet (f : PublishFields) (version : Nat) (mem : PacketMem) (uninit : StdString) : Packet where
  head := f.head version
  mem := mem
  p := (mqttHeadPack (f.head version)).length
  uninit := uninit

theorem tcpPacket_publishBytes (htotal : (f.publishBytes version).length < 2 ^ 28)
    (h : Holds mem 0 (f.publishBytes version)) :
    tcpPacket mem (f.publishBytes version).length uninit = some (f.packet version mem uninit) :=
  tcpPacket_of_holds length_append.symm (htotal.trans (by norm_num)) h

def handledMessage (server : MqttServer) (id : SessionId) (version mid : Nat) (packet : Packet)
    (message : MqttMessage) : MqttServer :=
  (serverPublish (storeRetained (ackPublish server id version message.qos mid) message.topic packet.head packet.mem
    (packet.p + packet.head.length) message.payload.length) message).output (.onPublish id message)

def PublishFields.message (f : PublishFields) (version : Nat) : MqttMessage where
  topic := f.topic
  payload := f.payload
  qos := f.qos.val
  retain := f.retain
  prop := if version = mqttProtocolV5 then f.prop else []

theorem onMqttMessage_publishBytes {onAuth : OnAuth} {packet : Packet}
    (hsession : server.sessions id = some session) (hfits : f.Fits session.version)
    (hhead : packet.head = f.head session.version) (hp : packet.p = (mqttHeadPack (f.head session.version)).length)
    (h : Holds packet.mem 0 (f.publishBytes session.version)) :
    onMqttMessage onAuth server id packet = some (handledMessage server id session.version
      (if f.qos.val > 0 then f.mid else 0) packet (f.message session.version)) := by
  have hlength := hfits.length
  have hlen := f.length_head session.version
  have hmidLen := f.length_midBytes
  have hat := f.payloadAt_eq session.version
  have hpropEq : f.propAt session.version = f.midAt session.version + f.midBytes.length := rfl
  have hmidEq : f.midAt session.version = packet.p + (pushStr f.topic).length := by rw [hp, PublishFields.midAt]
  rw [length_pushStr] at hmidEq
  obtain ⟨-, htopic, hmid, hprop, hpayload⟩ := holds_publishBytes h
  have hpop : popStr packet.mem packet.p = (f.topic, f.midAt session.version) := by
    rw [hp]
    exact popStr_of_holds hfits.topic htopic
  have haccepted : PublishAccepted packet := by
    unfold PublishAccepted
    rw [hpop, hhead]
    refine ⟨by omega, fun hqos => ?_⟩
    rw [if_pos (show f.qos.val > 0 from hqos)] at hmidLen
    omega
  have hmidProp : (publishMid packet, publishPropAt packet) =
      (if f.qos.val > 0 then f.mid else 0, f.propAt session.version) := by
    unfold publishMid publishPropAt
    rw [hpop, hhead]
    exact pop16_midBytes hfits.mid hmid 0
  obtain ⟨hmidRead, hpropAt⟩ := Prod.mk.inj hmidProp
  have hpayloadLen : publishPayloadLen packet (f.payloadAt session.version) = f.payload.length := by
    unfold publishPayloadLen
    rw [hhead]
    omega
  have hmessage : publishMessage packet (if session.version = mqttProtocolV5 then f.prop else [])
      (f.payloadAt session.version) = f.message session.version := by
    unfold publishMessage
    rw [hpayloadLen, hpop, hhead, bytes_clearRetain (by omega) hpayload]
    rfl
  have htype : onMqttMessage onAuth server id packet =
      onPublishPacket server id session packet.head packet.mem packet.p := by
    unfold onMqttMessage
    rw [hsession]
    dsimp only
    rw [hhead]
    rfl
  rw [htype, onPublishPacket_eq haccepted, hpropAt, parseProp_of_holds hfits.prop hprop, Option.map_some, ← hat]
  rw [handledMessage, hmessage, hpayloadLen, hmidRead, hpop, hhead]
  rfl

end Server

/-! ## The client reads -/

section Client

variable {f : PublishFields} {cli : MqttClient} {mem : PacketMem}

def MqttClient.received (cli : MqttClient) (f : PublishFields) : MqttClient :=
  { cli with
    head := f.head cli.protocolVersion
    mid := if f.qos.val > 0 then f.mid else cli.mid
    message := {
      topicLen := f.topic.length
      topic := some (f.topicAt cli.protocolVersion)
      payloadLen := f.payload.length
      payload := if f.payload.length > 0 then some (f.payloadAt cli.protocolVersion) else none
      qos := f.qos.val } }

theorem onPacket_publishBytes (hfits : f.Fits cli.protocolVersion)
    (h : Holds mem 0 (f.publishBytes cli.protocolVersion)) :
    onPacket cli mem (f.publishBytes cli.protocolVersion).length =
      (cli.received f, publishAck f.qos.val (if f.qos.val > 0 then f.mid else cli.mid) ++ [.callback .publish]) := by
  have hlength := hfits.length
  have hpos := headPack_length_pos (f.head cli.protocolVersion)
  have hlen := f.length_head cli.protocolVersion
  have hmidLen := f.length_midBytes
  have htotal := f.length_publishBytes cli.protocolVersion
  have hat := f.payloadAt_eq cli.protocolVersion
  have hpropEq : f.propAt cli.protocolVersion = f.midAt cli.protocolVersion + f.midBytes.length := rfl
  have hmidEq : f.midAt cli.protocolVersion =
      (mqttHeadPack (f.head cli.protocolVersion)).length + (pushStr f.topic).length := rfl
  have htopicEq : f.topicAt cli.protocolVersion = (mqttHeadPack (f.head cli.protocolVersion)).length + 2 := rfl
  rw [length_pushStr] at hmidEq
  obtain ⟨hhead, htopic, hmid, hprop, -⟩ := holds_publishBytes h
  have hunpack := mqttHeadUnpack_of_holds hlength hhead
    (show (mqttHeadPack (f.head cli.protocolVersion)).length ≤ (f.publishBytes cli.protocolVersion).length by omega)
  have hpop : pop16 mem (mqttHeadPack (f.head cli.protocolVersion)).length =
      (f.topic.length, f.topicAt cli.protocolVersion) := by
    rw [pushStr, holds_append] at htopic
    exact pop16_of_holds hfits.topic htopic.1
  -- the pointer behind the topic, as the reader and as the layout count it
  have hbehind : f.topicAt cli.protocolVersion + f.topic.length = f.midAt cli.protocolVersion := by omega
  have hskip := @skipProperties_of_holds mem _ { cli with
      head := f.head cli.protocolVersion
      mid := if f.qos.val > 0 then f.mid else cli.mid
      message := { topicLen := f.topic.length, topic := some (f.topicAt cli.protocolVersion) } } f.prop
    hfits.prop hprop ((f.publishBytes cli.protocolVersion).length : Nat) (by dsimp only; omega)
  have hpayloadLen : ((((f.publishBytes cli.protocolVersion).length : Int) - f.payloadAt cli.protocolVersion) %
      2 ^ 32).toNat = f.payload.length := by omega
  have hid : ¬ ((f.head cli.protocolVersion).qos.val > 0 ∧ ((f.publishBytes cli.protocolVersion).length : Int) -
      f.midAt cli.protocolVersion < 2) := by
    rintro ⟨hqos, hlt⟩
    rw [if_pos (show f.qos.val > 0 from hqos)] at hmidLen
    omega
  unfold onPacket
  rw [hunpack]
  dsimp only
  rw [if_neg (by omega)]
  unfold onPublish
  dsimp only
  rw [if_neg (by omega), hpop]
  rw [if_neg (by omega), hbehind, if_neg hid, show (f.head cli.protocolVersion).qos = f.qos from rfl,
    pop16_midBytes hfits.mid hmid cli.mid]
  rw [← hpropEq, hskip]
  dsimp only
  rw [← hat, hpayloadLen]
  rfl

theorem topicBytes_received (h : Holds mem 0 (f.publishBytes cli.protocolVersion)) :
    (cli.received f).message.topicBytes mem = f.topic := by
  obtain ⟨-, htopic, -⟩ := holds_publishBytes h
  rw [pushStr, holds_append] at htopic
  exact bytes_of_holds htopic.2

theorem payloadBytes_received (h : Holds mem 0 (f.publishBytes cli.protocolVersion)) :
    (cli.received f).message.payloadBytes mem = f.payload := by
  unfold ReceivedMessage.payloadBytes MqttClient.received
  by_cases hpayload : f.payload.length > 0
  · rw [if_pos hpayload]
    exact bytes_of_holds (holds_publishBytes h).2.2.2.2
  · rw [length_eq_zero_iff.1 (Nat.eq_zero_of_not_pos hpayload)]
    rfl

/-- What the callback finds is what the packet says. -/
theorem onPacketPublish_publishBytes {version : Nat} (hfits : f.Fits version) :
    onPacketPublish version (f.publishBytes version) = some {
      topic := f.topic, payload := f.payload, qos := f.qos.val, retain := false, prop := [] } := by
  let cli : MqttClient := { protocolVersion := version }
  have hmem := holds_ofList (f.publishBytes version)
  have hreceived := @onPacket_publishBytes f cli _ hfits hmem
  have htopic := @topicBytes_received f cli _ hmem
  have hpayload := @payloadBytes_received f cli _ hmem
  have hcallback : ClientOutput.callback .publish ∈
      (onPacket cli (.ofList (f.publishBytes version)) (f.publishBytes version).length).2 := by
    rw [hreceived]
    exact mem_append_right _ (mem_singleton_self _)
  unfold onPacketPublish
  dsimp only
  rw [if_pos hcallback, hreceived]
  dsimp only
  rw [htopic, hpayload]
  rfl

end Client

/-! ## From one side to the other -/

def MqttSession.published (session : MqttSession) (msg : MqttMessage) : MqttSession :=
  { session with mid := if msg.qos % 4 ≠ 0 then (session.mid + 1) % 2 ^ 16 else session.mid }

theorem sessions_sessionWrite (server : MqttServer) (id : SessionId) (bytes : List UInt8) :
    (sessionWrite server id bytes).sessions = server.sessions := by
  unfold sessionWrite
  split
  · split_ifs <;> rfl
  · rfl

theorem session_sessionPublish (hsession : server.sessions id = some session) (msg : MqttMessage) :
    (sessionPublish server id msg).sessions id = some (session.published msg) := by
  unfold sessionPublish
  simp only [hsession]
  have hset : (server.modifySession id (·.published msg)).sessions id = some (session.published msg) := by
    simp [MqttServer.modifySession, hsession]
  by_cases hpayload : msg.payload.length ≠ 0
  · rw [if_pos hpayload, sessions_sessionWrite, sessions_sessionWrite]
    exact hset
  · rw [if_neg hpayload, sessions_sessionWrite]
    exact hset

theorem mqttNextMid_lt (mid : Nat) : mqttNextMid mid < 2 ^ 16 := Nat.mod_lt _ (by norm_num)

/-- Between a client and a session that use the same version, a message that one side publishes is what the
    other side reads: the server calls its handler with the topic, the payload, the QoS and the retain
    flag of the message, and acknowledges the packet identifier that `mqtt_client_publish` has
    returned; the callback of the client finds the same in the client, and the identifier of the session. -/
theorem publish_round_trip {cli : MqttClient} {onAuth : OnAuth} {server : MqttServer} {id : SessionId}
    {session : MqttSession} (hsession : server.sessions id = some session)
    (hversion : session.version = cli.protocolVersion) {mem : PacketMem} :
    (∀ (hioWrite : List UInt8 → Int) (mid : Nat) (msg : ClientMessage) (uninit : StdString),
      (∀ bytes, 0 ≤ hioWrite bytes) → cli.io = true → cli.connected = true → msg.qos ≤ 2 →
      msg.topicBytes.length < 2 ^ 16 →
      (mqttClientPublish hioWrite cli mid msg).writes.flatten.length < 2 ^ 28 →
      Holds mem 0 (mqttClientPublish hioWrite cli mid msg).writes.flatten →
      ∃ packet, tcpPacket mem (mqttClientPublish hioWrite cli mid msg).writes.flatten.length uninit = some packet ∧
        (msg.qos ≠ 0 → (mqttClientPublish hioWrite cli mid msg).result = mqttNextMid mid) ∧
        onMqttMessage onAuth server id packet =
          some (handledMessage server id session.version (mqttClientPublish hioWrite cli mid msg).result.toNat packet {
            topic := msg.topicBytes
            payload := msg.payloadBytes
            qos := msg.qos
            retain := msg.retain % 2 = 1
            prop := [] })) ∧
    (∀ msg : MqttMessage, server.isOpen id → msg.qos ≤ 2 → msg.topic.length < 2 ^ 16 → msg.payload ≠ [] →
      msg.prop.length < 2 ^ 16 → (publishHead session msg ++ msg.payload).length < 2 ^ 28 →
      Holds mem 0 (publishHead session msg ++ msg.payload) →
      (sessionPublish server id msg).log =
        server.log ++ [.write id (publishHead session msg), .write id msg.payload] ∧
      ∃ session' cli', (sessionPublish server id msg).sessions id = some session' ∧
        onPacket cli mem (publishHead session msg ++ msg.payload).length =
          (cli', publishAck msg.qos session'.mid ++ [.callback .publish]) ∧
        cli'.message.topicBytes mem = msg.topic ∧ cli'.message.payloadBytes mem = msg.payload ∧
        cli'.message.qos = msg.qos ∧ cli'.head.qos.val = msg.qos ∧ cli'.head.retain = msg.retain ∧
        (msg.qos ≠ 0 → cli'.mid = session'.mid)) := by
  constructor
  · intro hioWrite mid msg uninit hwrite hio hconnected hqos htopic htotal hmem
    obtain ⟨hbytes, hresult⟩ := mqttClientPublish_eq hwrite hio hconnected mid hqos
    rw [hbytes, ← hversion] at htotal hmem
    have hlength := PublishFields.length_head_le.trans_lt (htotal.trans (show 2 ^ 28 < 2 ^ 32 by norm_num))
    have hwritten := PublishFields.written_eq hlength
    rw [hwritten] at htotal hmem
    rw [hbytes, hresult, ← hversion, hwritten]
    have hfits : (msg.fields (mqttNextMid mid)).Fits session.version :=
      ⟨htopic, mqttNextMid_lt mid, Nat.two_pow_pos 16, hlength⟩
    have hqosval : (msg.fields (mqttNextMid mid)).qos.val = msg.qos := Nat.mod_eq_of_lt (by omega)
    have hmid : (if (msg.fields (mqttNextMid mid)).qos.val > 0 then (msg.fields (mqttNextMid mid)).mid else 0) =
        (if msg.qos ≠ 0 then (mqttNextMid mid : Int) else 0).toNat := by
      by_cases hzero : msg.qos = 0
      · rw [if_neg (by omega), if_neg (not_not.2 hzero)]
        rfl
      · rw [if_pos (by omega), if_pos hzero]
        rfl
    have hmessage : (msg.fields (mqttNextMid mid)).message session.version = {
        topic := msg.topicBytes, payload := msg.payloadBytes, qos := msg.qos, retain := msg.retain % 2 = 1,
        prop := [] } := by
      unfold PublishFields.message
      rw [hqosval]
      simp only [ClientMessage.fields, ite_self]
    refine ⟨_, tcpPacket_publishBytes htotal hmem, fun hzero => if_pos hzero, ?_⟩
    rw [onMqttMessage_publishBytes hsession hfits rfl rfl hmem, hmid, hmessage]
  · intro msg hopen hqos htopic hpayload hprop htotal hmem
    have hbytes := @publishHead_append_payload session msg (by omega)
    have hlog := (sends_publish server id msg hsession).log
    rw [if_pos hopen, Copy.writes, if_pos hpayload] at hlog
    rw [hbytes, hversion] at htotal hmem
    have hlength := PublishFields.length_head_le.trans_lt (htotal.trans (show 2 ^ 28 < 2 ^ 32 by norm_num))
    have hwritten := PublishFields.written_eq hlength
    rw [hwritten] at hmem
    rw [hbytes, hversion, hwritten]
    have hfits : (msg.fields session).Fits cli.protocolVersion :=
      ⟨htopic, Nat.mod_lt _ (by norm_num), hprop, hlength⟩
    have hqosval : (msg.fields session).qos.val = msg.qos := Nat.mod_eq_of_lt (by omega)
    refine ⟨hlog, _, _, session_sessionPublish hsession msg, ?_, topicBytes_received hmem,
      payloadBytes_received hmem, hqosval, hqosval, rfl, ?_⟩
    · rw [onPacket_publishBytes hfits hmem, hqosval]
      congr 2
      unfold publishAck MqttSession.published
      by_cases hzero : msg.qos = 0
      · simp [hzero]
      · rw [if_pos (show msg.qos > 0 by omega), if_pos (show msg.qos % 4 ≠ 0 by omega)]
        rfl
    · intro hzero
      show (if (msg.fields session).qos.val > 0 then (msg.fields session).mid else cli.mid) =
        if msg.qos % 4 ≠ 0 then (session.mid + 1) % 2 ^ 16 else session.mid
      rw [hqosval, if_pos (by omega), if_pos (by omega)]
      rfl

def singleSession (version : Nat) : MqttServer where
  created := 1
  sessions := Function.update (fun _ => none) 0 (some { tcp := true, version })

def connectedClient (version : Nat) : MqttClient where
  protocolVersion := version
  connected := true
  io := true

def messageA : ClientMessage where
  topic := some [97, 0]
  payload := some [120, 0]
  qos := 1
  topicFits := by decide
  payloadFits := by decide

def forwardedA : MqttMessage where
  topic := [97]
  payload := [120]
  qos := 1
  retain := true
  prop := [1, 1]

/-- The message `x` for `a`, there and back, in version 5. -/
theorem publish_round_trip_a :
    (∃ packet, tcpPacket (.ofList [0x32, 7, 0, 1, 97, 0, 1, 0, 120]) 9 [] = some packet ∧
      onMqttMessage acceptAll (singleSession 5) 0 packet = some (handledMessage (singleSession 5) 0 5 1 packet {
        topic := [97], payload := [120], qos := 1, retain := false, prop := [] })) ∧
    ∃ cli', onPacket (connectedClient 5) (.ofList [0x33, 9, 0, 1, 97, 0, 1, 2, 1, 1, 120]) 11 =
        (cli', [.write [0x40, 2, 0, 1], .callback .publish]) ∧
      cli'.message.topicBytes (.ofList [0x33, 9, 0, 1, 97, 0, 1, 2, 1, 1, 120]) = [97] ∧
      cli'.message.payloadBytes (.ofList [0x33, 9, 0, 1, 97, 0, 1, 2, 1, 1, 120]) = [120] ∧
      cli'.head.retain ∧ cli'.mid = 1 := by
  have hsession : (singleSession 5).sessions 0 = some { tcp := true, version := 5 } := rfl
  have hsent : (mqttClientPublish (fun bytes => bytes.length) (connectedClient 5) 0 messageA).writes.flatten =
      [0x32, 7, 0, 1, 97, 0, 1, 0, 120] := by decide
  have hresult : (mqttClientPublish (fun bytes => bytes.length) (connectedClient 5) 0 messageA).result = 1 := by decide
  have hhead : publishHead { tcp := true, version := 5 } forwardedA ++ forwardedA.payload =
      [0x33, 9, 0, 1, 97, 0, 1, 2, 1, 1, 120] := by decide
  refine ⟨?_, ?_⟩
  · have htrip := (@publish_round_trip (connectedClient 5) acceptAll _ _ _ hsession rfl
      (.ofList [0x32, 7, 0, 1, 97, 0, 1, 0, 120])).1 (fun bytes => bytes.length) 0 messageA []
        (fun bytes => Int.natCast_nonneg _) rfl rfl (by decide) (by decide)
    obtain ⟨packet, htcp, -, hhandled⟩ := htrip (by decide) (holds_ofList _)
    exact ⟨packet, htcp, hhandled⟩
  · have htrip := (@publish_round_trip (connectedClient 5) acceptAll _ _ _ hsession rfl
      (.ofList [0x33, 9, 0, 1, 97, 0, 1, 2, 1, 1, 120])).2 forwardedA rfl (by decide) (by decide) (by decide)
      (by decide)
    obtain ⟨-, session', cli', hsession', hpacket, htopic, hpayload, -, -, hretain, hmid⟩ :=
      htrip (by decide) (holds_ofList _)
    cases hsession'
    exact ⟨cli', hpacket, htopic, hpayload, hretain, hmid (by decide)⟩

end HvVerified.Mqtt
