import HvVerified.Lib.Count
import HvVerified.Mqtt.Proofs.RetainedProofs
import HvVerified.Mqtt.Proofs.RoundTripProofs

/-!
# Proofs: what a new subscriber gets of the retained messages

The handler of PUBLISH keeps the whole packet as the payload of the retained message, so that a new
subscriber gets the packet where the payload should be. `RetainInv` follows the messages in the tree back
to the packets that left them; a payload in the tree is longer than that of its packet. Therefore no
message with a payload is ever delivered as it was published (`retained_delivered_iff`).
-/

namespace HvVerified.Mqtt

open Base Lib Function List Option PacketMem

variable {onAuth : OnAuth} {packet : Packet} {w : RetainWorld} {act : ServerAct} {session : MqttSession}
  {message : RetainedMessage} {copies : List Copy} {s s' : MqttServer} {id : SessionId} {l : List Output}

/-! ## Runs with MQTT 3.1.1 -/

/-- The server, with the topics and payloads of the PUBLISH packets it has accepted to retain. -/
structure RetainWorld where
  server : MqttServer := {}
  published : List (StdString × StdString) := []

/-- The payload as the client meant it. -/
def publishedPayload (packet : Packet) : StdString :=
  packet.mem.bytes (publishPropAt packet) (packet.p + packet.head.length - publishPropAt packet).toNat

def retainedPublish : ServerAct → List (StdString × StdString)
  | .packet _ received =>
    if received.head.type = .publish ∧ PublishAccepted received ∧ received.head.retain then
      [((popStr received.mem received.p).1, publishedPayload received)]
    else []
  | _ => []

/-- A step with its record. -/
def retainStep (onAuth : OnAuth) (world : RetainWorld) (act : ServerAct) : Option RetainWorld :=
  (serverStep onAuth world.server act).map fun server =>
    { server, published := world.published ++ retainedPublish act }

/-- A packet of a client that keeps to MQTT 3.1.1: it came over the wire with a length of at most four bytes;
    CONNECT names the version, and the fields of PUBLISH are within the packet and its topic has no
    wildcards. -/
structure FitsMqtt311 (packet : Packet) : Prop where
  wire : ∃ size, tcpPacket packet.mem size packet.uninit = some packet
  short : packet.head.length < 2 ^ 28
  connect : packet.head.type = .connect →
    (packet.mem (popStr packet.mem packet.p).2).toNat = mqttProtocolV311
  publish : packet.head.type = .publish → publishPropAt packet ≤ packet.p + packet.head.length ∧
    PlainLevels (splitTopic (popStr packet.mem packet.p).1)

/-- All packets keep to MQTT 3.1.1. -/
def Mqtt311 (_ : RetainWorld) : ServerAct → Prop
  | .packet _ received => FitsMqtt311 received
  | _ => True

/-- The payload of the most recent PUBLISH packet to retain for the topic. -/
def LastRetained (published : List (StdString × StdString)) (topic payload : StdString) : Prop :=
  Since (· = (topic, payload)) (fun p => p.1 = topic) published

/-! ## Versions -/

/-- All sessions use MQTT 3.1.1. -/
def AllV311 (s : MqttServer) : Prop :=
  ∀ id session, s.sessions id = some session → session.version = mqttProtocolV311

theorem AllV311.of_logins (h : AllV311 s) (heq : s'.logins = s.logins) : AllV311 s' := by
  intro id session hsession
  have hlogin : (s'.sessions id).map MqttSession.login = (s.sessions id).map MqttSession.login :=
    congrFun (Prod.mk.inj heq).2 id
  rw [hsession, map_some] at hlogin
  obtain ⟨before, hbefore, hsame⟩ := map_eq_some_iff.1 hlogin.symm
  exact (congrArg MqttSession.version hsame).symm.trans (h id before hbefore)

theorem AllV311.modifySession (h : AllV311 s) {f : MqttSession → MqttSession}
    (hf : ∀ session, s.sessions id = some session → (f session).version = mqttProtocolV311) :
    AllV311 (s.modifySession id f) := by
  intro id' session hsession
  rcases update_cases hsession with ⟨-, heq⟩ | ⟨-, heq⟩
  · obtain ⟨before, hbefore, rfl⟩ := map_eq_some_iff.1 heq
    exact hf before hbefore
  · exact h id' session heq

theorem allV311_step (h : AllV311 w.server)
    (hok : Mqtt311 w act) (hs : serverStep onAuth w.server act = some s') : AllV311 s' := by
  cases act with
  | connected ws =>
    cases hs
    intro id' session hsession
    rcases update_cases hsession with ⟨-, heq⟩ | ⟨-, heq⟩
    · rw [← some.inj heq]
    · exact h id' session heq
  | packet id packet =>
    by_cases htype : packet.head.type = .connect
    · obtain ⟨session, hsession⟩ := exists_session hs
      obtain ⟨session', conn, hread, hset⟩ := logins_connect hsession htype hs
      obtain ⟨willTopic, willPayload, willProp, rfl⟩ := readConnect_session hread
      exact AllV311.of_logins (h.modifySession fun _ _ => FitsMqtt311.connect hok htype) hset
    · exact h.of_logins (logins_packet htype hs)
  | disconnected id =>
    cases hs
    rcases closeSession_cases w.server id with ⟨session, -, -, hclose⟩ | ⟨-, hclose⟩
    · obtain ⟨copies, hcopies, -⟩ := sends_serverPublish w.server session.willMessage
      have hpublished := h.of_logins (logins_of_sends hcopies)
      rw [hclose]
      exact hpublished.modifySession fun session hsession => hpublished id session hsession
    · rw [hclose]
      exact h
  | expired id =>
    cases hs
    intro id' session hsession
    rcases update_cases hsession with ⟨-, heq⟩ | ⟨-, heq⟩
    · cases heq
    · exact h id' session heq
  | publish msg =>
    cases hs
    obtain ⟨copies, hcopies, -⟩ := sends_serverPublish w.server msg
    exact h.of_logins (logins_of_sends hcopies)

/-! ## The retained messages in the tree -/

theorem varintDecodeLoop_le (buf : BytePtr) (len : Int) : ∀ (n bytes : Nat) (ret : UInt64),
    (varintDecodeLoop buf len n bytes ret).2 ≤ bytes + n := by
  intro n
  induction n with
  | zero =>
    intro bytes ret
    rw [varintDecodeLoop]
    omega
  | succ n ih =>
    intro bytes ret
    rw [varintDecodeLoop]
    split_ifs
    · omega
    · push_cast
      omega
    · have := ih (bytes + 1) (ret ||| ((buf bytes &&& 0x7F).toUInt64 <<< (7 * bytes).toUInt64))
      push_cast at this ⊢
      omega

theorem FitsMqtt311.header (h : FitsMqtt311 packet) :
    2 ≤ packet.p ∧ packet.p ≤ 11 ∧ packet.head.retain = retainBit packet.mem := by
  obtain ⟨size, hwire⟩ := h.wire
  unfold tcpPacket at hwire
  dsimp only at hwire
  split_ifs at hwire with hbad
  have hpos : (mqttHeadUnpack (packet.mem.ptr 0) size).2 > 0 := by
    by_contra hle
    exact hbad (.inl (by omega))
  have hle : (mqttHeadUnpack (packet.mem.ptr 0) size).2 ≤ 11 := by
    have hbytes := varintDecodeLoop_le (fun i => packet.mem.ptr 0 (i + 1)) ((size : Int) - 1) 10 0 0
    unfold mqttHeadUnpack varintDecode
    dsimp only
    split_ifs <;> omega
  have htwo := two_le_headlen hpos
  have heq := some.inj hwire
  refine ⟨?_, ?_, ?_⟩
  · rw [← heq]
    exact htwo
  · rw [← heq]
    exact hle
  · have hretain : packet.head.retain = (mqttHeadUnpack (packet.mem.ptr 0) size).1.retain := by
      conv_lhs => rw [← heq]
    rw [hretain]
    rfl

theorem publishPropAt_ge (packet : Packet) : packet.p + 2 ≤ publishPropAt packet := by
  unfold publishPropAt popStr
  split_ifs <;> simp only [pop16] <;> omega

/-- The message at a place of the tree is what the most recent PUBLISH packet for its topic has left; its
    payload is longer than that of the packet. -/
structure StoredFrom (published : List (StdString × StdString)) (path : List StdString)
    (message : RetainedMessage) (topic payload : StdString) : Prop where
  split : splitTopic topic = path
  valid : isValidTopic topic false
  plain : PlainLevels path
  topicLen : topic.length < 2 ^ 16
  last : LastRetained published topic payload
  nonempty : payload ≠ []
  longer : payload.length < message.payload.length
  bounded : message.payload.length < 2 ^ 29
  qos : message.qos < 4

/-- Every retained message comes from a packet. -/
structure RetainInv (w : RetainWorld) : Prop where
  versions : AllV311 w.server
  distinct : w.server.topicTree.Distinct
  stored : ∀ path message, retainedAt path w.server.topicTree = some message →
    ∃ topic payload, StoredFrom w.published path message topic payload

theorem RetainInv.plain (h : RetainInv w) : RetainedPlain w.server.topicTree := by
  intro path message hmessage
  obtain ⟨topic, payload, hstored⟩ := h.stored path message hmessage
  exact hstored.plain

theorem retainedAt_publishPacket (hversion : session.version = mqttProtocolV311)
    (haccepted : PublishAccepted packet)
    (hs : onPublishPacket s id session packet.head packet.mem packet.p = some s') (path : List StdString) :
    retainedAt path s'.topicTree =
      if retainBit packet.mem ∧ path = splitTopic (popStr packet.mem packet.p).1 ∧
          isValidTopic (popStr packet.mem packet.p).1 false ∧
          HashLast (splitTopic (popStr packet.mem packet.p).1) then
        retainedOf (if publishPayloadLen packet (publishPropAt packet) > 0 then
          packet.mem.bytes 0 (packet.p + packet.head.length).toNat else []) packet.head.qos.val packet.head.dup
      else retainedAt path s.topicTree := by
  obtain ⟨prop, p, mid, hprop, rfl⟩ := onPublishPacket_accepted haccepted hs
  have hp : p = publishPropAt packet := by
    have hv : session.version ≠ mqttProtocolV5 := by rw [hversion]; decide
    rw [parseProp, if_pos hv] at hprop
    exact (Prod.mk.inj (some.inj hprop)).2.symm
  subst hp
  obtain ⟨acks, hacks, -⟩ := sends_ackPublish s id session.version packet.head.qos.val mid
  rw [MqttServer.output, topicTree_serverPublish]
  unfold storeRetained
  by_cases hretain : retainBit packet.mem
  · rw [if_pos hretain, MqttServer.modifyTree, hacks.topicTree]
    rw [retainedAt_setRetainedMessage]
    exact if_congr (and_iff_right hretain).symm rfl rfl
  · rw [if_neg hretain, if_neg (fun h => hretain h.1), hacks.topicTree]

/-- A PUBLISH packet with the retain bit leaves its message, and the packets before it keep theirs. -/
theorem stored_publish (h : RetainInv w)
    (hversion : session.version = mqttProtocolV311) (hfits : FitsMqtt311 packet)
    (htype : packet.head.type = .publish) (haccepted : PublishAccepted packet) (hretain : packet.head.retain)
    (hs : onPublishPacket w.server id session packet.head packet.mem packet.p = some s')
    {path : List StdString} (hmessage : retainedAt path s'.topicTree = some message) : ∃ topic payload, StoredFrom
      (w.published ++ [((popStr packet.mem packet.p).1, publishedPayload packet)]) path message topic payload := by
  obtain ⟨htwo, hhead, hbit⟩ := hfits.header
  obtain ⟨hfit, hplain⟩ := hfits.publish htype
  have hshort := hfits.short
  have hprop := publishPropAt_ge packet
  rw [retainedAt_publishPacket hversion haccepted hs] at hmessage
  by_cases hpath : retainBit packet.mem ∧ path = splitTopic (popStr packet.mem packet.p).1 ∧
      isValidTopic (popStr packet.mem packet.p).1 false ∧
      HashLast (splitTopic (popStr packet.mem packet.p).1)
  · -- the new message: it holds the whole packet
    rw [if_pos hpath] at hmessage
    obtain ⟨-, rfl, hvalid, -⟩ := hpath
    have hpos : publishPayloadLen packet (publishPropAt packet) > 0 := by
      by_contra hzero
      rw [if_neg hzero] at hmessage
      simp [retainedOf] at hmessage
    rw [if_pos hpos] at hmessage
    have hlen : (packet.mem.bytes 0 (packet.p + packet.head.length).toNat).length =
        (packet.p + packet.head.length).toNat := by
      rw [bytes, length_slice, Nat.sub_zero]
    have hpayloadLen : (publishedPayload packet).length =
        (packet.p + packet.head.length - publishPropAt packet).toNat := by
      rw [publishedPayload, bytes, length_slice, Nat.sub_zero]
    have hraw : packet.mem.bytes 0 (packet.p + packet.head.length).toNat ≠ [] := by
      rw [← length_pos_iff, hlen]
      omega
    rw [retainedOf, if_neg hraw] at hmessage
    cases hmessage
    refine ⟨_, publishedPayload packet, rfl, hvalid, hplain, ?_, since_append_singleton.2 (.inl rfl), ?_, ?_, ?_,
      packet.head.qos.isLt⟩
    · rw [popStr, pop16]
      dsimp only
      rw [bytes, length_slice]
      have h0 := (packet.mem packet.p).toNat_lt
      have h1 := (packet.mem (packet.p + 1)).toNat_lt
      omega
    · rw [← length_pos_iff, hpayloadLen]
      unfold publishPayloadLen at hpos
      omega
    · rw [hpayloadLen, hlen]
      omega
    · rw [hlen]
      omega
  · rw [if_neg hpath] at hmessage
    obtain ⟨topic, payload, hstored⟩ := h.stored path message hmessage
    have hne : (popStr packet.mem packet.p).1 ≠ topic := by
      rintro rfl
      rw [← hstored.split] at hpath
      exact hpath ⟨hbit ▸ hretain, rfl, hstored.valid, hplain.hashLast⟩
    exact ⟨topic, payload, { hstored with last := since_append_singleton.2 (.inr ⟨hstored.last, hne⟩) }⟩

theorem retainedPublish_of_not_publish (h : act.isPublish = false) : retainedPublish act = [] := by
  cases act with
  | packet id received =>
    have htype : received.head.type ≠ .publish := by simpa [ServerAct.isPublish] using h
    rw [retainedPublish, if_neg (fun hc => htype hc.1)]
  | _ => rfl

theorem retainInv_step {w' : RetainWorld} (h : RetainInv w)
    (hok : Mqtt311 w act) (hs : retainStep onAuth w act = some w') : RetainInv w' := by
  obtain ⟨server, hserver, rfl⟩ := map_eq_some_iff.1 hs
  have hcalled := topicTree_step hserver
  have hdistinct : server.topicTree.Distinct := by
    obtain ⟨tact, -, -, htree⟩ := hcalled
    rw [htree]
    exact h.distinct.call _ _
  refine ⟨allV311_step h.versions hok hserver, hdistinct, ?_⟩
  intro path message hmessage
  cases hpublish : act.isPublish with
  | false =>
    rw [hpublish] at hcalled
    rw [retainedPublish_of_not_publish hpublish, append_nil]
    rw [hcalled.retainedAt] at hmessage
    exact h.stored path message hmessage
  | true =>
    cases act with
    | packet id packet =>
      have htype : packet.head.type = .publish := by simpa [ServerAct.isPublish] using hpublish
      rw [serverStep] at hserver
      obtain ⟨session, hsession⟩ := exists_session hserver
      simp only [onMqttMessage, hsession, htype] at hserver
      have hversion := h.versions id session hsession
      by_cases haccepted : PublishAccepted packet
      · by_cases hretain : packet.head.retain
        · rw [retainedPublish, if_pos ⟨htype, haccepted, hretain⟩]
          exact stored_publish h hversion hok htype haccepted hretain hserver hmessage
        · obtain ⟨-, -, hbit⟩ := FitsMqtt311.header hok
          rw [retainedPublish, if_neg (fun hc => hretain hc.2.2), append_nil]
          rw [retainedAt_publishPacket hversion haccepted hserver,
            if_neg (fun hc => hretain (hbit.trans hc.1))] at hmessage
          exact h.stored path message hmessage
      · rw [retainedPublish, if_neg (fun hc => haccepted hc.2.1), append_nil]
        rw [onPublishPacket_rejected haccepted hserver] at hmessage
        exact h.stored path message hmessage
    | _ => cases hpublish

theorem retainInv_of_reachable (h : Reachable (retainStep onAuth) Mqtt311 (· = {}) w) : RetainInv w := by
  apply h.invariant
  · rintro w rfl
    refine ⟨?_, TopicNode.distinct_new _, ?_⟩
    · intro id session hsession
      cases hsession
    · intro path message hmessage
      rw [retainedAt, retainedField.valueAt_new] at hmessage
      exact absurd hmessage (by simp [retainedField])
  · intro w act w' hw hok hs
    exact retainInv_step hw hok hs

/-! ## What the subscriber reads -/

theorem streamTo_copies (h : ∀ c ∈ copies, c.session = id) :
    streamTo id (copies.flatMap Copy.writes) = copies.flatMap fun c => c.head ++ c.message.payload := by
  induction copies with
  | nil => rfl
  | cons c copies ih =>
    have hc : streamTo id c.writes = c.head ++ c.message.payload := by
      unfold streamTo Copy.writes
      rw [h c mem_cons_self]
      by_cases hpayload : c.message.payload = []
      · simp [hpayload]
      · simp [hpayload]
    rw [flatMap_cons, streamTo_append, hc, ih fun c hc => h c (mem_cons_of_mem _ hc),
      flatMap_cons]

/-- The length of the packet of a copy without properties. -/
def copyLength (msg : MqttMessage) : Nat :=
  2 + msg.topic.length + msg.payload.length + if msg.qos ≠ 0 then 2 else 0

def MqttMessage.plainFields (msg : MqttMessage) (session : MqttSession) : PublishFields :=
  { msg.fields session with prop := [] }

section Copy

variable {msg : MqttMessage} (hversion : session.version ≠ mqttProtocolV5) (hqos : msg.qos < 4)
  (hlength : copyLength msg < 2 ^ 32)

include hversion hqos hlength

theorem copy_eq {version : Nat} (hclient : version ≠ mqttProtocolV5) :
    publishHead session msg ++ msg.payload = (msg.plainFields session).publishBytes version ∧
      ((msg.plainFields session).head version).length < 2 ^ 32 := by
  have hmid : (msg.plainFields session).midBytes.length = if msg.qos ≠ 0 then 2 else 0 := by
    rw [PublishFields.midBytes, apply_ite length]
    exact if_congr (qos_mod_ne_zero hqos) rfl rfl
  have hfields : (msg.fields session).fieldBytes session.version = (msg.plainFields session).fieldBytes version := by
    rw [PublishFields.fieldBytes, PublishFields.fieldBytes, pushProp, pushProp, if_neg hversion, if_neg hclient]
    rfl
  have hwritten : (msg.fields session).written session.version = (msg.plainFields session).written version := by
    unfold PublishFields.written PublishFields.head
    rw [hfields]
    rfl
  have hlen : ((msg.plainFields session).head version).length < 2 ^ 32 := by
    rw [PublishFields.length_head, hmid, pushProp, if_neg hclient, length_nil, Nat.add_zero, Nat.add_right_comm]
    exact hlength
  rw [publishHead_append_payload session hqos, hwritten, PublishFields.written_eq hlen]
  exact ⟨rfl, hlen⟩

theorem clientPackets_copy (stream : List UInt8) :
    clientPackets (publishHead session msg ++ msg.payload ++ stream) =
      (publishHead session msg ++ msg.payload) :: clientPackets stream := by
  obtain ⟨hbytes, hlen⟩ := copy_eq hversion hqos hlength (show mqttProtocolV311 ≠ mqttProtocolV5 by decide)
  rw [hbytes]
  exact clientPackets_append hlen length_append stream

/-- What the session writes is read by the client as the topic and the payload of the message. -/
theorem onPacketPublish_copy {version : Nat} (hclient : version ≠ mqttProtocolV5) (htopic : msg.topic.length < 2 ^ 16) :
    onPacketPublish version (publishHead session msg ++ msg.payload) = some {
      topic := msg.topic, payload := msg.payload, qos := msg.qos, retain := false, prop := [] } := by
  obtain ⟨hbytes, hlen⟩ := copy_eq hversion hqos hlength hclient
  have hqosval : (msg.plainFields session).qos.val = msg.qos := Nat.mod_eq_of_lt hqos
  have hfits : (msg.plainFields session).Fits version :=
    ⟨htopic, Nat.mod_lt _ (Nat.two_pow_pos 16), Nat.two_pow_pos 16, hlen⟩
  rw [hbytes, onPacketPublish_publishBytes hfits, hqosval]
  rfl

end Copy

/-- A copy that fits in a packet of version 3.1.1. -/
def Copy.Fits (c : Copy) : Prop :=
  ∃ session : MqttSession, session.version ≠ mqttProtocolV5 ∧ c.head = publishHead session c.message ∧
    c.message.qos < 4 ∧ copyLength c.message < 2 ^ 32

theorem clientPackets_copies (h : ∀ c ∈ copies, c.Fits) :
    clientPackets (copies.flatMap fun c => c.head ++ c.message.payload) =
      copies.map fun c => c.head ++ c.message.payload := by
  induction copies with
  | nil => rfl
  | cons c copies ih =>
    obtain ⟨session, hversion, hhead, hqos, hlength⟩ := h c mem_cons_self
    rw [flatMap_cons, map_cons, hhead, clientPackets_copy hversion hqos hlength,
      ih fun c hc => h c (mem_cons_of_mem _ hc)]

theorem RetainInv.mem_getRetainedMessages (h : RetainInv w) {root : TopicNode}
    (hd : root.Distinct) (hsame : ∀ path, retainedAt path root = retainedAt path w.server.topicTree)
    {f name : StdString} (hmem : (name, message) ∈ getRetainedMessages f root) :
    ∃ topic payload, StoredFrom w.published (splitTopic topic) message topic payload ∧
      name = rendered (splitTopic f) [] (splitTopic topic) ∧
      isWildcardMatch (upToHash (splitTopic f)) (splitTopic topic) := by
  have hplain : RetainedPlain root := by
    intro path message hmessage
    rw [hsame] at hmessage
    exact h.plain path message hmessage
  unfold getRetainedMessages at hmem
  split_ifs at hmem
  · rw [(collectRetainedMessages_perm _ [] hd hplain).mem_iff] at hmem
    obtain ⟨⟨levels, message'⟩, hr, heq⟩ := mem_map.1 hmem
    cases heq
    obtain ⟨hmessage, hmatch⟩ := (mem_matchRetained hd).1 hr
    rw [hsame] at hmessage
    obtain ⟨topic, payload, hstored⟩ := h.stored levels _ hmessage
    have hsplit := hstored.split
    subst hsplit
    exact ⟨topic, payload, hstored, rfl, hmatch⟩
  · cases hmem

theorem onPacketPublish_suback {version : Nat} {data : List UInt8} (hlength : data.length < 2 ^ 32) :
    onPacketPublish version (mqttHeadPack { type := .suback, length := data.length } ++ data) = none := by
  have hunpack := @mqttHeadUnpack_ofList { type := .suback, length := data.length } hlength _
    (prefix_append _ data)
  rw [onPacketPublish, if_neg]
  rw [onPacket, hunpack]
  dsimp only
  split_ifs
  · simp
  · unfold onSubAck
    dsimp only
    split_ifs
    · simp
    · split <;> simp

/-- The filter of a SUBSCRIBE packet. -/
def subscribeFilter (packet : Packet) : StdString := (popStr packet.mem (packet.p + 2)).1

theorem copies_of_retained {w : RetainWorld} (h : RetainInv w) {server : MqttServer} (hversions : AllV311 server)
    (hd : server.topicTree.Distinct)
    (hsame : ∀ path, retainedAt path server.topicTree = retainedAt path w.server.topicTree)
    (f : StdString) (qos : Nat) (uninit : StdString) : ∃ copies : List Copy,
    Sends server (sendRetained server id f qos uninit) (copies.flatMap Copy.writes) ∧
      ∀ c ∈ copies, c.session = id ∧ c.Fits ∧ c.message.topic.length < 2 ^ 16 ∧
        ∃ topic payload message, StoredFrom w.published (splitTopic topic) message topic payload ∧
          isWildcardMatch (upToHash (splitTopic f)) (splitTopic topic) ∧
          c.message.payload = message.payload := by
  obtain ⟨copies, hsends, hmap, hheads⟩ := sends_sendRetained server id f qos uninit
  refine ⟨copies, hsends, ?_⟩
  intro c hc
  obtain ⟨session, hrel, hhead⟩ := hheads c hc
  have hmem : (c.session, c.message) ∈ copies.map fun c => (c.session, c.message) := mem_map_of_mem hc
  rw [hmap] at hmem
  obtain ⟨⟨name, message⟩, hretained, heq⟩ := mem_map.1 (mem_of_mem_filter hmem)
  obtain ⟨hsession, hmessage⟩ := Prod.mk.inj heq
  obtain ⟨topic, payload, hstored, hname, hmatch⟩ := h.mem_getRetainedMessages hd hsame hretained
  have hversion : session.version = mqttProtocolV311 := by
    generalize hx : server.sessions c.session = x at hrel
    cases hrel with
    | some hmid =>
      obtain ⟨mid, rfl⟩ := hmid
      have hold := hversions c.session _ hx
      exact hold
  have hv : session.version ≠ mqttProtocolV5 := by rw [hversion]; decide
  have hbounded := hstored.bounded
  have hqos := hstored.qos
  have htopic : name.length < 2 ^ 16 := by
    rw [hname]
    exact (length_rendered_le (ne_nil_of_isValidTopic hstored.valid)).trans_lt hstored.topicLen
  rw [Copy.Fits, ← hmessage]
  rw [← hmessage] at hhead
  refine ⟨hsession.symm, ⟨session, hv, hhead, (Nat.min_le_right _ _).trans_lt hqos, ?_⟩, htopic,
    topic, payload, message, hstored, hmatch, rfl⟩
  unfold copyLength retainedCopy
  dsimp only
  split_ifs <;> omega

/-- What the subscriber reads after its SUBSCRIBE packet: the payloads are those in the tree, all longer
    than the payloads that were published. -/
theorem subscribe_reads (h : RetainInv w) (hopen : w.server.isOpen id) (htype : packet.head.type = .subscribe)
    (hlen : packet.head.length > 1) (hs : serverStep onAuth w.server (.packet id packet) = some s') :
    ∃ outputs, s'.log = w.server.log ++ outputs ∧
      ∀ q ∈ clientPackets (streamTo id outputs), ∀ message, onPacketPublish mqttProtocolV311 q = some message →
        ∃ topic payload, PlainLevels (splitTopic topic) ∧ LastRetained w.published topic payload ∧
          payload ≠ [] ∧
          isWildcardMatch (upToHash (splitTopic (subscribeFilter packet))) (splitTopic topic) ∧
          payload.length < message.payload.length := by
  rw [serverStep] at hs
  obtain ⟨session, hsession⟩ := exists_session hs
  simp only [onMqttMessage, hsession, htype] at hs
  have hversion := h.versions id session hsession
  have hv : session.version ≠ mqttProtocolV5 := by rw [hversion]; decide
  obtain ⟨prop, p', data, sent, hprop, hdata, hsent, rfl⟩ := onSubscribePacket_accepted hlen hs
  obtain rfl : packet.p + 2 = p' := by
    rw [parseProp, if_pos hv] at hprop
    exact (Prod.mk.inj (some.inj hprop)).2
  rw [← subscribeFilter, if_pos hopen] at *
  generalize (packet.mem (popStr packet.mem (packet.p + 2)).2).toNat = qos at *
  -- the tree with the new subscription holds the same messages
  have htree : (subscribeSession sent id (subscribeFilter packet) qos).topicTree =
      (treeCall sent.live w.server.topicTree
        (.subscribe (subscribeFilter packet) { session := id, qos := qos })).1 := by
    rw [← hsent.topicTree]
    rfl
  have hd : (subscribeSession sent id (subscribeFilter packet) qos).topicTree.Distinct := by
    rw [htree]
    exact h.distinct.call _ _
  have hsame : ∀ path, retainedAt path (subscribeSession sent id (subscribeFilter packet) qos).topicTree =
      retainedAt path w.server.topicTree := by
    intro path
    rw [htree]
    exact retainedAt_subscribe _ _ _ _ _
  have hversions : AllV311 sent := h.versions.of_logins (logins_of_sends hsent)
  obtain ⟨copies, hcopies, hfacts⟩ := @copies_of_retained id w h
    (subscribeSession sent id (subscribeFilter packet) qos) hversions hd hsame
    (subscribeFilter packet) qos packet.uninit
  have hlog : (subscribeSession sent id (subscribeFilter packet) qos).log = sent.log := rfl
  refine ⟨_, by rw [hcopies.log, hlog, hsent.log, append_assoc], ?_⟩
  have hstream := streamTo_copies fun c hc => (hfacts c hc).1
  have hsuback : streamTo id ([.write id (mqttHeadPack { type := .suback, length := data.length }),
      .write id data] ++ [.onSubscribe id {
        topic := subscribeFilter packet, payload := [], qos, retain := false, prop := [] }]) =
      mqttHeadPack { type := .suback, length := data.length } ++ data := by
    simp [streamTo]
  have hdataLen : data.length < 2 ^ 32 := by omega
  rw [streamTo_append, hstream, hsuback, clientPackets_append hdataLen rfl,
    clientPackets_copies fun c hc => (hfacts c hc).2.1]
  intro q hq message hread
  rcases mem_cons.1 hq with rfl | hq
  · rw [onPacketPublish_suback hdataLen] at hread
    cases hread
  · obtain ⟨c, hc, rfl⟩ := mem_map.1 hq
    obtain ⟨-, ⟨session', hv', hhead, hqos, hlength⟩, htopic, topic, payload, stored, hstored, hmatch, hpayload⟩ :=
      hfacts c hc
    rw [hhead, onPacketPublish_copy hv' hqos hlength (by decide) htopic] at hread
    cases hread
    refine ⟨topic, payload, hstored.plain, hstored.last, hstored.nonempty, hmatch, ?_⟩
    rw [hpayload]
    exact hstored.longer

/-- In every run over MQTT 3.1.1 sessions, a session that subscribes gets the retained messages that match
    its filter with their topics and payloads exactly if there are none: for all topics that match, the most
    recent retained PUBLISH packet had no payload. -/
theorem retained_delivered_iff {onAuth : OnAuth} {w : RetainWorld}
    (h : Reachable (retainStep onAuth) Mqtt311 (· = {}) w) (hopen : w.server.isOpen id = true)
    {packet : Packet} (htype : packet.head.type = .subscribe) (hlen : packet.head.length > 1)
    (hs : serverStep onAuth w.server (.packet id packet) = some s') :
    ∃ outputs, s'.log = w.server.log ++ outputs ∧
      ((∀ topic payload, PlainLevels (splitTopic topic) →
          isWildcardMatch (splitTopic (subscribeFilter packet)) (splitTopic topic) = true →
          LastRetained w.published topic payload → payload ≠ [] →
          ∃ q ∈ clientPackets (streamTo id outputs), ∃ message,
            onPacketPublish mqttProtocolV311 q = some message ∧
              message.topic = topic ∧ message.payload = payload) ↔
        ∀ topic payload, PlainLevels (splitTopic topic) →
          isWildcardMatch (splitTopic (subscribeFilter packet)) (splitTopic topic) = true →
          LastRetained w.published topic payload → payload = []) := by
  obtain ⟨outputs, hlog, hreads⟩ := subscribe_reads (retainInv_of_reachable h) hopen htype hlen hs
  refine ⟨outputs, hlog, ?_, ?_⟩
  · intro hdelivered topic payload
    -- a payload that was delivered belongs to a message with a shorter one, which was delivered, too
    induction hn : payload.length using Nat.strong_induction_on generalizing topic payload with
    | _ n ih =>
      intro hplain hmatch hlast
      by_contra hne
      obtain ⟨q, hq, message, hread, -, hpayload⟩ := hdelivered topic payload hplain hmatch hlast hne
      obtain ⟨topic', payload', hplain', hlast', hne', hmatch', hlt⟩ := hreads q hq message hread
      rw [upToHash_of_hashLast (hashLast_of_match hmatch)] at hmatch'
      rw [hpayload, hn] at hlt
      exact hne' (ih payload'.length hlt topic' payload' rfl hplain' hmatch' hlast')
  · intro hempty topic payload hplain hmatch hlast hne
    exact absurd (hempty topic payload hplain hmatch hlast) hne

/-- CONNECT with version 4, PUBLISH to `a` with the retain bit, and SUBSCRIBE to `a`. -/
def connect311 : Packet := wirePacket [0x10, 12, 0, 4, 77, 81, 84, 84, 4, 2, 0, 60, 0, 0]

def retainToA (payload : List UInt8) : Packet :=
  wirePacket ([0x31, UInt8.ofNat (3 + payload.length), 0, 1, 97] ++ payload)

def subscribeToA : Packet := wirePacket [0x82, 6, 0, 1, 0, 1, 97, 0]

theorem fitsMqtt311_connect : FitsMqtt311 connect311 := by
  refine ⟨⟨14, rfl⟩, by decide +kernel, fun _ => by decide +kernel, ?_⟩
  intro htype
  exact absurd htype (by decide +kernel)

theorem fitsMqtt311_retain {payload : List UInt8} (h : payload = [] ∨ payload = [120]) :
    FitsMqtt311 (retainToA payload) := by
  rcases h with rfl | rfl
  · refine ⟨⟨5, rfl⟩, by decide +kernel, ?_, fun _ => ?_⟩
    · intro htype
      exact absurd htype (by decide +kernel)
    · decide +kernel
  · refine ⟨⟨6, rfl⟩, by decide +kernel, ?_, fun _ => ?_⟩
    · intro htype
      exact absurd htype (by decide +kernel)
    · decide +kernel

/-- A connection over which messages for `a` are retained. -/
def retainAll (payloads : List (List UInt8)) : List ServerAct :=
  [.connected false, .packet 0 connect311] ++ payloads.map fun payload => .packet 0 (retainToA payload)

theorem reachable_retainAll {payloads : List (List UInt8)} {w : RetainWorld}
    (h : ∀ payload ∈ payloads, payload = [] ∨ payload = [120])
    (hrun : runFrom (retainStep acceptAll) {} (retainAll payloads) = some w) :
    Reachable (retainStep acceptAll) Mqtt311 (· = {}) w := by
  refine Reachable.runAdmitted _ (fun act hact _ _ hs => ⟨?_, hs⟩) (.start rfl) hrun
  simp only [retainAll, cons_append, nil_append, mem_cons, List.mem_map] at hact
  rcases hact with rfl | rfl | ⟨payload, hmem, rfl⟩
  · trivial
  · exact fitsMqtt311_connect
  · exact fitsMqtt311_retain (h payload hmem)

/-- A message is retained for `a`, and then deleted by a message without a payload. -/
theorem retained_delivered_deleted : ∃ (w : RetainWorld) (s' : MqttServer) (outputs : List Output),
    Reachable (retainStep acceptAll) Mqtt311 (· = {}) w ∧ w.published = [([97], [120]), ([97], [])] ∧
    serverStep acceptAll w.server (.packet 0 subscribeToA) = some s' ∧ s'.log = w.server.log ++ outputs ∧
    ∀ topic payload, PlainLevels (splitTopic topic) →
      isWildcardMatch (splitTopic (subscribeFilter subscribeToA)) (splitTopic topic) = true →
      LastRetained w.published topic payload → payload ≠ [] →
      ∃ q ∈ clientPackets (streamTo 0 outputs), ∃ message,
        onPacketPublish mqttProtocolV311 q = some message ∧
          message.topic = topic ∧ message.payload = payload := by
  obtain ⟨w, hrun⟩ := isSome_iff_exists.1
    (show (runFrom (retainStep acceptAll) {} (retainAll [[120], []])).isSome by decide +kernel)
  have hreach := reachable_retainAll (by simp) hrun
  have hpublished : w.published = [([97], [120]), ([97], [])] := of_run hrun (by decide +kernel)
  obtain ⟨s', hs⟩ := isSome_iff_exists.1
    (show (serverStep acceptAll w.server (.packet 0 subscribeToA)).isSome from of_run hrun (by decide +kernel))
  obtain ⟨outputs, hlog, hiff⟩ := retained_delivered_iff hreach (of_run hrun (by decide +kernel))
    (by decide +kernel) (by decide +kernel) hs
  refine ⟨w, s', outputs, hreach, hpublished, hs, hlog, hiff.2 ?_⟩
  intro topic payload _ hmatch hlast
  rw [hpublished] at hlast
  rcases since_append_singleton (l := [([97], [120])]).1 hlast with heq | ⟨hlast, hne⟩
  · exact (Prod.mk.inj heq).2.symm
  · rcases since_append_singleton (l := []).1 hlast with heq | ⟨hlast, -⟩
    · exact absurd (Prod.mk.inj heq).1 hne
    · exact absurd hlast not_since_nil

/-- A message `x` is retained for `a`; the subscriber gets the whole packet as its payload. -/
theorem retained_delivered_whole_packet : ∃ (w : RetainWorld) (s' : MqttServer) (outputs : List Output),
    Reachable (retainStep acceptAll) Mqtt311 (· = {}) w ∧ w.server.isOpen 0 = true ∧
    subscribeToA.head.type = .subscribe ∧
    serverStep acceptAll w.server (.packet 0 subscribeToA) = some s' ∧ s'.log = w.server.log ++ outputs ∧
    PlainLevels (splitTopic [97]) ∧
    isWildcardMatch (splitTopic (subscribeFilter subscribeToA)) (splitTopic [97]) = true ∧
    LastRetained w.published [97] [120] ∧
    (clientPackets (streamTo 0 outputs)).map (onPacketPublish mqttProtocolV311) =
      [none, some { topic := [97], payload := [0x31, 4, 0, 1, 97, 120], qos := 0, retain := false, prop := [] }] := by
  obtain ⟨w, hrun⟩ := isSome_iff_exists.1
    (show (runFrom (retainStep acceptAll) {} (retainAll [[120]])).isSome by decide +kernel)
  have hpublished : w.published = [([97], [120])] := of_run hrun (by decide +kernel)
  obtain ⟨s', hs⟩ := isSome_iff_exists.1
    (show (serverStep acceptAll w.server (.packet 0 subscribeToA)).isSome from of_run hrun (by decide +kernel))
  refine ⟨w, s', [.write 0 [0x90, 3], .write 0 [0, 1, 0],
      .onSubscribe 0 { topic := [97], payload := [], qos := 0, retain := false, prop := [] },
      .write 0 [0x31, 9, 0, 1, 97], .write 0 [0x31, 4, 0, 1, 97, 120]], reachable_retainAll (by simp) hrun,
    of_run hrun (by decide +kernel), by decide +kernel, hs, ?_, by decide +kernel, by decide +kernel, ?_, by decide +kernel⟩
  · revert s'
    exact of_run hrun (by decide +kernel)
  · rw [hpublished]
    exact since_append_singleton (l := []).2 (.inl rfl)

end HvVerified.Mqtt
