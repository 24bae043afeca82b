import HvVerified.Mqtt.Proofs.RoundTripProofs

/-!
# Proofs: the CONNECT packet

`mqtt_client_login` adds up the length of the packet in one pass, writes the fields in a second, and the
server reads them in a third. The three agree for every configuration of the client: the header
announces the bytes that follow (`length_loginBody`), and the server reads the fields up to the
last byte (`readConnectAt_login`).
-/

namespace HvVerified.Mqtt

open Base Lib List Option MqttClient

variable (cli : MqttClient) (version : Nat)

/-! ## The flags -/

/-- The connect flags by what they say. -/
def flagBits (clean will : Bool) (qos : Fin 4) (retain user password : Bool) : UInt8 :=
  (if clean then 0x02 else 0) |||
  (if will then 0x04 ||| UInt8.ofNat (qos * 8) ||| (if retain then 0x20 else 0) else 0) |||
  (if user then 0x80 else 0) ||| (if password then 0x40 else 0)

theorem flagBits_spec : ∀ clean will qos retain user password,
    let flags := flagBits clean will qos retain user password
    decide (flags &&& 0x04 ≠ 0) = will ∧ decide (flags &&& 0x80 ≠ 0) = user ∧
      decide (flags &&& 0x40 ≠ 0) = password := by
  decide +kernel

theorem connFlags_eq : ∃ qos retain, cli.connFlags =
    flagBits cli.cleanSession cli.loginWill.isSome qos retain (cli.username ≠ []) (cli.password ≠ []) := by
  unfold connFlags flagBits
  cases hwill : cli.loginWill with
  | none => exact ⟨0, false, by simp⟩
  | some will =>
    refine ⟨⟨will.1.qos % 4, Nat.mod_lt _ (by decide)⟩, will.1.retain ≠ 0, ?_⟩
    simp

theorem connFlags_spec : decide (cli.connFlags &&& 0x04 ≠ 0) = cli.loginWill.isSome ∧
    decide (cli.connFlags &&& 0x80 ≠ 0) = decide (cli.username ≠ []) ∧
    decide (cli.connFlags &&& 0x40 ≠ 0) = decide (cli.password ≠ []) := by
  obtain ⟨qos, retain, h⟩ := connFlags_eq cli
  rw [h]
  exact flagBits_spec _ _ _ _ _ _

/-! ## The parts of the packet -/

def emptyProp (version : Nat) : List UInt8 := pushProp version []

theorem emptyProp_eq : emptyProp version = if version = mqttProtocolV5 then [0] else [] := by
  congr 1

theorem parseProp_emptyProp {version : Nat} {mem : PacketMem} {p : Int} (h : Holds mem p (emptyProp version)) :
    parseProp version mem p = some ([], p + (emptyProp version).length) := by
  have hparse := @parseProp_of_holds _ _ _ [] (Nat.two_pow_pos 16) h
  rwa [ite_self] at hparse

def MqttClient.willBytes (cli : MqttClient) : List UInt8 :=
  match cli.loginWill with
  | some (_, topic, payload) => emptyProp cli.protocolVersion ++ (pushStr topic ++ pushStr payload)
  | none => []

def pushOptional (s : StdString) : List UInt8 := if s ≠ [] then pushStr s else []

theorem loginBody_eq : cli.loginBody = pushStr (mqttProtocolName cli.protocolVersion) ++
      ([UInt8.ofNat cli.protocolVersion, cli.connFlags] ++ (push16 cli.keepalive ++ (emptyProp cli.protocolVersion ++
        (pushStr cli.clientId ++ (cli.willBytes ++ (pushOptional cli.username ++ pushOptional cli.password)))))) := by
  unfold loginBody willBytes pushOptional
  rw [← emptyProp_eq]
  cases cli.loginWill with
  | none | some => simp only [append_assoc]

theorem length_mqttProtocolName :
    (mqttProtocolName version).length = if version = mqttProtocolV31 then 6 else 4 := by
  unfold mqttProtocolName
  split_ifs <;> rfl

theorem length_emptyProp : (emptyProp version).length = if version = mqttProtocolV5 then 1 else 0 := by
  rw [emptyProp_eq]
  split_ifs <;> rfl

theorem length_pushOptional (s : StdString) : (pushOptional s).length = if s ≠ [] then 2 + s.length else 0 := by
  unfold pushOptional
  split_ifs <;> simp

theorem length_loginBody : cli.loginBody.length = cli.loginLength := by
  rw [loginBody_eq]
  simp only [length_append, length_pushStr, length_push16, length_cons, length_nil,
    length_pushOptional, length_mqttProtocolName, length_emptyProp]
  unfold willBytes loginLength
  cases cli.loginWill with
  | none =>
    dsimp only
    rw [length_nil]
    omega
  | some will =>
    dsimp only
    rw [length_append, length_append, length_pushStr, length_pushStr, length_emptyProp]
    omega

/-! ## The server reads -/

/-- The configurations of a client: the character arrays have 64 bytes, and a will has a topic and a payload
    whose lengths are 16-bit numbers. -/
structure Configured (cli : MqttClient) : Prop where
  version : cli.protocolVersion = mqttProtocolV31 ∨ cli.protocolVersion = mqttProtocolV311 ∨
    cli.protocolVersion = mqttProtocolV5
  keepalive : cli.keepalive < 2 ^ 16
  clientId : cli.clientId ≠ [] ∧ cli.clientId.length ≤ 63
  username : cli.username.length ≤ 63
  password : cli.password.length ≤ 63
  will : ∀ will, cli.will = some will → will.topic.isSome ∧ will.payload.isSome ∧ will.qos ≤ 2 ∧
    will.topicBytes ≠ [] ∧ will.topicBytes.length < 2 ^ 16 ∧
    will.payloadBytes ≠ [] ∧ will.payloadBytes.length < 2 ^ 16

def MqttClient.willTopic (cli : MqttClient) : StdString := (cli.will.map ClientMessage.topicBytes).getD []

def MqttClient.willPayload (cli : MqttClient) : StdString := (cli.will.map ClientMessage.payloadBytes).getD []

section Login

variable {cli : MqttClient} {mem : PacketMem} {p pend : Int}

theorem Configured.loginWill (h : Configured cli) :
    cli.loginWill = cli.will.map fun will => (will, will.topicBytes, will.payloadBytes) := by
  unfold MqttClient.loginWill
  cases hwill : cli.will with
  | none => rfl
  | some will =>
    obtain ⟨htopic, hpayload, -, htopicNe, htopicLen, hpayloadNe, hpayloadLen⟩ := h.will will hwill
    have htopicPos := length_pos_iff.2 htopicNe
    have hpayloadPos := length_pos_iff.2 hpayloadNe
    dsimp only
    rw [Nat.mod_eq_of_lt htopicLen, Nat.mod_eq_of_lt hpayloadLen,
      if_pos ⟨htopic, hpayload, by omega, by omega⟩, take_length, take_length]
    rfl

theorem Configured.willBytes (h : Configured cli) : cli.willBytes = if cli.will.isSome then
      emptyProp cli.protocolVersion ++ (pushStr cli.willTopic ++ pushStr cli.willPayload) else [] := by
  unfold MqttClient.willBytes MqttClient.willTopic MqttClient.willPayload
  rw [h.loginWill]
  cases cli.will with
  | none | some => rfl

theorem Configured.will_lt (h : Configured cli) :
    cli.willTopic.length < 2 ^ 16 ∧ cli.willPayload.length < 2 ^ 16 := by
  unfold willTopic willPayload
  cases hwill : cli.will with
  | none => exact ⟨Nat.two_pow_pos 16, Nat.two_pow_pos 16⟩
  | some will =>
    obtain ⟨-, -, -, -, htopic, -, hpayload⟩ := h.will will hwill
    exact ⟨htopic, hpayload⟩

theorem Configured.loginLength_lt (h : Configured cli) : cli.loginLength < 2 ^ 28 := by
  have hbytes := congrArg length (loginBody_eq cli)
  obtain ⟨htopic, hpayload⟩ := h.will_lt
  have hclient := h.clientId.2
  have huser := h.username
  have hpassword := h.password
  rw [length_loginBody, h.willBytes] at hbytes
  simp only [length_append, length_pushStr, length_push16, length_cons, length_nil,
    length_pushOptional, length_mqttProtocolName, length_emptyProp] at hbytes
  rw [hbytes]
  by_cases hwill : cli.will.isSome
  · simp only [hwill, if_true, length_append, length_pushStr, length_emptyProp]
    split_ifs <;> omega
  · simp only [hwill, Bool.false_eq_true, if_false, length_nil]
    split_ifs <;> omega

theorem readOptional_of_holds {s : StdString} (hs : s.length < 2 ^ 16) (h : Holds mem p (pushOptional s))
    (hend : p + (pushOptional s).length ≤ pend) :
    readOptional (decide (s ≠ [])) mem p pend = some (s, p + (pushOptional s).length) := by
  unfold readOptional
  unfold pushOptional at h hend ⊢
  by_cases hne : s ≠ []
  · rw [if_pos hne] at h hend
    rw [decide_eq_true hne, if_pos rfl, if_pos hne, popStr_of_holds hs h]
    dsimp only
    rw [if_neg (by omega)]
  · obtain rfl := not_not.1 hne
    simp

theorem readWill_of_holds (hcfg : Configured cli) {session : MqttSession} {conn : MqttConn}
    (hversion : session.version = cli.protocolVersion) (hflag : conn.hasWill = cli.will.isSome)
    (hsession : session.willTopic = [] ∧ session.willPayload = [] ∧ session.willProp = [])
    (hconn : conn.willTopic = [] ∧ conn.willPayload = []) (h : Holds mem p cli.willBytes)
    (hend : p + cli.willBytes.length ≤ pend) : readWill session conn mem p pend =
      some ({ session with willTopic := cli.willTopic, willPayload := cli.willPayload, willProp := [] },
        some ({ conn with willTopic := cli.willTopic, willPayload := cli.willPayload }, p + cli.willBytes.length)) := by
  unfold readWill
  rw [hcfg.willBytes] at h hend ⊢
  rw [hflag]
  by_cases hwill : cli.will.isSome
  · rw [if_pos hwill] at h hend ⊢
    rw [if_pos hwill]
    rw [holds_append, holds_append] at h
    rw [length_append, length_append] at hend ⊢
    push_cast at hend ⊢
    have hprop := parseProp_emptyProp h.1
    rw [hversion, hprop, map_some]
    rw [popStr_of_holds hcfg.will_lt.1 h.2.1]
    rw [if_neg (by omega), popStr_of_holds hcfg.will_lt.2 h.2.2]
    dsimp only
    rw [if_neg (by omega), Int.add_assoc, Int.add_assoc]
  · have hnone : cli.will = none := by simpa using hwill
    have htopic : cli.willTopic = [] := by rw [willTopic, hnone]; rfl
    have hpayload : cli.willPayload = [] := by rw [willPayload, hnone]; rfl
    cases session
    cases conn
    simp_all

def MqttClient.conn (cli : MqttClient) : MqttConn where
  protocol := mqttProtocolName cli.protocolVersion
  version := cli.protocolVersion
  connFlag := cli.connFlags
  keepalive := cli.keepalive
  clientId := cli.clientId
  willTopic := cli.willTopic
  willPayload := cli.willPayload
  userName := cli.username
  password := cli.password

def MqttClient.loggedIn (cli : MqttClient) (session : MqttSession) : MqttSession :=
  { session with
    version := cli.protocolVersion
    willTopic := cli.willTopic
    willPayload := cli.willPayload
    willProp := [] }

/-- The server reads the fields of the packet, and nothing is left. -/
theorem readConnectAt_login (hcfg : Configured cli) {session : MqttSession}
    (hsession : session.willTopic = [] ∧ session.willPayload = [] ∧ session.willProp = []) {head : MqttHead}
    (hlength : head.length = cli.loginBody.length) (h : Holds mem p cli.loginBody) :
    readConnectAt session head mem p = some (cli.loggedIn session, some (cli.conn, p + head.length)) := by
  have hlen := congrArg length (loginBody_eq cli)
  simp only [length_append, length_cons, length_nil, length_push16] at hlen
  rw [loginBody_eq, holds_append, holds_append, holds_append, holds_append, holds_append, holds_append,
    holds_append] at h
  obtain ⟨hname, htwo, hkeepalive, hprop, hid, hwill, huser, hpassword⟩ := h
  rw [holds_cons, holds_cons] at htwo
  have hversion : (UInt8.ofNat cli.protocolVersion).toNat = cli.protocolVersion := by
    rcases hcfg.version with hv | hv | hv <;> rw [hv] <;> rfl
  have hnameLen : (mqttProtocolName cli.protocolVersion).length < 2 ^ 16 := by
    rw [length_mqttProtocolName]
    split_ifs <;> norm_num
  obtain ⟨hflagWill, hflagUser, hflagPassword⟩ := connFlags_spec cli
  have hisSome : cli.loginWill.isSome = cli.will.isSome := by
    rw [hcfg.loginWill, isSome_map]
  simp only [length_cons, length_nil, length_push16] at hkeepalive hprop hid hwill huser hpassword
  push_cast at hkeepalive hprop hid hwill huser hpassword
  unfold readConnectAt
  rw [popStr_of_holds hnameLen hname]
  dsimp only
  rw [htwo.1, htwo.2.1, hversion]
  rw [pop16_of_holds hcfg.keepalive hkeepalive]
  rw [parseProp_emptyProp hprop]
  dsimp only
  rw [popStr_of_holds (by have := hcfg.clientId.2; omega) hid]
  rw [if_neg (by push_cast at hlen; omega)]
  have hread := @readWill_of_holds cli mem _ (p + head.length) hcfg
    { session with version := cli.protocolVersion }
    { protocol := mqttProtocolName cli.protocolVersion
      version := cli.protocolVersion
      connFlag := cli.connFlags
      keepalive := cli.keepalive
      clientId := cli.clientId } rfl (hflagWill.trans hisSome) hsession ⟨rfl, rfl⟩ hwill
    (by push_cast at hlen; omega)
  rw [hread, map_some]
  have hreadUser := @readOptional_of_holds mem _ (p + head.length) cli.username
    (by have := hcfg.username; omega) huser (by push_cast at hlen; omega)
  have hreadPassword := @readOptional_of_holds mem _ (p + head.length) cli.password
    (by have := hcfg.password; omega) hpassword (by push_cast at hlen; omega)
  dsimp only [readLogin, bind_eq_bind, bind_some, MqttConn.hasUsername, MqttConn.hasPassword]
  rw [hflagUser, hflagPassword, hreadUser]
  dsimp only [bind_some]
  rw [hreadPassword]
  refine congrArg some (Prod.ext rfl (congrArg some (Prod.ext rfl ?_)))
  omega

end Login

/-- The packet that `mqtt_client_login` sends announces the bytes that follow its header, and the CONNECT
    handler of a new session reads it: `onAuth` is called with the version, the keepalive, the flags, the
    identifier, the user name and the password of the client when the pointer is at the end of the
    packet, and the session has the topic and the payload of the will, if there is one. -/
theorem connect_round_trip {cli : MqttClient} (hcfg : Configured cli) (random : StdString) {onAuth : OnAuth}
    {server : MqttServer} {id : SessionId} {tcp ws : Bool} (hsession : server.sessions id = some { tcp, ws })
    {mem : PacketMem} (hmem : Holds mem 0 (mqttClientLogin cli random).2) (uninit : StdString) :
    ∃ head body, (mqttClientLogin cli random).2 = mqttHeadPack head ++ body ∧ head.length = body.length ∧
      ∃ packet session' conn,
        tcpPacket mem (mqttClientLogin cli random).2.length uninit = some packet ∧ packet.head = head ∧
        readConnectAt { tcp, ws } packet.head packet.mem packet.p =
          some (session', some (conn, packet.p + packet.head.length)) ∧
        onMqttMessage onAuth server id packet = some (sessionSend (server.modifySession id fun _ => session') id .connack
          (0 :: (onAuth (server.modifySession id fun _ => session') id conn).code ::
            if conn.version = mqttProtocolV5 then [0] else [])) ∧
        conn.version = cli.protocolVersion ∧ conn.keepalive = cli.keepalive ∧ conn.connFlag = cli.connFlags ∧
        conn.clientId = cli.clientId ∧ conn.userName = cli.username ∧ conn.password = cli.password ∧
        session' = {
          tcp
          ws
          version := cli.protocolVersion
          willTopic := cli.willTopic
          willPayload := cli.willPayload } := by
  have hid : (cli.withId random) = cli := if_neg hcfg.clientId.1
  have hlength := length_loginBody cli
  have hbound := hcfg.loginLength_lt
  unfold mqttClientLogin at hmem ⊢
  rw [hid] at hmem ⊢
  have hheadLen : (mqttHeadPack { type := .connect, length := cli.loginLength }).length ≤ 11 :=
    Nat.succ_le_succ (isVarint_encode (show cli.loginLength < 2 ^ 63 by omega)).2.1
  have hfresh := @readConnectAt_login cli mem _ hcfg { tcp, ws } ⟨rfl, rfl, rfl⟩
    { type := .connect, length := cli.loginLength } hlength.symm ((holds_append.1 hmem).2)
  rw [Int.zero_add] at hfresh
  refine ⟨_, _, rfl, hlength.symm, _, _, cli.conn, tcpPacket_of_holds hlength.symm ?_ hmem, rfl, hfresh, ?_,
    rfl, rfl, rfl, rfl, rfl, rfl, rfl⟩
  · rw [length_append]
    omega
  · unfold onMqttMessage
    rw [hsession]
    dsimp only
    unfold onConnect
    rw [readConnect, hfresh]
    rfl

def clientWithWill : MqttClient where
  protocolVersion := 5
  cleanSession := true
  clientId := [99]
  will := some {
    topicLen := 1
    topic := some [119]
    payloadLen := 1
    payload := some [0]
    qos := 2
    retain := 1
    topicFits := by decide
    payloadFits := by decide }
  username := [117]
  password := [112]

/-- The server reads the will of this client. -/
theorem connect_round_trip_will : ∃ session' conn,
    readConnectAt { tcp := true } { type := .connect, length := 27 }
      (.ofList (mqttClientLogin clientWithWill []).2) 2 = some (session', some (conn, 29)) ∧
    conn.connFlag = 0xF6 ∧ conn.userName = [117] ∧ conn.password = [112] ∧
    session' = { tcp := true, version := 5, willTopic := [119], willPayload := [0] } := by
  have hcfg : Configured clientWithWill := by
    refine ⟨by decide, by decide, ⟨by decide, by decide⟩, by decide, by decide, ?_⟩
    intro will hwill
    cases hwill
    decide
  obtain ⟨head, body, hlogin, -, packet, session', conn, htcp, hhead, hread, -, -, -, hflag, -, huser, hpassword,
    hsession⟩ := @connect_round_trip clientWithWill hcfg [] acceptAll (singleSession 4) 0 true false rfl _
      (holds_ofList _) []
  have hpacket : tcpPacket (.ofList (mqttClientLogin clientWithWill []).2)
      (mqttClientLogin clientWithWill []).2.length [] = some {
        head := { type := .connect, length := 27 }
        mem := .ofList (mqttClientLogin clientWithWill []).2
        p := 2 } := by rfl
  cases hpacket.symm.trans htcp
  exact ⟨session', conn, hread, hflag, huser, hpassword, hsession⟩

end HvVerified.Mqtt
