import HvVerified.Mqtt.Proofs.RoundTripProofs

/-!
# Proofs: the acknowledgements of the server at the client

Whatever packet the server handles, its answer is the first packet that it writes, and `on_packet` of the client
reads it. In version 5 the client skips a property behind the packet identifier of SUBACK and UNSUBACK, where
the server has put the return code: the code is taken for the length of the property, and the connection is closed
if so many bytes do not follow.
-/

namespace HvVerified.Mqtt

open Base Lib List Option

variable {s s' : MqttServer} {id : SessionId} {session : MqttSession} {packet : Packet}

/-! ## What makes the server answer -/

/-- The types of the packets that `sendAck` is for. -/
def AckType : Type := { type : MqttType // type ∈ [.unsuback, .puback, .pubrec, .pubrel, .pubcomp] }

/-- A packet is handled, or the application calls `sendAck`. -/
inductive AckAct where
  | message (packet : Packet)
  | sendAck (type : AckType) (mid : UInt16) (reason : UInt8)

/-- A step in which acknowledgements are sent. -/
def AckAct.run (onAuth : OnAuth) (s : MqttServer) (id : SessionId) : AckAct → Option MqttServer
  | message packet => onMqttMessage onAuth s id packet
  | sendAck type mid reason => (s.sessions id).map fun session =>
      sessionSendAck s id session.version type.1 mid.toNat reason

/-- The packet identifier in a packet that is to be answered. -/
def Packet.mid (packet : Packet) : Nat :=
  if packet.head.type = .publish then publishMid packet else (pop16 packet.mem packet.p).1

/-- The packet identifier that is acknowledged. -/
def AckAct.mid : AckAct → Nat
  | message packet => packet.mid
  | sendAck _ mid _ => mid.toNat

theorem pop16_lt (mem : PacketMem) (p : Int) : (pop16 mem p).1 < 2 ^ 16 := by
  have h := (mem p).toNat_lt
  have h' := (mem (p + 1)).toNat_lt
  unfold pop16
  dsimp only
  omega

theorem AckAct.mid_lt (act : AckAct) : act.mid < 2 ^ 16 := by
  cases act with
  | message packet =>
    show packet.mid < 2 ^ 16
    unfold Packet.mid publishMid
    split_ifs
    · exact pop16_lt _ _
    · exact Nat.two_pow_pos 16
    · exact pop16_lt _ _
  | sendAck type mid reason => exact mid.toNat_lt

/-! ## The answers -/

variable {version mid : Nat}

/-- What the server writes behind the header of an answer. -/
inductive AckBody (version mid : Nat) : MqttType → List UInt8 → Prop where
  | connack (code : UInt8) :
      AckBody version mid .connack (0 :: code :: if version = mqttProtocolV5 then [0] else [])
  | suback (code : UInt8) :
      AckBody version mid .suback (push16 mid ++ code :: if version = mqttProtocolV5 then [0] else [])
  | ack (type : AckType) (reason : UInt8) :
      AckBody version mid type.1 (push16 mid ++ if version = mqttProtocolV5 then [reason, 0] else [])
  | pingresp : AckBody version mid .pingresp []

/-- The bytes on a channel begin with an answer or with a PUBLISH packet, if there are any. -/
inductive AnswersFirst (version mid : Nat) : List UInt8 → Prop where
  | nil : AnswersFirst version mid []
  | publish (head : MqttHead) (rest : List UInt8) (htype : head.type = .publish) :
      AnswersFirst version mid (mqttHeadPack head ++ rest)
  | answer (head : MqttHead) (body rest : List UInt8) (hlength : body.length = head.length)
      (hbody : AckBody version mid head.type body) : AnswersFirst version mid (mqttHeadPack head ++ body ++ rest)

theorem AnswersFirst.append {stream stream' : List UInt8} (h : AnswersFirst version mid stream)
    (h' : AnswersFirst version mid stream') : AnswersFirst version mid (stream ++ stream') := by
  cases h with
  | nil => exact h'
  | publish head rest htype =>
    rw [append_assoc]
    exact .publish head _ htype
  | answer head body rest hlength hbody =>
    rw [append_assoc]
    exact .answer head body _ hlength hbody

/-- From `s` to `s'` the server has written an answer on the channel of the session, if anything, and PUBLISH packets
    behind it. -/
structure AnswersSession (version mid : Nat) (id : SessionId) (s s' : MqttServer) : Prop where
  log : ∃ l, s'.log = s.log ++ l ∧ AnswersFirst version mid (streamTo id l)
  versions : (s'.sessions id).map MqttSession.version = (s.sessions id).map MqttSession.version

theorem AnswersSession.refl (s : MqttServer) : AnswersSession version mid id s s :=
  ⟨⟨[], (append_nil _).symm, .nil⟩, rfl⟩

theorem AnswersSession.trans {t : MqttServer} (h : AnswersSession version mid id s t)
    (h' : AnswersSession version mid id t s') : AnswersSession version mid id s s' := by
  obtain ⟨l, hlog, hfirst⟩ := h.log
  obtain ⟨l', hlog', hfirst'⟩ := h'.log
  refine ⟨⟨l ++ l', by rw [hlog', hlog, append_assoc], ?_⟩, h'.versions.trans h.versions⟩
  rw [streamTo_append]
  exact hfirst.append hfirst'

theorem answersSession_of_sends {l : List Output} (h : Sends s s' l)
    (hfirst : AnswersFirst version mid (streamTo id l)) : AnswersSession version mid id s s' := by
  exact ⟨⟨l, h.log, hfirst⟩, h.map_sessions _ (fun _ _ => rfl) id⟩

theorem answersSession_send {type : MqttType} {data : List UInt8} (hbody : AckBody version mid type data) :
    AnswersSession version mid id s (sessionSend s id type data) := by
  refine answersSession_of_sends (sends_send s id type data) ?_
  by_cases hopen : s.isOpen id
  · have hstream : streamTo id (.write id (mqttHeadPack { type, length := data.length }) ::
        if data ≠ [] then [.write id data] else []) = mqttHeadPack { type, length := data.length } ++ data ++ [] := by
      unfold streamTo
      by_cases hdata : data = []
      · simp [hdata]
      · simp [hdata]
    rw [if_pos hopen, hstream]
    exact .answer _ data [] rfl hbody
  · rw [if_neg hopen]
    exact .nil

theorem answersSession_sendAck (type : AckType) (reason : UInt8) :
    AnswersSession version mid id s (sessionSendAck s id version type.1 mid reason) := by
  refine answersSession_of_sends (sends_write s id _) ?_
  by_cases hopen : s.isOpen id
  · have hstream := AnswersFirst.answer {
        type := type.1
        qos := if type.1 = .pubrel then 1 else 0
        length := if version = mqttProtocolV5 then 4 else 2 } _ [] (by split_ifs <;> rfl)
      (@AckBody.ack version mid type reason)
    rw [if_pos hopen]
    simpa [streamTo] using hstream
  · rw [if_neg hopen]
    exact .nil

theorem answersFirst_copies (copies : List Copy) (h : ∀ c ∈ copies, ∃ session msg, c.head = publishHead session msg) :
    AnswersFirst version mid (streamTo id (copies.flatMap Copy.writes)) := by
  induction copies with
  | nil => exact .nil
  | cons c copies ih =>
    rw [flatMap_cons, streamTo_append]
    refine .append ?_ (ih fun c hc => h c (mem_cons_of_mem _ hc))
    obtain ⟨session, msg, hhead⟩ := h c mem_cons_self
    by_cases hid : c.session = id
    · rw [Copy.writes, hid, hhead]
      unfold publishHead
      dsimp only
      simp only [streamTo, flatMap_cons, if_true, append_assoc]
      exact .publish _ _ rfl
    · have hnone : streamTo id c.writes = [] := by
        unfold streamTo Copy.writes
        split_ifs <;> simp [hid]
      rw [hnone]
      exact .nil

/-- The answer that an operation sends, if it sends one, is for the packet. -/
def Operation.AnswersPacket (version mid : Nat) : Operation → Prop
  | .send type data => AckBody version mid type data
  | .sendAck version' type mid' => version' = version ∧ mid' = mid ∧
      type ∈ [MqttType.unsuback, .puback, .pubrec, .pubrel, .pubcomp]
  | _ => True

theorem answersSession_operation {op : Operation} (h : op.AnswersPacket version mid) :
    AnswersSession version mid id s (op.run id s) := by
  cases op with
  | send type data => exact answersSession_send h
  | sendAck version' type mid' =>
    obtain ⟨rfl, rfl, htype⟩ := h
    exact answersSession_sendAck ⟨type, htype⟩ 0
  | close =>
    refine ⟨⟨[], (append_nil _).symm, .nil⟩, ?_⟩
    simp only [Operation.run, sessionClose, MqttServer.modifySession, Function.update_self, Option.map_map]
    rfl
  | onPublish | onSubscribe | onUnsubscribe =>
    exact ⟨⟨_, rfl, .nil⟩, rfl⟩
  | call => exact ⟨⟨[], (append_nil _).symm, .nil⟩, rfl⟩
  | publish msg =>
    obtain ⟨copies, hsends, -, hcopies⟩ := sends_serverPublish s msg
    refine answersSession_of_sends hsends (answersFirst_copies copies fun c hc => ?_)
    obtain ⟨-, session, hhead⟩ := hcopies c hc
    exact ⟨session, msg, hhead⟩
  | sendRetained topic qos uninit =>
    obtain ⟨copies, hsends, -, hcopies⟩ := sends_sendRetained s id topic qos uninit
    refine answersSession_of_sends hsends (answersFirst_copies copies fun c hc => ?_)
    obtain ⟨session, -, hhead⟩ := hcopies c hc
    exact ⟨session, c.message, hhead⟩

theorem answersSession_operations {ops : List Operation} :
    ∀ {s : MqttServer}, (∀ op ∈ ops, op.AnswersPacket version mid) →
      AnswersSession version mid id s (ops.foldl (Operation.run id) s) := by
  induction ops with
  | nil => exact fun _ => .refl _
  | cons op ops ih =>
    intro s h
    exact (answersSession_operation (h op mem_cons_self)).trans (ih fun op hop => h op (mem_cons_of_mem _ hop))

theorem handlerOps_answer {ops : List Operation} (hops : handlerOps id session packet = some ops) :
    ∀ op ∈ ops, op.AnswersPacket session.version packet.mid := by
  unfold handlerOps at hops
  dsimp only at hops
  split at hops
  next htype =>
    have hmid : packet.mid = publishMid packet := if_pos htype
    rw [hmid]
    split_ifs at hops
    · obtain ⟨⟨prop, p⟩, -, rfl⟩ := map_eq_some_iff.1 hops
      unfold publishOps
      split_ifs <;> simp [Operation.AnswersPacket]
    · cases hops
      simp [Operation.AnswersPacket]
  iterate 4
    next htype =>
      have hmid : packet.mid = (pop16 packet.mem packet.p).1 := if_neg (by rw [htype]; decide)
      rw [hmid]
      cases hops
      unfold ackOps
      split_ifs <;> simp [Operation.AnswersPacket]
  iterate 2
    next htype =>
      have hmid : packet.mid = (pop16 packet.mem packet.p).1 := if_neg (by rw [htype]; decide)
      rw [hmid]
      split_ifs at hops
      · obtain ⟨⟨prop, p⟩, -, rfl⟩ := map_eq_some_iff.1 hops
        simp [subscribeOps, unsubscribeOps, Operation.AnswersPacket, AckBody.suback]
      · cases hops
        simp
  · cases hops
    simp [Operation.AnswersPacket, AckBody.pingresp]
  all_goals
    cases hops
    simp [Operation.AnswersPacket]

theorem readWill_version {session' : MqttSession} {conn conn' : MqttConn} {mem : PacketMem} {p p' pend : Int}
    (h : readWill session conn mem p pend = some (session', some (conn', p'))) : conn'.version = conn.version := by
  unfold readWill at h
  split_ifs at h
  · obtain ⟨prop, -, hp⟩ := map_eq_some_iff.1 h
    dsimp only at hp
    split_ifs at hp <;> cases hp
    rfl
  · cases h
    rfl

theorem readConnect_version {session' : MqttSession} {head : MqttHead} {mem : PacketMem} {p : Int} {conn : MqttConn}
    (h : readConnect session head mem p = some (session', some conn)) : conn.version = session'.version := by
  obtain ⟨_, _, _, hsession⟩ := readConnect_session h
  obtain ⟨⟨_, rest⟩, hread, heq⟩ := map_eq_some_iff.1 h
  obtain ⟨⟨conn, p'⟩, rfl, rfl⟩ := map_eq_some_iff.1 (Prod.mk.inj heq).2
  unfold readConnectAt at hread
  dsimp only at hread
  split at hread
  · cases hread
  · split_ifs at hread
    · cases hread
    · obtain ⟨⟨_, rest⟩, hwill, hlogin⟩ := map_eq_some_iff.1 hread
      obtain ⟨⟨conn₁, p₁⟩, rfl, huser⟩ := bind_eq_some_iff.1 (Prod.mk.inj hlogin).2
      obtain ⟨user, -, hpassword⟩ := bind_eq_some_iff.1 huser
      obtain ⟨password, -, hconn⟩ := bind_eq_some_iff.1 hpassword
      cases hconn
      rw [hsession]
      exact readWill_version hwill

/-- The answer is for the version that the session has after it. -/
theorem AckAct.answersFirst {onAuth : OnAuth} {act : AckAct} (hs : act.run onAuth s id = some s')
    (hsession : s'.sessions id = some session) :
    AnswersFirst session.version act.mid (streamTo id (outputsSince s s')) := by
  have hanswers : ∀ {before : MqttSession} {t : MqttServer}, t.sessions id = some before → t.log = s.log →
      AnswersSession before.version act.mid id t s' →
      AnswersFirst session.version act.mid (streamTo id (outputsSince s s')) := by
    intro before t hbefore hlog h
    have hversion : session.version = before.version := by
      have hversions := h.versions
      rw [hsession, hbefore] at hversions
      exact some.inj hversions
    obtain ⟨l, hl, hfirst⟩ := h.log
    rw [hlog] at hl
    rw [outputsSince_eq hl, hversion]
    exact hfirst
  cases act with
  | sendAck type mid reason =>
    obtain ⟨before, hbefore, rfl⟩ := map_eq_some_iff.1 hs
    exact hanswers hbefore rfl (answersSession_sendAck type reason)
  | message packet =>
    obtain ⟨before, hbefore⟩ := exists_session hs
    by_cases htype : packet.head.type = .connect
    · simp only [AckAct.run, onMqttMessage, hbefore, htype] at hs
      obtain ⟨⟨session', conn⟩, hread, rfl⟩ := map_eq_some_iff.1 hs
      have hset : (s.modifySession id fun _ => session').sessions id = some session' := by
        simp [MqttServer.modifySession, hbefore]
      refine hanswers hset rfl ?_
      cases conn with
      | none => exact .refl _
      | some conn =>
        dsimp only
        rw [readConnect_version hread]
        exact answersSession_send (.connack _)
    · rw [AckAct.run, onMqttMessage_eq hbefore htype] at hs
      obtain ⟨ops, hops, rfl⟩ := map_eq_some_iff.1 hs
      exact hanswers hbefore rfl (answersSession_operations (handlerOps_answer hops))

/-! ## Two bytes taken for a property -/

/-- A property is looked for at a code that is followed by 0, the last byte of the packet. -/
theorem skipProperties_code {cli : MqttClient} (hversion : cli.protocolVersion = mqttProtocolV5) {mem : PacketMem}
    {p : Int} {code : UInt8} (h : Holds mem p [code, 0]) :
    (cli.skipProperties mem p (p + 2)).isSome ↔ code ≤ 1 ∨ code = 0x80 := by
  have hskip : cli.skipProperties mem p (p + 2) = mqttV5SkipProperties mem p (p + 2) :=
    if_pos ⟨hversion, by omega⟩
  have hlt := code.toNat_lt
  rw [hskip, mqttV5SkipProperties, if_neg (by omega), show p + 2 - p = 2 by omega]
  dsimp only
  by_cases hsmall : code.toNat < 128
  · -- the code is a length of one byte
    have hvarint : IsVarint [code] code.toNat :=
      ⟨hsmall, by simp, by simp [varintValue, Nat.mod_eq_of_lt hsmall]⟩
    rw [holds_cons] at h
    obtain ⟨hbytes, hvalue⟩ := (decodes_varint hvarint).complete (mem.ptr p) 2 (by
      intro i b hb
      obtain ⟨hi, rfl⟩ := List.getElem?_eq_some_iff.1 hb
      obtain rfl : i = 0 := by simpa using hi
      simpa [PacketMem.ptr] using h.1) (.inr (by simp))
    rw [hbytes, hvalue, Nat.mod_eq_of_lt (by omega), bmod_of_lt (by omega), if_neg (by simp)]
    have hne : code ≠ 0x80 := by
      rintro rfl
      exact absurd hsmall (by decide)
    simp only [List.length_singleton, hne, or_false]
    rw [UInt8.le_iff_toNat_le]
    show (if p + ((1 : Nat) : Int) + code.toNat > p + 2 then none else _).isSome ↔ code.toNat ≤ 1
    split_ifs with hend
    · simp only [isSome_none, Bool.false_eq_true, false_iff]
      omega
    · simp only [isSome_some, true_iff]
      omega
  · -- the length goes on in the last byte
    have hvarint : IsVarint [code, 0] (code.toNat % 128) :=
      ⟨⟨by omega, show (0 : UInt8).toNat < 128 by decide⟩, by simp, by simp [varintValue]⟩
    obtain ⟨hbytes, hvalue⟩ := (decodes_varint hvarint).complete (mem.ptr p) 2 h (.inr (by simp))
    rw [hbytes, hvalue, Nat.mod_eq_of_lt (by omega), bmod_of_lt (by omega), if_neg (by simp)]
    have hnot : ¬ code ≤ 1 := by
      rw [UInt8.le_iff_toNat_le]
      show ¬ code.toNat ≤ 1
      omega
    have heq : code = 0x80 ↔ code.toNat = 128 := UInt8.toNat_inj.symm
    simp only [List.length_cons, List.length_nil, hnot, false_or, heq]
    split_ifs with hend
    · simp only [isSome_none, Bool.false_eq_true, false_iff]
      omega
    · simp only [isSome_some, true_iff]
      omega

/-! ## The client -/

section Client

variable {cli : MqttClient} {mem : PacketMem}

/-- SUBACK and UNSUBACK: a packet identifier, and in version 5 a code and a 0. -/
theorem onSubAck_iff {mid : Nat} (hmid : mid < 2 ^ 16) {code : UInt8} {rest : List UInt8} {p : Int}
    (hrest : cli.protocolVersion = mqttProtocolV5 → rest = [code, 0])
    (hmem : Holds mem p (push16 mid ++ rest)) {head : MqttHead} (hlength : 2 ≤ head.length) :
    (.close ∉ (onSubAck { cli with head } mem p (p + ((push16 mid ++ rest).length : Nat))).2 ↔
      (cli.protocolVersion = mqttProtocolV5 → code ≤ 1 ∨ code = 0x80)) ∧
    (onSubAck { cli with head } mem p (p + ((push16 mid ++ rest).length : Nat))).1.mid = mid := by
  rw [holds_append] at hmem
  have hend : p + ((push16 mid ++ rest).length : Nat) = p + 2 + rest.length := by
    rw [length_append, length_push16]
    omega
  rw [hend]
  unfold onSubAck
  dsimp only
  rw [if_neg (by omega), pop16_of_holds hmid hmem.1]
  by_cases hversion : cli.protocolVersion = mqttProtocolV5
  · have hcode : Holds mem (p + 2) [code, 0] := by
      rw [← hrest hversion]
      exact hmem.2
    have hskip := @skipProperties_code { cli with head, mid } hversion mem _ _ hcode
    have hlen : p + 2 + (([code, 0] : List UInt8).length : Int) = p + 2 + 2 := rfl
    rw [hrest hversion, hlen]
    cases hread : MqttClient.skipProperties { cli with head, mid } mem (p + 2) (p + 2 + 2) with
    | none =>
      rw [hread] at hskip
      have hnot : ¬ (code ≤ 1 ∨ code = 0x80) := by simpa using hskip
      exact ⟨⟨fun h => absurd (mem_singleton.2 rfl) h, fun h => absurd (h hversion) hnot⟩, rfl⟩
    | some p' =>
      rw [hread] at hskip
      have hyes : code ≤ 1 ∨ code = 0x80 := by simpa using hskip
      exact ⟨⟨fun _ _ => hyes, fun _ => by simp⟩, rfl⟩
  · have hread : MqttClient.skipProperties { cli with head, mid } mem (p + 2) (p + 2 + rest.length) = some (p + 2) :=
      if_neg fun h => hversion h.1
    rw [hread]
    refine ⟨⟨fun _ h => absurd h hversion, fun _ => by simp⟩, rfl⟩

theorem onPubAck_accepts {mid : Nat} (hmid : mid < 2 ^ 16) {rest : List UInt8} {p : Int}
    (hmem : Holds mem p (push16 mid ++ rest)) {head : MqttHead} (hlength : 2 ≤ head.length) :
    .close ∉ (onPubAck { cli with head } mem p).2 ∧ (onPubAck { cli with head } mem p).1.mid = mid := by
  rw [holds_append] at hmem
  unfold onPubAck
  dsimp only
  rw [if_neg (by omega), pop16_of_holds hmid hmem.1]
  refine ⟨?_, rfl⟩
  split_ifs <;> simp

theorem onConnack_accepts {code : UInt8} (hcode : code = 0) {p : Int} {body : List UInt8}
    (hbody : body = 0 :: code :: if cli.protocolVersion = mqttProtocolV5 then [0] else [])
    (hmem : Holds mem p body) {head : MqttHead} (hlength : 2 ≤ head.length) :
    .close ∉ (onConnack { cli with head } mem p (p + (body.length : Nat))).2 := by
  have hprop : body = [0, 0] ++ pushProp cli.protocolVersion [] := by
    rw [hbody, hcode, pushProp]
    split_ifs <;> rfl
  have hread : mem (p + 1) = 0 := hmem 1 0 (by rw [hprop]; rfl)
  rw [hprop, holds_append] at hmem
  obtain ⟨p', hskip⟩ : ∃ p', MqttClient.skipProperties { cli with head } mem (p + 2) (p + (body.length : Nat)) =
    some p' := by
    refine ⟨_, @skipProperties_of_holds mem _ { cli with head } [] (by decide) hmem.2 _ ?_⟩
    rw [hprop, length_append]
    push_cast
    omega
  unfold onConnack
  dsimp only
  rw [if_neg (by omega), hread, if_neg (by simp), hskip]
  split_ifs <;> simp

/-- The client stays connected, and records the packet identifier if the packet has one. -/
def Accepted (cli : MqttClient) (mem : PacketMem) (len : Nat) (type : MqttType) (mid : Nat) : Prop :=
  .close ∉ (onPacket cli mem len).2 ∧ (type ≠ .connack → type ≠ .pingresp → (onPacket cli mem len).1.mid = mid)

theorem AckBody.length_le {type : MqttType} {body : List UInt8} (h : AckBody version mid type body) :
    body.length ≤ 4 := by
  cases h <;> (try split_ifs) <;> simp

theorem accepted_iff {head : MqttHead} {body : List UInt8} (hlength : body.length = head.length)
    (hbody : AckBody cli.protocolVersion mid head.type body) (hmid : mid < 2 ^ 16)
    (hcode : head.type = .connack → body.getD 1 0 = 0) (hmem : Holds mem 0 (mqttHeadPack head ++ body)) :
    Accepted cli mem (mqttHeadPack head ++ body).length head.type mid ↔
      (cli.protocolVersion = mqttProtocolV5 → head.type = .suback ∨ head.type = .unsuback →
        body.getD 2 0 ≤ 1 ∨ body.getD 2 0 = 0x80) := by
  have hle := hbody.length_le
  have hpos := headPack_length_pos head
  rw [holds_append, Int.zero_add] at hmem
  have hunpack := mqttHeadUnpack_of_holds (by omega) hmem.1 (show _ ≤ (mqttHeadPack head ++ body).length by simp)
  unfold Accepted onPacket
  rw [hunpack]
  dsimp only
  rw [if_neg (by omega), length_append, Nat.cast_add]
  replace hmem := hmem.2
  generalize ((mqttHeadPack head).length : Int) = p at hmem
  obtain ⟨type, dup, qos, retain, length⟩ := head
  dsimp only at hbody hcode hlength ⊢
  cases hbody with
  | connack code =>
    have hclose := @onConnack_accepts cli mem code (hcode rfl) p _ rfl hmem ⟨.connack, dup, qos, retain, length⟩
      (by rw [← hlength]; simp)
    exact iff_of_true ⟨hclose, fun h => absurd rfl h⟩ (by simp)
  | suback code =>
    obtain ⟨hclose, hrecorded⟩ := @onSubAck_iff cli mem mid hmid code
      (code :: if cli.protocolVersion = mqttProtocolV5 then [0] else []) p (fun h => by rw [if_pos h]) hmem
      ⟨.suback, dup, qos, retain, length⟩ (by rw [← hlength]; simp)
    dsimp only
    rw [hclose, hrecorded]
    simp [push16]
  | ack type reason =>
    obtain ⟨type, htype⟩ := type
    have htwo : 2 ≤ length := by
      rw [← hlength]
      simp
    simp only [mem_cons, not_mem_nil, or_false] at htype
    rcases htype with rfl | rfl | rfl | rfl | rfl
    · obtain ⟨hclose, hrecorded⟩ := @onSubAck_iff cli mem mid hmid reason
        (if cli.protocolVersion = mqttProtocolV5 then [reason, 0] else []) p (fun h => if_pos h) hmem
        ⟨.unsuback, dup, qos, retain, length⟩ htwo
      dsimp only
      rw [hclose, hrecorded]
      simp +contextual [push16]
    all_goals
      obtain ⟨hclose, hrecorded⟩ := @onPubAck_accepts cli mem mid hmid _ p hmem ⟨_, dup, qos, retain, length⟩ htwo
      exact iff_of_true ⟨hclose, fun _ _ => hrecorded⟩ (by simp)
  | pingresp => exact iff_of_true ⟨not_mem_nil, fun _ h => absurd rfl h⟩ (by simp)

end Client

/-! ## The answers accepted -/

/-- The type in the first byte of a packet. -/
def packetType (buf : List UInt8) : MqttType := .ofCode ((buf.headD 0).toNat / 16)

theorem packetType_pack (head : MqttHead) (rest : List UInt8) :
    packetType (mqttHeadPack head ++ rest) = head.type := by
  have hdup := head.dup.toNat_le
  have hretain := head.retain.toNat_le
  have hqos := head.qos.isLt
  have hfirst : packetType (mqttHeadPack head ++ rest) = MqttType.ofCode ((head.type.code * 16 +
      head.dup.toNat * 8 + head.qos * 2 + head.retain.toNat) / 16) :=
    congrArg (fun n => MqttType.ofCode (n / 16)) (headByte_toNat head)
  rw [hfirst, show _ / 16 = head.type.code by omega]
  exact head.type.ofCode_code

theorem packetType_of_clientPackets {stream buf : List UInt8} {more : List (List UInt8)}
    (h : clientPackets stream = buf :: more) : packetType buf = packetType stream := by
  obtain ⟨hne, rest, rfl⟩ := cut_eq_cons h
  cases buf with
  | nil => exact absurd rfl hne
  | cons b buf => rfl

theorem getD_answer {head : MqttHead} (hlength : head.length < 128) (body : List UInt8) (i : Nat) :
    (mqttHeadPack head ++ body).getD (i + 2) 0 = body.getD i 0 := by
  have hlen : varintEncode head.length = [UInt8.ofNat head.length] := by
    unfold varintEncode varintEncodeLoop
    rw [if_pos (Nat.div_eq_of_lt hlength), Nat.mod_eq_of_lt hlength]
  rw [mqttHeadPack, hlen]
  rfl

/-- Whatever packet the server handles, and whatever `sendAck` is called with: a client of the same version accepts the
    first packet that is written on the channel, if it is not a PUBLISH packet or a CONNACK packet that refuses, iff
    it is not a SUBACK or UNSUBACK packet of version 5 whose code is not the length of a property that ends within the
    packet. -/
theorem answer_accepted_iff {onAuth : OnAuth} {s s' : MqttServer} {id : SessionId} {act : AckAct}
    (hs : act.run onAuth s id = some s') {session : MqttSession} (hsession : s'.sessions id = some session)
    {buf : List UInt8} {more : List (List UInt8)}
    (hbuf : clientPackets (streamTo id (outputsSince s s')) = buf :: more) (htype : packetType buf ≠ .publish)
    (hcode : packetType buf = .connack → buf.getD 3 0 = 0) {cli : MqttClient}
    (hversion : cli.protocolVersion = session.version) {mem : PacketMem} (hmem : Holds mem 0 buf) :
    Accepted cli mem buf.length (packetType buf) act.mid ↔
      (session.version = mqttProtocolV5 → packetType buf = .suback ∨ packetType buf = .unsuback →
        buf.getD 4 0 ≤ 1 ∨ buf.getD 4 0 = 0x80) := by
  have hfirst := AckAct.answersFirst hs hsession
  have hfirstType := packetType_of_clientPackets hbuf
  generalize streamTo id (outputsSince s s') = stream at hfirst hbuf hfirstType
  cases hfirst with
  | nil => cases hbuf
  | publish head rest hpublish =>
    rw [packetType_pack, hpublish] at hfirstType
    exact absurd hfirstType htype
  | answer head body rest hlength hbody =>
    have hle := hbody.length_le
    rw [clientPackets_append (by omega) hlength] at hbuf
    obtain ⟨rfl, -⟩ := cons.inj hbuf
    rw [packetType_pack, getD_answer (by omega)] at hcode ⊢
    rw [← hversion] at hbody ⊢
    exact accepted_iff hlength hbody act.mid_lt hcode hmem

/-- A SUBSCRIBE packet of version 5 with the identifier 7, for the topic `a`. -/
def subscribeA (qos : UInt8) : Packet where
  head := { type := .subscribe, qos := 1, length := 7 }
  mem := .ofList [0x82, 7, 0, 7, 0, 0, 1, 97, qos]
  p := 2

/-- A subscription with QoS 1 in version 5 is acknowledged. -/
theorem answer_accepted_iff_suback : ∃ s', onMqttMessage acceptAll (singleSession 5) 0 (subscribeA 1) = some s' ∧
    clientPackets (streamTo 0 (outputsSince (singleSession 5) s')) = [[0x90, 4, 0, 7, 1, 0]] ∧
    Accepted (connectedClient 5) (.ofList [0x90, 4, 0, 7, 1, 0]) 6 .suback 7 := by
  refine ⟨_, rfl, by decide +kernel, ?_⟩
  exact (@answer_accepted_iff acceptAll (singleSession 5) _ 0 (.message (subscribeA 1)) rfl _ rfl
    [0x90, 4, 0, 7, 1, 0] [] (by decide +kernel) (by decide) (fun h => absurd h (by decide)) (connectedClient 5) rfl
    _ (holds_ofList _)).2 fun _ _ => .inl (by decide)

/-- A subscription with QoS 2 in version 5: the client takes the QoS for the length of a property of two bytes, of
which one follows, and closes the connection. -/
theorem suback_closes : ∃ s', onMqttMessage acceptAll (singleSession 5) 0 (subscribeA 2) = some s' ∧
    clientPackets (streamTo 0 (outputsSince (singleSession 5) s')) = [[0x90, 4, 0, 7, 2, 0]] ∧
    (onPacket (connectedClient 5) (.ofList [0x90, 4, 0, 7, 2, 0]) 6).2 = [.close] :=
  ⟨_, rfl, by decide +kernel, by decide +kernel⟩

end HvVerified.Mqtt
