import HvVerified.Mqtt.Proofs.OperationProofs
import HvVerified.Mqtt.Proofs.PacketProofs
import HvVerified.Mqtt.Proofs.SubscriptionProofs

/-!
# Proofs: what the server forwards

Everything that the server sends goes through `MqttSession::write`. `Sends s s' l` says that from `s` to
`s'` the server has sent `l` and has changed nothing but packet identifiers; the copies of a message are
described by `sends_publishAll`. The topic tree is changed by the calls of the tree only
(`topicTree_step`), so that the facts about it hold in every run of the server.
-/

namespace HvVerified.Mqtt

open Base Lib Function List Option Operation MqttServer

variable {session : MqttSession} {packet : Packet} {publish : Bool} {head : MqttHead} {mem : PacketMem}
  {p : Int} {onAuth : OnAuth} {act : TreeAct} {topic : StdString} {s s' s'' : MqttServer} {id : SessionId}
  {l l' : List Output}

/-! ## Sending -/

variable (server : MqttServer)

/-- The session has a channel. -/
def MqttServer.isOpen (id : SessionId) : Bool :=
  match server.sessions id with
  | some session => session.tcp || session.ws
  | none => false

/-- They differ in `mid` only. -/
def SameButMid (session session' : MqttSession) : Prop := ∃ mid, session' = { session with mid }

/-- The outputs `l` are all that happens from `s` to `s'`, but for packet identifiers. -/
structure Sends (s s' : MqttServer) (l : List Output) : Prop where
  log : s'.log = s.log ++ l
  topicTree : s'.topicTree = s.topicTree
  created : s'.created = s.created
  sessions : ∀ id, Option.Rel SameButMid (s.sessions id) (s'.sessions id)

theorem SameButMid.refl (session : MqttSession) : SameButMid session session := ⟨session.mid, rfl⟩

theorem rel_sameButMid_refl (x : Option MqttSession) : Option.Rel SameButMid x x := by
  cases x with
  | none => exact .none
  | some session => exact .some (.refl session)

theorem rel_sameButMid_trans {x y z : Option MqttSession} (h : Option.Rel SameButMid x y)
    (h' : Option.Rel SameButMid y z) : Option.Rel SameButMid x z := by
  cases h with
  | none => exact h'
  | some hxy =>
    cases h' with
    | some hyz =>
      obtain ⟨mid, rfl⟩ := hxy
      obtain ⟨mid', rfl⟩ := hyz
      exact .some ⟨mid', rfl⟩

theorem Sends.refl (s : MqttServer) : Sends s s [] :=
  ⟨(append_nil _).symm, rfl, rfl, fun _ => rel_sameButMid_refl _⟩

theorem Sends.trans (h : Sends s s' l) (h' : Sends s' s'' l') : Sends s s'' (l ++ l') := by
  refine ⟨by rw [h'.log, h.log, append_assoc], h'.topicTree.trans h.topicTree, h'.created.trans h.created, ?_⟩
  exact fun id => rel_sameButMid_trans (h.sessions id) (h'.sessions id)

theorem Sends.map_sessions {α : Type} (h : Sends s s' l) (f : MqttSession → α)
    (hf : ∀ session mid, f { session with mid } = f session) (id : SessionId) :
    (s'.sessions id).map f = (s.sessions id).map f := by
  have hrel := h.sessions id
  generalize s.sessions id = x at hrel ⊢
  generalize s'.sessions id = y at hrel ⊢
  cases hrel with
  | none => rfl
  | some hmid =>
    obtain ⟨mid, rfl⟩ := hmid
    exact congrArg some (hf _ mid)

theorem isOpen_eq (s : MqttServer) (id : SessionId) :
    s.isOpen id = ((s.sessions id).map fun session => session.tcp || session.ws).getD false := by
  unfold isOpen
  cases s.sessions id <;> rfl

theorem Sends.isOpen (h : Sends s s' l) (id : SessionId) : s'.isOpen id = s.isOpen id := by
  rw [isOpen_eq, isOpen_eq, h.map_sessions _ fun _ _ => rfl]

theorem Sends.live (h : Sends s s' l) : s'.live = s.live := by
  funext id
  simpa [MqttServer.live] using congrArg Option.isSome (h.map_sessions (fun _ => ()) (fun _ _ => rfl) id)

theorem live_modifySession (s : MqttServer) (id : SessionId) (f : MqttSession → MqttSession) :
    (s.modifySession id f).live = s.live := by
  funext id'
  by_cases hid : id' = id
  · simp [modifySession, live, hid]
  · simp [modifySession, live, hid]

theorem sends_write (s : MqttServer) (id : SessionId) (bytes : List UInt8) :
    Sends s (sessionWrite s id bytes) (if s.isOpen id then [.write id bytes] else []) := by
  unfold sessionWrite isOpen
  cases s.sessions id with
  | none => exact .refl s
  | some session =>
    dsimp only
    split_ifs
    · exact ⟨rfl, rfl, rfl, fun _ => rel_sameButMid_refl _⟩
    · exact .refl s

theorem sends_output (s : MqttServer) (o : Output) : Sends s (s.output o) [o] :=
  ⟨rfl, rfl, rfl, fun _ => rel_sameButMid_refl _⟩

theorem sends_modifyMid (s : MqttServer) (id : SessionId) (f : MqttSession → Nat) :
    Sends s (s.modifySession id fun session => { session with mid := f session }) [] := by
  refine ⟨(append_nil _).symm, rfl, rfl, ?_⟩
  intro id'
  by_cases hid : id' = id
  · subst hid
    show Option.Rel SameButMid _ (update s.sessions id' _ id')
    rw [update_self]
    cases s.sessions id' with
    | none => exact .none
    | some session => exact .some ⟨_, rfl⟩
  · show Option.Rel SameButMid _ (update s.sessions id _ id')
    rw [update_of_ne hid]
    exact rel_sameButMid_refl _

theorem sends_writes (s : MqttServer) (id : SessionId) (head data : List UInt8) :
    Sends s (if data.length ≠ 0 then sessionWrite (sessionWrite s id head) id data else sessionWrite s id head)
      (if s.isOpen id then .write id head :: if data ≠ [] then [.write id data] else [] else []) := by
  have hhead := sends_write s id head
  by_cases hdata : data = []
  · subst hdata
    simpa using hhead
  · have hlen : data.length ≠ 0 := by simpa using hdata
    rw [if_pos hlen]
    have hboth := hhead.trans (sends_write _ id data)
    rw [hhead.isOpen] at hboth
    by_cases hopen : s.isOpen id
    · simpa [hopen, hdata] using hboth
    · simpa [hopen] using hboth

theorem sends_send (s : MqttServer) (id : SessionId) (type : MqttType) (data : List UInt8) :
    Sends s (sessionSend s id type data) (if s.isOpen id then
      .write id (mqttHeadPack { type, length := data.length }) ::
        if data ≠ [] then [.write id data] else [] else []) := sends_writes s id _ data

/-- A copy of a message on its way to a session. -/
structure Copy where
  session : SessionId
  head : List UInt8
  message : MqttMessage

/-- A header, and the payload if there is one. -/
def Copy.writes (copy : Copy) : List Output :=
  .write copy.session copy.head ::
    if copy.message.payload ≠ [] then [.write copy.session copy.message.payload] else []

theorem sends_publish (s : MqttServer) (id : SessionId) (msg : MqttMessage)
    (hsession : s.sessions id = some session) : Sends s (sessionPublish s id msg) (if s.isOpen id then
      Copy.writes { session := id, head := publishHead session msg, message := msg } else []) := by
  have hmid := sends_modifyMid s id fun session =>
    if msg.qos % 4 ≠ 0 then (session.mid + 1) % 2 ^ 16 else session.mid
  have hboth := hmid.trans (sends_writes _ id (publishHead session msg) msg.payload)
  rw [hmid.isOpen, nil_append] at hboth
  unfold sessionPublish
  rw [hsession]
  exact hboth

/-- The headers of the copies only depend on the state in the packet identifiers. -/
def HeadsFrom (s : MqttServer) (copies : List Copy) : Prop :=
  ∀ c ∈ copies, ∃ session, Option.Rel SameButMid (s.sessions c.session) (some session) ∧
    c.head = publishHead session c.message

/-- Several messages are published one after another: there is a copy for each session with a channel. -/
theorem sends_publishAll (ms : List (SessionId × MqttMessage)) : ∀ s : MqttServer, ∃ copies : List Copy,
    Sends s (ms.foldl (fun s m => sessionPublish s m.1 m.2) s) (copies.flatMap Copy.writes) ∧
      copies.map (fun c => (c.session, c.message)) = ms.filter (fun m => s.isOpen m.1) ∧ HeadsFrom s copies := by
  induction ms with
  | nil =>
    intro s
    exact ⟨[], .refl s, rfl, by simp [HeadsFrom]⟩
  | cons m ms ih =>
    intro s
    obtain ⟨copies, hsends, hcopies, hheads⟩ := ih (sessionPublish s m.1 m.2)
    rw [foldl_cons]
    cases hsession : s.sessions m.1 with
    | none =>
      -- a session that has ended gets nothing
      have hnothing : sessionPublish s m.1 m.2 = s := by
        rw [sessionPublish, hsession]
      have hclosed : s.isOpen m.1 = false := by
        rw [isOpen, hsession]
      rw [hnothing] at hsends hcopies hheads ⊢
      refine ⟨copies, hsends, ?_, hheads⟩
      rw [hcopies, filter_cons_of_neg (by simp [hclosed])]
    | some session =>
      have hfirst := sends_publish s m.1 m.2 hsession
      -- the sessions of the later copies are those of the state before, up to their identifiers
      have hheads' : HeadsFrom s copies := by
        intro c hc
        obtain ⟨session', hrel, hhead⟩ := hheads c hc
        exact ⟨session', rel_sameButMid_trans (hfirst.sessions c.session) hrel, hhead⟩
      have hfilter : ms.filter (fun m' => (sessionPublish s m.1 m.2).isOpen m'.1) =
          ms.filter fun m' => s.isOpen m'.1 := by
        congr 1
        funext m'
        exact hfirst.isOpen m'.1
      rw [hfilter] at hcopies
      by_cases hopen : s.isOpen m.1
      · rw [if_pos hopen] at hfirst
        refine ⟨⟨m.1, publishHead session m.2, m.2⟩ :: copies, hfirst.trans hsends, ?_, ?_⟩
        · rw [map_cons, hcopies, filter_cons, if_pos hopen]
        · intro c hc
          rcases mem_cons.1 hc with rfl | hc
          · exact ⟨session, by rw [hsession]; exact .some (.refl session), rfl⟩
          · exact hheads' c hc
      · rw [if_neg hopen] at hfirst
        refine ⟨copies, hfirst.trans hsends, ?_, hheads'⟩
        rw [hcopies, filter_cons, if_neg hopen]

theorem sends_serverPublish (s : MqttServer) (msg : MqttMessage) : ∃ copies : List Copy,
    Sends s (serverPublish s msg) (copies.flatMap Copy.writes) ∧
      copies.map Copy.session = ((getSubscribers s.live msg.topic s.topicTree).map
        SubscriptionInfo.session).filter s.isOpen ∧
      ∀ c ∈ copies, c.message = msg ∧ ∃ session, c.head = publishHead session msg := by
  obtain ⟨copies, hsends, hcopies, hheads⟩ := sends_publishAll
    ((getSubscribers s.live msg.topic s.topicTree).map fun sub => (sub.session, msg)) s
  rw [foldl_map] at hsends
  have hmessage : ∀ c ∈ copies, c.message = msg := by
    intro c hc
    have hmem : (c.session, c.message) ∈ copies.map fun c => (c.session, c.message) :=
      mem_map_of_mem hc
    rw [hcopies] at hmem
    obtain ⟨sub, -, heq⟩ := mem_map.1 (mem_of_mem_filter hmem)
    exact (Prod.mk.inj heq).2.symm
  refine ⟨copies, hsends, ?_, ?_⟩
  · have hsessions := congrArg (map Prod.fst) hcopies
    rw [List.map_map, List.filter_map, List.map_map] at hsessions
    rw [List.filter_map]
    exact hsessions
  · intro c hc
    obtain ⟨session, -, hhead⟩ := hheads c hc
    rw [hmessage c hc] at hhead
    exact ⟨hmessage c hc, session, hhead⟩

theorem sends_sendAck (s : MqttServer) (id : SessionId) (version : Nat) (type : MqttType) (mid : Nat) :
    ∃ head rest, head.type = type ∧ Sends s (sessionSendAck s id version type mid)
      (if s.isOpen id then [.write id (mqttHeadPack head ++ rest)] else []) := by
  refine ⟨{
    type
    qos := if type = .pubrel then 1 else 0
    length := if version = mqttProtocolV5 then 4 else 2 },
    push16 mid ++ if version = mqttProtocolV5 then [0, 0] else [], rfl, ?_⟩
  rw [← append_assoc]
  exact sends_write s id _

/-- At most one packet for `id`, which is no PUBLISH. -/
def AtMostAck (id : SessionId) (acks : List Output) : Prop :=
  acks = [] ∨ ∃ head rest, acks = [.write id (mqttHeadPack head ++ rest)] ∧ head.type ≠ .publish

theorem sends_ackPublish (s : MqttServer) (id : SessionId) (version qos mid : Nat) : ∃ acks,
    Sends s (ackPublish s id version qos mid) acks ∧ AtMostAck id acks := by
  have hack : ∀ type, type ≠ MqttType.publish →
      ∃ acks, Sends s (sessionSendAck s id version type mid) acks ∧ AtMostAck id acks := by
    intro type htype
    obtain ⟨head, rest, rfl, hsends⟩ := sends_sendAck s id version type mid
    refine ⟨_, hsends, ?_⟩
    split_ifs
    · exact .inr ⟨head, rest, rfl, htype⟩
    · exact .inl rfl
  unfold ackPublish
  split_ifs
  · exact hack .puback (by decide)
  · exact hack .pubrec (by decide)
  · exact ⟨[], .refl s, .inl rfl⟩

theorem topicTree_send (s : MqttServer) (id : SessionId) (type : MqttType) (data : List UInt8) :
    (sessionSend s id type data).topicTree = s.topicTree := (sends_send s id type data).topicTree

theorem topicTree_serverPublish (s : MqttServer) (msg : MqttMessage) :
    (serverPublish s msg).topicTree = s.topicTree := by
  obtain ⟨copies, hsends, -⟩ := sends_serverPublish s msg
  exact hsends.topicTree

/-- The copy of a retained message, as `sendRetained` publishes it. -/
def retainedCopy (qos : Nat) (uninit : StdString) (retained : StdString × RetainedMessage) : MqttMessage where
  topic := retained.1
  payload := retained.2.payload
  qos := min qos retained.2.qos
  retain := true
  prop := uninit

theorem sends_sendRetained (s : MqttServer) (id : SessionId) (topic : StdString) (qos : Nat)
    (uninit : StdString) : ∃ copies : List Copy,
    Sends s (sendRetained s id topic qos uninit) (copies.flatMap Copy.writes) ∧
      copies.map (fun c => (c.session, c.message)) =
        ((getRetainedMessages topic s.topicTree).map fun retained => (id, retainedCopy qos uninit retained)).filter
          (fun m => s.isOpen m.1) ∧ HeadsFrom s copies := by
  have hall := sends_publishAll
    ((getRetainedMessages topic s.topicTree).map fun retained => (id, retainedCopy qos uninit retained)) s
  rw [foldl_map] at hall
  exact hall

/-! ## The bytes on a channel -/

/-- The outputs of the server since it was in the state `s`. -/
def outputsSince (s s' : MqttServer) : List Output := s'.log.drop s.log.length

theorem outputsSince_eq {l : List Output} (h : s'.log = s.log ++ l) : outputsSince s s' = l := by
  rw [outputsSince, h, drop_left]

/-- The bytes that are written on the channel of a session. -/
def streamTo (id : SessionId) (outputs : List Output) : List UInt8 :=
  outputs.flatMap fun
    | .write id' bytes => if id' = id then bytes else []
    | _ => []

theorem streamTo_append (id : SessionId) (l l' : List Output) :
    streamTo id (l ++ l') = streamTo id l ++ streamTo id l' := flatMap_append

/-! ## The topic tree -/

theorem onPublishPacket_accepted {session : MqttSession} {packet : Packet} (haccepted : PublishAccepted packet)
    (hs : onPublishPacket s id session packet.head packet.mem packet.p = some s') :
    ∃ prop p mid, parseProp session.version packet.mem (publishPropAt packet) = some (prop, p) ∧
      s' = (serverPublish (storeRetained (ackPublish s id session.version packet.head.qos.val mid)
        (popStr packet.mem packet.p).1 packet.head packet.mem (packet.p + packet.head.length)
        (publishPayloadLen packet p)) (publishMessage packet prop p)).output
          (.onPublish id (publishMessage packet prop p)) := by
  rw [onPublishPacket_eq haccepted] at hs
  obtain ⟨⟨prop, p⟩, hprop, rfl⟩ := map_eq_some_iff.1 hs
  exact ⟨prop, p, _, hprop, rfl⟩

theorem onPublishPacket_rejected (h : ¬ PublishAccepted packet)
    (hs : onPublishPacket s id session packet.head packet.mem packet.p = some s') : s' = sessionClose s id := by
  rw [onPublishPacket_of_not_accepted h] at hs
  exact (some.inj hs).symm

/-- The calls of the tree that the server makes; only a PUBLISH packet sets a retained message. -/
def ServerCall (publish : Bool) : TreeAct → Prop
  | .subscribe _ sub => sub.isShared = false ∧ sub.shareName = []
  | .unsubscribe _ _ shareName => shareName = []
  | .setRetained _ _ _ _ => publish
  | .expired _ => True
  | _ => False

/-- The tree is the result of a call for a session that is alive. -/
def TreeCalled (publish : Bool) (s s' : MqttServer) : Prop :=
  ∃ act, ServerCall publish act ∧ act.callable s.live ∧
    s'.topicTree = (treeCall s.live s.topicTree act).1

theorem TreeCalled.of_same (h : s'.topicTree = s.topicTree) : TreeCalled publish s s' :=
  ⟨.expired 0, trivial, rfl, h⟩

/-- What a SUBSCRIBE packet with a body does: the SUBACK packet and the callback, and then the rest in the
    state `sent`. -/
theorem onSubscribePacket_accepted {uninit : StdString} (hlen : head.length > 1)
    (hs : onSubscribePacket s id session head mem p uninit = some s') :
    ∃ prop p' data sent, parseProp session.version mem (p + 2) = some (prop, p') ∧ data.length ≤ 4 ∧
      Sends s sent ((if s.isOpen id then [.write id (mqttHeadPack { type := .suback, length := data.length }),
        .write id data] else []) ++ [.onSubscribe id {
          topic := (popStr mem p').1, payload := [], qos := (mem (popStr mem p').2).toNat, retain := false,
          prop := [] }]) ∧
      s' = sendRetained (subscribeSession sent id (popStr mem p').1 (mem (popStr mem p').2).toNat) id
        (popStr mem p').1 (mem (popStr mem p').2).toNat uninit := by
  unfold onSubscribePacket at hs
  rw [if_pos hlen] at hs
  obtain ⟨⟨prop, p'⟩, hprop, rfl⟩ := map_eq_some_iff.1 hs
  have hsuback := sends_send s id .suback (push16 (pop16 mem p).1 ++ mem (popStr mem p').2 ::
    if session.version = mqttProtocolV5 then [0] else [])
  refine ⟨prop, p', _, _, hprop, ?_, hsuback.trans (sends_output _ _), rfl⟩
  split_ifs <;> simp [push16]

theorem topicTree_connect
    (hs : onConnect onAuth s id session head mem p = some s') : s'.topicTree = s.topicTree := by
  obtain ⟨⟨session', conn⟩, -, rfl⟩ := map_eq_some_iff.1 hs
  cases conn with
  | none => rfl
  | some conn => exact topicTree_send _ _ _ _

theorem topicTree_closeSession (s : MqttServer) (id : SessionId) : (closeSession s id).topicTree = s.topicTree := by
  unfold closeSession
  cases s.sessions id with
  | none => rfl
  | some session =>
    dsimp only
    split_ifs
    · exact topicTree_serverPublish _ _
    · rfl

/-- The call of the tree that an operation makes. -/
def Operation.treeAct : Operation → Option TreeAct
  | .call act => some act
  | _ => none

theorem topicTree_operation (s : MqttServer) (id : SessionId) (op : Operation) :
    (op.run id s).live = s.live ∧ (op.run id s).topicTree =
      op.treeAct.elim s.topicTree fun act => (treeCall s.live s.topicTree act).1 := by
  have hsends : ∀ {s' l}, Sends s s' l → s'.live = s.live ∧ s'.topicTree = s.topicTree :=
    fun h => ⟨h.live, h.topicTree⟩
  cases op with
  | send type data => exact hsends (sends_send s id type data)
  | sendAck version type mid =>
    obtain ⟨head, rest, -, hack⟩ := sends_sendAck s id version type mid
    exact hsends hack
  | close => exact ⟨live_modifySession s id _, rfl⟩
  | onPublish | onSubscribe | onUnsubscribe | call => exact ⟨rfl, rfl⟩
  | publish msg =>
    obtain ⟨copies, hcopies, -⟩ := sends_serverPublish s msg
    exact hsends hcopies
  | sendRetained topic qos uninit =>
    obtain ⟨copies, hcopies, -⟩ := sends_sendRetained s id topic qos uninit
    exact hsends hcopies

theorem topicTree_operations (id : SessionId) (ops : List Operation) : ∀ s : MqttServer,
    (ops.foldl (run id) s).topicTree = (ops.filterMap treeAct).foldl
      (fun tree act => (treeCall s.live tree act).1) s.topicTree := by
  induction ops with
  | nil => exact fun _ => rfl
  | cons op ops ih =>
    intro s
    obtain ⟨hlive, htree⟩ := topicTree_operation s id op
    rw [foldl_cons, ih, hlive, htree]
    cases hact : op.treeAct with
    | none | some => simp [hact]

theorem treeActs_handlerOps {ops : List Operation}
    (hops : handlerOps id session packet = some ops) : ops.filterMap treeAct = [] ∨
      ∃ act, ops.filterMap treeAct = [act] ∧ ServerCall (packet.head.type = .publish) act ∧
        ∀ live : SessionId → Bool, live id → act.callable live := by
  unfold handlerOps at hops
  dsimp only at hops
  split at hops
  next htype =>
    split_ifs at hops
    · obtain ⟨⟨prop, p⟩, -, rfl⟩ := map_eq_some_iff.1 hops
      unfold publishOps
      split_ifs
      all_goals first | exact .inl rfl | exact .inr ⟨_, rfl, by simp [ServerCall, htype], fun _ _ => rfl⟩
    · cases hops
      exact .inl rfl
  iterate 4
    cases hops
    unfold ackOps
    split_ifs <;> exact .inl rfl
  iterate 2
    split_ifs at hops
    · obtain ⟨⟨prop, p⟩, -, rfl⟩ := map_eq_some_iff.1 hops
      exact .inr ⟨_, rfl, by simp [ServerCall], fun _ h => h⟩
    · cases hops
      exact .inl rfl
  all_goals
    cases hops
    exact .inl rfl

theorem treeCalled_packet
    (hs : onMqttMessage onAuth s id packet = some s') : TreeCalled (packet.head.type = .publish) s s' := by
  obtain ⟨session, hsession⟩ := exists_session hs
  by_cases htype : packet.head.type = .connect
  · simp only [onMqttMessage, hsession, htype] at hs
    exact .of_same (topicTree_connect hs)
  · rw [onMqttMessage_eq hsession htype] at hs
    obtain ⟨ops, hops, rfl⟩ := map_eq_some_iff.1 hs
    have htree := topicTree_operations id ops s
    rcases treeActs_handlerOps hops with hnone | ⟨act, hact, hcall, hcallable⟩
    · rw [hnone] at htree
      exact .of_same htree
    · rw [hact] at htree
      exact ⟨act, hcall, hcallable s.live (by simp [live, hsession]), htree⟩

def ServerAct.isPublish : ServerAct → Bool
  | .packet _ received => received.head.type = .publish
  | _ => false

theorem topicTree_step {act : ServerAct} (hs : serverStep onAuth s act = some s') :
    TreeCalled act.isPublish s s' := by
  cases act <;> rw [serverStep] at hs
  case packet id packet => exact treeCalled_packet hs
  case publish msg =>
    rw [← some.inj hs]
    exact .of_same (topicTree_serverPublish s msg)
  case disconnected id =>
    rw [← some.inj hs]
    exact .of_same (topicTree_closeSession s id)
  case connected ws =>
    rw [← some.inj hs]
    exact .of_same rfl
  case expired id =>
    rw [← some.inj hs]
    exact .of_same rfl

theorem ServerCall.defaultArgs (h : ServerCall publish act) : DefaultArgs {} act := by
  cases act with
  | subscribe | unsubscribe => exact h
  | _ => trivial

theorem TreeCalled.retainedAt (h : TreeCalled false s s') (path : List StdString) :
    retainedAt path s'.topicTree = retainedAt path s.topicTree := by
  obtain ⟨act, hcall, -, htree⟩ := h
  rw [htree]
  cases act with
  | subscribe f sub => exact retainedAt_subscribe s.live path s.topicTree f sub
  | unsubscribe f session shareName => exact retainedAt_unsubscribe s.live path s.topicTree f session shareName
  | setRetained topic payload qos dup => exact absurd hcall (by simp [ServerCall])
  | clearRetained | cleanExpired => exact hcall.elim
  | expired session => rfl

/-- What holds of the tree in every run of the server. -/
structure ServerTree (root : TopicNode) : Prop where
  hashLast : EntriesHashLast root
  plain : ∀ path, ∀ sub ∈ entriesAt path root, sub.isShared = false

theorem plain_call {live : SessionId → Bool} {root : TopicNode} (hargs : DefaultArgs {} act)
    (hcall : act.callable live) (h : ∀ path, ∀ sub ∈ entriesAt path root, sub.isShared = false) :
    ∀ path, ∀ sub ∈ entriesAt path (treeCall live root act).1, sub.isShared = false := by
  intro path sub hsub
  rcases entriesAt_call live root act path with ⟨f, new, rfl, -, -, -, hentries⟩ | hsublist
  · rw [hentries, subscribeEntries_eq hcall, mem_append, mem_singleton] at hsub
    rcases hsub with hsub | rfl
    · exact h path sub (mem_of_mem_kept hsub)
    · exact hargs.1
  · exact h path sub (hsublist.subset hsub)

theorem serverTree_of_reachable (h : Reachable (serverStep onAuth) Always (· = {}) s) : ServerTree s.topicTree := by
  apply h.invariant (I := fun s => ServerTree s.topicTree)
  · rintro s rfl
    refine ⟨entriesHashLast_new _, ?_⟩
    intro path sub hsub
    exact absurd (subscribersField.valueAt_new [separator] path) (ne_nil_of_mem hsub)
  · intro s act s' hs _ hstep
    obtain ⟨tact, hargs, hcall, htree⟩ := topicTree_step hstep
    rw [htree]
    exact ⟨hs.hashLast.call tact, plain_call hargs.defaultArgs hcall hs.plain⟩

/-! ## The QoS of a copy -/

/-- The QoS in a fixed header. -/
def packetQos (bytes : List UInt8) : Nat :=
  (mqttHeadUnpack ((PacketMem.ofList bytes).ptr 0) bytes.length).1.qos.val

theorem packetQos_headPack (head : MqttHead) (rest : List UInt8) :
    packetQos (mqttHeadPack head ++ rest) = head.qos.val := by
  have hretain := head.retain.toNat_le
  show (UInt8.ofNat (head.type.code * 16 + head.dup.toNat * 8 + head.qos * 2 +
      head.retain.toNat)).toNat / 2 % 4 = head.qos.val
  rw [headByte_toNat]
  omega

theorem packetQos_publishHead (session : MqttSession) {msg : MqttMessage} (hqos : msg.qos < 4) :
    packetQos (publishHead session msg) = msg.qos := by
  unfold publishHead
  rw [append_assoc, append_assoc, append_assoc, packetQos_headPack]
  exact Nat.mod_eq_of_lt hqos

/-- The session has a subscription with the QoS to a filter that matches the topic. -/
def MatchingQos (id : SessionId) (topic : StdString) (qos : Nat) : Prop :=
  ∃ filter sub, isWildcardMatch filter (splitTopic topic) ∧
    sub ∈ entriesAt filter server.topicTree ∧ sub.session = id ∧ sub.qos = qos

/-- The largest QoS of the subscriptions of a session that match the topic. -/
def IsMaxQos (id : SessionId) (topic : StdString) (qos : Nat) : Prop :=
  MatchingQos server id topic qos ∧ ∀ qos', MatchingQos server id topic qos' → qos' ≤ qos

theorem matchingQos_iff_collected (h : ServerTree s.topicTree) {q : Nat} :
    MatchingQos s id topic q ↔ ∃ sub ∈ collectSubscribers (splitTopic topic) s.topicTree,
      sub.session = id ∧ sub.qos = q := by
  simp only [mem_collectSubscribers _ h.hashLast]
  constructor
  · rintro ⟨path, sub, hmatch, hsub, hsession, rfl⟩
    exact ⟨sub, ⟨path, hmatch, hsub, h.plain path sub hsub⟩, hsession, rfl⟩
  · rintro ⟨sub, ⟨path, hmatch, hsub, -⟩, hsession, rfl⟩
    exact ⟨path, sub, hmatch, hsub, hsession, rfl⟩

theorem exists_isMaxQos (h : ServerTree s.topicTree) {qos : Nat}
    (hqos : MatchingQos s id topic qos) : ∃ m, IsMaxQos s id topic m := by
  have hmem : ∀ q, q ∈ ((collectSubscribers (splitTopic topic) s.topicTree).filter fun sub =>
      sub.session = id).map SubscriptionInfo.qos ↔ MatchingQos s id topic q := by
    intro q
    rw [matchingQos_iff_collected h]
    simp only [List.mem_map, mem_filter, decide_eq_true_eq, and_assoc]
  obtain ⟨m, hm⟩ := ne_none_iff_exists'.1
    (mt max?_eq_none_iff.1 (ne_nil_of_mem ((hmem qos).2 hqos)))
  rw [max?_eq_some_iff] at hm
  exact ⟨m, (hmem m).1 hm.1, fun q hq => hm.2 q ((hmem q).2 hq)⟩

theorem live_of_isOpen (h : s.isOpen id) : s.live id := by
  unfold isOpen at h
  unfold live
  cases hsession : s.sessions id with
  | none =>
    rw [hsession] at h
    simp at h
  | some session => rfl

theorem storeRetained_eq (s : MqttServer) (topic : StdString) (head : MqttHead) (mem : PacketMem) (pend : Int)
    (payloadLen : Nat) : ∃ root, storeRetained s topic head mem pend payloadLen = { s with topicTree := root } ∧
      ∀ path, entriesAt path root = entriesAt path s.topicTree := by
  unfold storeRetained
  split
  · exact ⟨_, rfl, fun path => entriesAt_setRetainedMessage path _ _ _ _ _⟩
  · exact ⟨s.topicTree, rfl, fun path => rfl⟩

theorem exists_copy_iff (htree : ServerTree s.topicTree) {t : MqttServer} (hlive : t.live = s.live)
    (hentries : ∀ path, entriesAt path t.topicTree = entriesAt path s.topicTree)
    {id' : SessionId} (hopen : s.isOpen id') :
    id' ∈ (getSubscribers t.live topic t.topicTree).map SubscriptionInfo.session ↔
      isValidTopic topic false ∧ ∃ q, MatchingQos s id' topic q := by
  rw [List.mem_map]
  by_cases hvalid : isValidTopic topic false
  · have hlast : EntriesHashLast t.topicTree := by
      intro path hpath
      rw [hentries] at hpath
      exact htree.hashLast path hpath
    rw [hlive, exists_getSubscribers hlast hvalid (live_of_isOpen hopen)]
    simp only [hvalid, true_and, hentries]
    constructor
    · rintro ⟨path, hmatch, sub, hsub, -, hsession⟩
      exact ⟨sub.qos, path, sub, hmatch, hsub, hsession, rfl⟩
    · rintro ⟨q, path, sub, hmatch, hsub, hsession, rfl⟩
      exact ⟨path, hmatch, sub, hsub, htree.plain path sub hsub, hsession⟩
  · simp [getSubscribers, hvalid]

/-- The copies that an accepted PUBLISH packet causes: one for each session with a channel that has a
    matching subscription. -/
theorem publish_copies (htree : ServerTree s.topicTree)
    (htype : packet.head.type = .publish) (haccepted : PublishAccepted packet)
    (hs : serverStep onAuth s (.packet id packet) = some s') :
    ∃ (acks : List Output) (copies : List Copy) (message : MqttMessage),
      s'.log = s.log ++ acks ++ copies.flatMap Copy.writes ++ [.onPublish id message] ∧
      AtMostAck id acks ∧ message.topic = (popStr packet.mem packet.p).1 ∧ message.qos = packet.head.qos.val ∧
      (∀ c ∈ copies, c.message = message ∧ ∃ session, c.head = publishHead session message) ∧
      ∀ id', (∃ c ∈ copies, c.session = id') ↔ s.isOpen id' ∧
        isValidTopic message.topic false ∧ ∃ q, MatchingQos s id' message.topic q := by
  rw [serverStep] at hs
  obtain ⟨session, hsession⟩ := exists_session hs
  simp only [onMqttMessage, hsession, htype] at hs
  obtain ⟨head, mem, p, uninit⟩ := packet
  obtain ⟨prop, p', mid, -, rfl⟩ :=
    @onPublishPacket_accepted s s' id session ⟨head, mem, p, uninit⟩ haccepted hs
  obtain ⟨acks, hacks, hack⟩ := sends_ackPublish s id session.version head.qos.val mid
  obtain ⟨root, hstore, hentries⟩ := storeRetained_eq (ackPublish s id session.version head.qos.val mid)
    (popStr mem p).1 head mem (p + head.length) (publishPayloadLen ⟨head, mem, p, uninit⟩ p')
  obtain ⟨copies, hcopies, hsessions, hheads⟩ := sends_serverPublish
    { ackPublish s id session.version head.qos.val mid with topicTree := root }
    (publishMessage ⟨head, mem, p, uninit⟩ prop p')
  refine ⟨acks, copies, publishMessage ⟨head, mem, p, uninit⟩ prop p', ?_, hack, rfl, rfl, hheads, ?_⟩
  · rw [hstore, output, hcopies.log, hacks.log]
  · intro id'
    rw [← List.mem_map, hsessions, mem_filter, and_comm]
    refine (and_congr_left' (iff_of_eq (congrArg (· = true) (hacks.isOpen id')))).trans ?_
    refine and_congr_right fun hopen' => ?_
    exact exists_copy_iff htree (t := { ackPublish s id session.version head.qos.val mid with topicTree := root })
      hacks.live (fun path => (hentries path).trans (by rw [hacks.topicTree])) hopen'

/-- A packet as it comes over the wire. -/
def wirePacket (bytes : List UInt8) : Packet :=
  let (head, headlen) := mqttHeadUnpack ((PacketMem.ofList bytes).ptr 0) bytes.length
  { head, mem := .ofList bytes, p := headlen }

/-- Session 0 subscribes to `a` with the given QoS. -/
def subscribedToA (qos : UInt8) : List ServerAct :=
  [.connected false, .packet 0 (wirePacket [0x82, 6, 0, 1, 0, 1, 97, qos])]

/-- PUBLISH to `a` with QoS 1 and the payload `x`. -/
def publishToA : Packet := wirePacket [0x32, 6, 0, 1, 97, 0, 7, 120]

end HvVerified.Mqtt
