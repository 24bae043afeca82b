import HvVerified.Mqtt.Proofs.DeliveryProofs

/-!
# Proofs: requests without authorization

The answer of `onAuth` is written into the CONNACK packet and kept nowhere, so that every PUBLISH, SUBSCRIBE
and UNSUBSCRIBE packet is served. The history `AuthWorld` says which of them came on a session whose CONNECT
was accepted; the others do nothing only if there is nothing to do (`Idle`).
-/

namespace HvVerified.Mqtt

open Base Lib List Option MqttServer

variable {s s' : MqttServer} {id : SessionId} {session : MqttSession} {packet : Packet} {l l' : List Output}
  {onAuth : OnAuth}

/-! ## The effect of a request -/

/-- PUBLISH, SUBSCRIBE and UNSUBSCRIBE packets. -/
def Packet.IsRequest (packet : Packet) : Prop :=
  packet.head.type = .publish ∨ packet.head.type = .subscribe ∨ packet.head.type = .unsubscribe

instance : DecidablePred Packet.IsRequest := fun _ => inferInstanceAs (Decidable (_ ∨ _))

/-- Something is written to a session. -/
def Writes (outputs : List Output) : Prop := ∃ id bytes, .write id bytes ∈ outputs

/-- From `s` to `s'` the topic tree has changed or something was written to a session. -/
def Effective (s s' : MqttServer) : Prop :=
  s'.topicTree ≠ s.topicTree ∨ Writes (outputsSince s s')

/-- There is nothing to do for a request: it is malformed; or its session cannot be answered, the topic tree
    already is as the request wants it, and there is no subscriber with a channel for a PUBLISH packet. A
    PUBLISH packet is answered if its QoS is 1 or 2. -/
def Idle (server : MqttServer) (id : SessionId) (packet : Packet) : Prop :=
  let { head, mem, p, uninit := _ } := packet
  ∀ session, server.sessions id = some session →
    match head.type with
    | .publish => PublishAccepted packet →
        ¬ (server.isOpen id ∧ (head.qos.val = 1 ∨ head.qos.val = 2)) ∧
        (∀ r, parseProp session.version mem (publishPropAt packet) = some r →
          (storeRetained server (popStr mem p).1 head mem (p + head.length)
            (publishPayloadLen packet r.2)).topicTree = server.topicTree) ∧
        ∀ sub ∈ getSubscribers server.live (popStr mem p).1 server.topicTree, ¬ server.isOpen sub.session
    | .subscribe => head.length > 1 → ¬ server.isOpen id ∧
        ∀ r, parseProp session.version mem (p + 2) = some r →
          (subscribeSession server id (popStr mem r.2).1 (mem (popStr mem r.2).2).toNat).topicTree = server.topicTree
    | .unsubscribe => head.length > 1 → ¬ server.isOpen id ∧
        ∀ r, parseProp session.version mem (p + 2) = some r →
          (unsubscribeSession server id (popStr mem r.2).1).topicTree = server.topicTree
    | _ => True

theorem writes_append : Writes (l ++ l') ↔ Writes l ∨ Writes l' := by
  simp only [Writes, mem_append, exists_or]

theorem writes_ite_iff {opened : Bool} (h : Writes l) : Writes (if opened then l else []) ↔ opened := by
  cases opened with
  | false => simp [Writes]
  | true => exact iff_of_true h rfl

theorem writes_answer_iff {opened : Bool} {o : Output} (h : Writes l) (ho : ¬ Writes [o]) :
    Writes ((if opened then l else []) ++ [o]) ↔ opened := by
  rw [writes_append, or_iff_left ho, writes_ite_iff h]

theorem effective_iff_of_log (h : s'.log = s.log ++ l) :
    Effective s s' ↔ s'.topicTree ≠ s.topicTree ∨ Writes l := by
  rw [Effective, outputsSince_eq h]

theorem not_effective_refl (s : MqttServer) : ¬ Effective s s := by
  rw [effective_iff_of_log (append_nil _).symm]
  simp [Writes]

theorem not_effective_sessionClose (s : MqttServer) (id : SessionId) : ¬ Effective s (sessionClose s id) := by
  have hlog : (sessionClose s id).log = s.log ++ [] := (append_nil _).symm
  rw [effective_iff_of_log hlog]
  simp [Writes, sessionClose, modifySession]

theorem writes_ackPublish (s : MqttServer) (id : SessionId) (version qos mid : Nat) : ∃ acks,
    Sends s (ackPublish s id version qos mid) acks ∧ (Writes acks ↔ s.isOpen id ∧ (qos = 1 ∨ qos = 2)) := by
  have hack : ∀ type, ∃ acks, Sends s (sessionSendAck s id version type mid) acks ∧ (Writes acks ↔ s.isOpen id) := by
    intro type
    obtain ⟨head, rest, -, hsends⟩ := sends_sendAck s id version type mid
    exact ⟨_, hsends, writes_ite_iff ⟨id, _, mem_singleton_self _⟩⟩
  unfold ackPublish
  split_ifs with h1 h2
  · simpa only [h1, true_or, and_true] using hack .puback
  · simpa only [h2, or_true, and_true] using hack .pubrec
  · exact ⟨[], .refl s, by simp [Writes, h1, h2]⟩

theorem writes_serverPublish (s : MqttServer) (msg : MqttMessage) : ∃ copies,
    Sends s (serverPublish s msg) copies ∧
      (Writes copies ↔ ∃ sub ∈ getSubscribers s.live msg.topic s.topicTree, s.isOpen sub.session) := by
  obtain ⟨copies, hsends, hcopies, -⟩ := sends_serverPublish s msg
  have hmem : ∀ id, id ∈ copies.map Copy.session ↔
      (∃ sub ∈ getSubscribers s.live msg.topic s.topicTree, sub.session = id) ∧ s.isOpen id := by
    intro id
    rw [hcopies, mem_filter, List.mem_map]
  refine ⟨_, hsends, ?_, ?_⟩
  · rintro ⟨id, bytes, hwrite⟩
    obtain ⟨copy, hcopy, -⟩ := mem_flatMap.1 hwrite
    obtain ⟨⟨sub, hsub, hid⟩, hopen⟩ := (hmem copy.session).1 (mem_map_of_mem hcopy)
    exact ⟨sub, hsub, hid ▸ hopen⟩
  · rintro ⟨sub, hsub, hopen⟩
    obtain ⟨copy, hcopy, -⟩ := List.mem_map.1 ((hmem sub.session).2 ⟨⟨sub, hsub, rfl⟩, hopen⟩)
    exact ⟨copy.session, copy.head, mem_flatMap.2 ⟨copy, hcopy, mem_cons_self⟩⟩

section

variable {t : MqttServer} (h : Sends s t l) (f : TopicNode → TopicNode)

include h

theorem effective_modifyTree : Effective s (t.modifyTree f) ↔ f s.topicTree ≠ s.topicTree ∨ Writes l := by
  have hlog : (t.modifyTree f).log = s.log ++ l := h.log
  rw [effective_iff_of_log hlog, modifyTree, h.topicTree]

/-- Answers, then a change of the tree, a message for the subscribers, and the callback. -/
theorem effective_serverPublish (msg : MqttMessage) :
    Effective s ((serverPublish (t.modifyTree f) msg).output (.onPublish id msg)) ↔
      f s.topicTree ≠ s.topicTree ∨ Writes l ∨
        ∃ sub ∈ getSubscribers s.live msg.topic s.topicTree, s.isOpen sub.session := by
  obtain ⟨copies, hcopies, hcopied⟩ := writes_serverPublish (t.modifyTree f) msg
  have hlog : ((serverPublish (t.modifyTree f) msg).output (.onPublish id msg)).log =
      s.log ++ (l ++ copies ++ [.onPublish id msg]) := by
    rw [output, hcopies.log, modifyTree, h.log, append_assoc, append_assoc, append_assoc]
  have htree : (t.modifyTree f).topicTree = f s.topicTree := congrArg f h.topicTree
  have hlive : (t.modifyTree f).live = s.live := h.live
  have hisOpen : (t.modifyTree f).isOpen = s.isOpen := funext h.isOpen
  rw [effective_iff_of_log hlog, output, hcopies.topicTree, htree, writes_append, writes_append,
    or_iff_left (show ¬ Writes [.onPublish id msg] by simp [Writes]), hcopied, hlive, hisOpen, htree]
  by_cases hsame : f s.topicTree = s.topicTree
  · rw [hsame]
  · simp only [hsame, not_false_eq_true, ne_eq, true_or]

/-- An answer to the session `id`, a change of the tree, and then the retained messages. -/
theorem effective_sendRetained (hopen : Writes l ↔ s.isOpen id) (topic : StdString) (qos : Nat) (uninit : StdString) :
    Effective s (sendRetained (t.modifyTree f) id topic qos uninit) ↔
      f s.topicTree ≠ s.topicTree ∨ s.isOpen id := by
  obtain ⟨copies, hcopies, hmessages, -⟩ := sends_sendRetained (t.modifyTree f) id topic qos uninit
  have hlog : (sendRetained (t.modifyTree f) id topic qos uninit).log = s.log ++ (l ++ copies.flatMap Copy.writes) := by
    rw [hcopies.log, modifyTree, h.log, append_assoc]
  rw [effective_iff_of_log hlog, hcopies.topicTree, writes_append, hopen]
  refine or_congr (not_congr (by rw [modifyTree, h.topicTree])) (or_iff_left_of_imp ?_)
  rintro ⟨id', bytes, hwrite⟩
  obtain ⟨copy, hcopy, -⟩ := mem_flatMap.1 hwrite
  have hmem := mem_map_of_mem (f := fun c : Copy => (c.session, c.message)) hcopy
  rw [hmessages, mem_filter] at hmem
  obtain ⟨retained, -, hretained⟩ := List.mem_map.1 hmem.1
  rw [← h.isOpen id, (Prod.mk.inj hretained).1]
  exact hmem.2

end

/-- The retained message of a PUBLISH packet changes nothing but the tree. -/
theorem storeRetained_modifyTree (topic : StdString) (head : MqttHead) (mem : PacketMem) (pend : Int) (payloadLen : Nat) :
    ∃ f : TopicNode → TopicNode, ∀ t : MqttServer, storeRetained t topic head mem pend payloadLen = t.modifyTree f := by
  by_cases hretain : retainBit mem
  · exact ⟨_, fun t => if_pos hretain⟩
  · exact ⟨fun tree => tree, fun t => if_neg hretain⟩

section Requests

variable (hsession : s.sessions id = some session)

include hsession

theorem effective_publish (htype : packet.head.type = .publish)
    (hs : onPublishPacket s id session packet.head packet.mem packet.p = some s') :
    Effective s s' ↔ ¬ Idle s id packet := by
  unfold Idle
  simp only [hsession, htype, Option.some.injEq, forall_eq']
  by_cases haccepted : PublishAccepted packet
  · obtain ⟨prop, p, mid, hprop, rfl⟩ := onPublishPacket_accepted haccepted hs
    obtain ⟨acks, hacks, hacked⟩ := writes_ackPublish s id session.version packet.head.qos.val mid
    obtain ⟨f, hstored⟩ := storeRetained_modifyTree (popStr packet.mem packet.p).1 packet.head packet.mem
      (packet.p + packet.head.length) (publishPayloadLen packet p)
    rw [hstored, effective_serverPublish hacks f, hacked]
    simp only [haccepted, hprop, true_imp_iff, Option.some.injEq, forall_eq', hstored]
    change _ ↔ ¬ (¬ (_ ∧ _) ∧ f s.topicTree = s.topicTree ∧
      ∀ sub ∈ getSubscribers s.live (publishMessage packet prop p).topic s.topicTree, _)
    rw [not_and_or, not_not, not_and_or, or_left_comm]
    simp only [not_forall, not_not, exists_prop, ne_eq]
  · rw [onPublishPacket_rejected haccepted hs]
    simp only [haccepted, false_imp_iff, not_true_eq_false, iff_false]
    exact not_effective_sessionClose s id

theorem effective_subscribe (htype : packet.head.type = .subscribe)
    (hs : onSubscribePacket s id session packet.head packet.mem packet.p packet.uninit = some s') :
    Effective s s' ↔ ¬ Idle s id packet := by
  unfold Idle
  simp only [hsession, htype, Option.some.injEq, forall_eq']
  by_cases hlen : packet.head.length > 1
  · obtain ⟨prop, p, data, sent, hprop, -, hsent, rfl⟩ := onSubscribePacket_accepted hlen hs
    rw [subscribeSession, effective_sendRetained hsent _
      (writes_answer_iff ⟨id, _, mem_cons_self⟩ (by simp [Writes])), hsent.live]
    simp only [hlen, hprop, true_imp_iff, Option.some.injEq, forall_eq', not_and_or, not_not]
    exact or_comm
  · rw [onSubscribePacket, if_neg hlen] at hs
    cases hs
    simp only [hlen, false_imp_iff, not_true_eq_false, iff_false]
    exact not_effective_refl s

theorem effective_unsubscribe (htype : packet.head.type = .unsubscribe)
    (hs : onUnsubscribePacket s id session packet.head packet.mem packet.p = some s') :
    Effective s s' ↔ ¬ Idle s id packet := by
  unfold Idle
  simp only [hsession, htype, Option.some.injEq, forall_eq']
  by_cases hlen : packet.head.length > 1
  · rw [onUnsubscribePacket, if_pos hlen] at hs
    obtain ⟨⟨prop, p⟩, hprop, rfl⟩ := map_eq_some_iff.1 hs
    obtain ⟨head, rest, -, hack⟩ := sends_sendAck s id session.version .unsuback (pop16 packet.mem packet.p).1
    have hsent := hack.trans (sends_output _ (.onUnsubscribe id {
      topic := (popStr packet.mem p).1, payload := [], qos := 0, retain := false, prop := [] }))
    have hprop' : parseProp session.version packet.mem (packet.p + 2) = some (prop, p) := hprop
    simp only [hlen, hprop', true_imp_iff, Option.some.injEq, forall_eq', not_and_or, not_not]
    have heff := effective_modifyTree hsent fun tree => (unsubscribe s.live (popStr packet.mem p).1 id [] tree).1
    rw [writes_answer_iff ⟨id, _, mem_cons_self⟩ (by simp [Writes]), or_comm] at heff
    refine Iff.trans ?_ heff
    rw [← hsent.live]
    rfl
  · rw [onUnsubscribePacket, if_neg hlen] at hs
    cases hs
    simp only [hlen, false_imp_iff, not_true_eq_false, iff_false]
    exact not_effective_refl s

end Requests

theorem effective_iff (hrequest : packet.IsRequest) (hs : onMqttMessage onAuth s id packet = some s') :
    Effective s s' ↔ ¬ Idle s id packet := by
  obtain ⟨session, hsession⟩ := exists_session hs
  unfold onMqttMessage at hs
  simp only [hsession] at hs
  rcases hrequest with htype | htype | htype
  · simp only [htype] at hs
    exact effective_publish hsession htype hs
  · simp only [htype] at hs
    exact effective_subscribe hsession htype hs
  · simp only [htype] at hs
    exact effective_unsubscribe hsession htype hs

/-! ## Runs -/

/-- A request in the history of the server: the states around it, and whether its session was authorized. -/
structure Request where
  before : MqttServer
  after : MqttServer
  id : SessionId
  packet : Packet
  authorized : Bool

/-- The server with the sessions that are authorized, and the requests so far. -/
structure AuthWorld where
  server : MqttServer := {}
  /-- A CONNECT of the session was accepted, and the session was not closed since. -/
  authorized : SessionId → Bool := fun _ => false
  requests : List Request := []

/-- `onAuth` is called for the packet, and accepts it. -/
def accepts (onAuth : OnAuth) (server : MqttServer) (id : SessionId) (packet : Packet) : Bool :=
  match packet.head.type, server.sessions id with
  | .connect, some session =>
    match readConnect session packet.head packet.mem packet.p with
    | some (session, some conn) => onAuth (server.modifySession id fun _ => session) id conn = .accepted
    | _ => false
  | _, _ => false

/-- The steps of the server, and `MqttSession::close` called by the application. -/
inductive AuthAct where
  | server (act : ServerAct)
  | close (id : SessionId)

/-- A session loses its authorization with a DISCONNECT packet and when it is closed, by the server for a malformed
    packet, by the application or by its client. -/
def authStep (onAuth : OnAuth) (world : AuthWorld) : AuthAct → Option AuthWorld
  | .close id => some { world with
      server := sessionClose world.server id
      authorized := Function.update world.authorized id false }
  | .server act => (serverStep onAuth world.server act).map fun server =>
    match act with
    | .packet id packet => {
        server
        authorized := Function.update world.authorized id (accepts onAuth world.server id packet ||
          world.authorized id && packet.head.type ≠ .disconnect && server.isOpen id)
        requests := if packet.IsRequest then
            world.requests ++ [⟨world.server, server, id, packet, world.authorized id⟩]
          else world.requests }
    | .disconnected id | .expired id => { world with
        server
        authorized := Function.update world.authorized id false }
    | .connected _ | .publish _ => { world with server }

/-- The request is one, and was handled between its two states. -/
def Request.Handled (onAuth : OnAuth) (r : Request) : Prop :=
  r.packet.IsRequest ∧ onMqttMessage onAuth r.before r.id r.packet = some r.after

theorem handled_step {w w' : AuthWorld} {act : AuthAct} (h : ∀ r ∈ w.requests, r.Handled onAuth)
    (hs : authStep onAuth w act = some w') : ∀ r ∈ w'.requests, r.Handled onAuth := by
  cases act with
  | close id =>
    cases hs
    exact h
  | server act =>
    obtain ⟨server, hserver, rfl⟩ := map_eq_some_iff.1 hs
    cases act with
    | packet id packet =>
      intro r hr
      by_cases hrequest : packet.IsRequest
      · simp only [if_pos hrequest] at hr
        rcases mem_append.1 hr with hr | hr
        · exact h r hr
        · rw [mem_singleton.1 hr]
          exact ⟨hrequest, hserver⟩
      · simp only [if_neg hrequest] at hr
        exact h r hr
    | connected | disconnected | expired | publish => exact h

def refuseAll : OnAuth := fun _ _ _ => .refusedNotAuthorized

end HvVerified.Mqtt
