import HvVerified.Mqtt.Proofs.RoundTripProofs

/-!
# Proofs: packets with several filters

The handlers of SUBSCRIBE and UNSUBSCRIBE packets read the first filter, and no other.
-/

namespace HvVerified.Mqtt

open Base Lib List MqttServer

variable {s s' : MqttServer} {id : SessionId} {session : MqttSession} {packet : Packet} {mid : Nat} {onAuth : OnAuth}
  {f : StdString}

/-- The session has an entry for the filter. -/
def SubscribedTo (s : MqttServer) (id : SessionId) (f : StdString) : Prop :=
  ∃ sub ∈ entriesAt (splitTopic f) s.topicTree, sub.session = id

/-- A filter that fits into a packet. -/
structure ValidFilter (f : StdString) : Prop where
  valid : isValidTopicFilter f
  hashLast : HashLast (splitTopic f)
  length : f.length < 2 ^ 16

/-- The packet has this type and this body. -/
structure Carries (packet : Packet) (type : MqttType) (body : List UInt8) : Prop where
  type : packet.head.type = type
  length : packet.head.length = body.length
  body : Holds packet.mem packet.p body

/-- The body of a SUBSCRIBE packet. -/
def subscribeBody (mid : Nat) (entries : List (StdString × UInt8)) : List UInt8 :=
  push16 mid ++ entries.flatMap fun entry => pushStr entry.1 ++ [entry.2]

/-- The body of an UNSUBSCRIBE packet. -/
def unsubscribeBody (mid : Nat) (filters : List StdString) : List UInt8 := push16 mid ++ filters.flatMap pushStr

/-- The SUBACK packet with the return codes is what the server sends first. -/
def SubackSent (s s' : MqttServer) (id : SessionId) (mid : Nat) (codes : List UInt8) : Prop :=
  ∃ outputs, s'.log = s.log ++ .write id (mqttHeadPack { type := .suback, length := 2 + codes.length }) ::
    .write id (push16 mid ++ codes) :: outputs

theorem SubackSent.unique {codes codes' : List UInt8} (h : SubackSent s s' id mid codes)
    (h' : SubackSent s s' id mid codes') : codes = codes' := by
  obtain ⟨outputs, hlog⟩ := h
  obtain ⟨outputs', hlog'⟩ := h'
  rw [hlog'] at hlog
  simpa using (cons.inj (cons.inj (append_cancel_left hlog)).2).1.symm

/-- The first filter of a packet, and what comes behind it. -/
theorem Carries.read {type : MqttType} {rest : List UInt8} (h : Carries packet type (push16 mid ++ (pushStr f ++ rest)))
    (hmid : mid < 2 ^ 16) (hlength : f.length < 2 ^ 16) :
    ∃ q, packet.head.length > 1 ∧ pop16 packet.mem packet.p = (mid, packet.p + 2) ∧
      popStr packet.mem (packet.p + 2) = (f, q) ∧ Holds packet.mem q rest := by
  have hbody := h.body
  rw [holds_append, holds_append] at hbody
  refine ⟨_, ?_, pop16_of_holds hmid hbody.1, popStr_of_holds hlength hbody.2.1, hbody.2.2⟩
  rw [h.length, length_append, length_push16]
  omega

theorem entriesAt_of_not_found {change : TopicNode → TopicNode} {tokens : List StdString} : ∀ {node : TopicNode},
    HashLast tokens → (withNodeLoop false change tokens node).2 = false → entriesAt tokens node = [] := by
  induction tokens with
  | nil => exact fun _ h => nomatch h
  | cons token tokens ih =>
    intro node hlast h
    rw [hashLast_cons] at hlast
    rw [withNodeLoop, if_neg fun hhash => hhash.2 (hlast.1 hhash.1)] at h
    cases hfind : node.children.find token with
    | none => exact subscribersField.valueAt_cons_missing hfind
    | some child =>
      simp only [hfind] at h
      exact (subscribersField.valueAt_cons_find hfind).trans (ih hlast.2 h)

theorem entriesAt_unsubscribe_self (live : SessionId → Bool) (root : TopicNode) (hf : ValidFilter f) :
    entriesAt (splitTopic f) (unsubscribe live f id [] root).1 =
      removeEntries live id [] (entriesAt (splitTopic f) root) := by
  rw [entriesAt_unsubscribe]
  split_ifs with h
  · rfl
  · have hne : splitTopic f ≠ [] := splitTopic_ne_nil (by rintro rfl; exact absurd hf.valid (by decide))
    rw [unsubscribe, if_pos hf.valid, withNode, if_neg hne] at h
    rw [entriesAt_of_not_found hf.hashLast (by simpa using h)]
    rfl

section Handled

variable (hsession : s.sessions id = some session) (hversion : session.version = mqttProtocolV311) (hmid : mid < 2 ^ 16)
  (hf : ValidFilter f)

include hsession hversion hmid hf

theorem subscribe_handled (hopen : s.isOpen id) {qos : UInt8} {entries : List (StdString × UInt8)}
    (hpacket : Carries packet .subscribe (subscribeBody mid ((f, qos) :: entries))) :
    ∃ s', onMqttMessage onAuth s id packet = some s' ∧ SubscribedTo s' id f ∧ SubackSent s s' id mid [qos] := by
  rw [subscribeBody, flatMap_cons, append_assoc] at hpacket
  obtain ⟨q, hlen, hid, hfilter, hqos⟩ := hpacket.read hmid hf.length
  have hops : handlerOps id session packet = some [.send .suback (push16 mid ++ [qos]),
      .onSubscribe { topic := f, payload := [], qos := qos.toNat, retain := false, prop := [] },
      .call (.subscribe f { session := id, qos := qos.toNat }), .sendRetained f qos.toNat packet.uninit] := by
    simp [handlerOps, hpacket.type, hlen, parseProp, hversion, subscribeOps, hid, hfilter, (holds_cons.1 hqos).1,
      mqttProtocolV311, mqttProtocolV5]
  obtain ⟨sent, outputs, hsent, hrun⟩ : ∃ sent outputs,
      Sends s sent (.write id (mqttHeadPack { type := .suback, length := 3 }) :: .write id (push16 mid ++ [qos]) ::
        outputs) ∧ onMqttMessage onAuth s id packet =
          some (sendRetained (subscribeSession sent id f qos.toNat) id f qos.toNat packet.uninit) := by
    have hsend := sends_send s id .suback (push16 mid ++ [qos])
    rw [if_pos hopen, if_pos (by simp [push16])] at hsend
    refine ⟨_, _, hsend.trans (sends_output _ (.onSubscribe id ⟨f, [], qos.toNat, false, []⟩)), ?_⟩
    rw [onMqttMessage_eq hsession (by simp [hpacket.type]), hops]
    rfl
  obtain ⟨copies, hretained, -⟩ := sends_sendRetained (subscribeSession sent id f qos.toNat) id f qos.toNat packet.uninit
  refine ⟨_, hrun, ⟨{ session := id, qos := qos.toNat }, ?_, rfl⟩, outputs ++ copies.flatMap Copy.writes, ?_⟩
  · have hlive : sent.live id := by simpa [hsent.live] using live_of_isOpen hopen
    rw [hretained.topicTree, subscribeSession, modifyTree, entriesAt_subscribe,
      if_pos ⟨rfl, (subscribe_succeeds _).2 ⟨hf.valid, hf.hashLast⟩⟩, subscribeEntries_eq hlive]
    exact mem_append_right _ mem_cons_self
  · rw [hretained.log, subscribeSession, modifyTree, hsent.log, append_assoc]
    rfl

theorem unsubscribe_handled {filters : List StdString}
    (hpacket : Carries packet .unsubscribe (unsubscribeBody mid (f :: filters))) :
    ∃ s', onMqttMessage onAuth s id packet = some s' ∧ ∀ f', SubscribedTo s' id f' ↔ SubscribedTo s id f' ∧ f' ≠ f := by
  obtain ⟨q, hlen, hid, hfilter, -⟩ := hpacket.read hmid hf.length
  have hops : handlerOps id session packet = some [.sendAck session.version .unsuback mid,
      .onUnsubscribe { topic := f, payload := [], qos := 0, retain := false, prop := [] },
      .call (.unsubscribe f id [])] := by
    simp [handlerOps, hpacket.type, hlen, parseProp, hversion, unsubscribeOps, hid, hfilter, mqttProtocolV311,
      mqttProtocolV5]
  obtain ⟨sent, outputs, hsent, hrun⟩ : ∃ sent outputs, Sends s sent outputs ∧
      onMqttMessage onAuth s id packet = some (unsubscribeSession sent id f) := by
    obtain ⟨head, rest, -, hsend⟩ := sends_sendAck s id session.version .unsuback mid
    refine ⟨_, _, hsend.trans (sends_output _ (.onUnsubscribe id ⟨f, [], 0, false, []⟩)), ?_⟩
    rw [onMqttMessage_eq hsession (by simp [hpacket.type]), hops]
    rfl
  refine ⟨_, hrun, fun f' => ?_⟩
  have hlive : sent.live id := by
    rw [hsent.live]
    simp [live, hsession]
  rw [SubscribedTo, unsubscribeSession, modifyTree, hsent.topicTree]
  by_cases hsame : f' = f
  · subst hsame
    rw [entriesAt_unsubscribe_self _ _ hf]
    refine iff_of_false ?_ fun h => h.2 rfl
    rintro ⟨sub, hsub, rfl⟩
    exact (mem_removeEntries.1 hsub).2 ⟨hlive, rfl, .inl rfl⟩
  · rw [entriesAt_unsubscribe, if_neg fun h => hsame (splitTopic_injective h.1)]
    simp [hsame, SubscribedTo]

end Handled

/-- After a SUBSCRIBE packet of MQTT 3.1.1 the session is subscribed to all of its filters and has got their return
    codes if and only if there is one filter; after an UNSUBSCRIBE packet it is subscribed to none of them if and only
    if it was subscribed to none but the first. -/
theorem multi_filter_iff (onAuth : OnAuth) (hsession : s.sessions id = some session)
    (hversion : session.version = mqttProtocolV311) (hopen : s.isOpen id) (hmid : mid < 2 ^ 16)
    {entry : StdString × UInt8} {entries : List (StdString × UInt8)} (hvalid : ∀ e ∈ entry :: entries, ValidFilter e.1)
    {subscribe unsubscribe : Packet} (hsub : Carries subscribe .subscribe (subscribeBody mid (entry :: entries)))
    (hunsub : Carries unsubscribe .unsubscribe (unsubscribeBody mid ((entry :: entries).map Prod.fst))) :
    (∃ s', onMqttMessage onAuth s id subscribe = some s' ∧ ((∀ e ∈ entry :: entries, SubscribedTo s' id e.1) ∧
      SubackSent s s' id mid ((entry :: entries).map Prod.snd) ↔ entries = [])) ∧
    ∃ s', onMqttMessage onAuth s id unsubscribe = some s' ∧ ((∀ e ∈ entry :: entries, ¬ SubscribedTo s' id e.1) ↔
      ∀ e ∈ entries, e.1 ≠ entry.1 → ¬ SubscribedTo s id e.1) := by
  obtain ⟨s₁, hs₁, hsubscribed, hsuback⟩ := @subscribe_handled _ _ _ _ _ onAuth _ hsession hversion hmid
    (hvalid entry mem_cons_self) hopen _ _ hsub
  obtain ⟨s₂, hs₂, hleft⟩ := @unsubscribe_handled _ _ _ _ _ onAuth _ hsession hversion hmid
    (hvalid entry mem_cons_self) _ hunsub
  refine ⟨⟨s₁, hs₁, fun h => ?_, ?_⟩, s₂, hs₂, ?_⟩
  · simpa using hsuback.unique h.2
  · rintro rfl
    exact ⟨by simpa using hsubscribed, hsuback⟩
  · grind

def bodyPacket (type : MqttType) (body : List UInt8) : Packet :=
  { head := { type, length := body.length }, mem := .ofList body, p := 0 }

theorem carries_bodyPacket (type : MqttType) (body : List UInt8) : Carries (bodyPacket type body) type body :=
  ⟨rfl, rfl, holds_ofList body⟩

/-- One filter is subscribed to; of two filters, one of which is subscribed to, neither is left. -/
theorem multi_filter_one :
    (∃ s', onMqttMessage acceptAll (singleSession 4) 0 (bodyPacket .subscribe (subscribeBody 1 [([97], 0)])) = some s' ∧
      SubscribedTo s' 0 [97] ∧ SubackSent (singleSession 4) s' 0 1 [0]) ∧
    SubscribedTo (subscribeSession (singleSession 4) 0 [97] 0) 0 [97] ∧
    ∃ s', onMqttMessage acceptAll (subscribeSession (singleSession 4) 0 [97] 0) 0
        (bodyPacket .unsubscribe (unsubscribeBody 1 [[97], [98]])) = some s' ∧
      ¬ SubscribedTo s' 0 [97] ∧ ¬ SubscribedTo s' 0 [98] := by
  have hfilters : ∀ e ∈ [(([97], 0) : StdString × UInt8), ([98], 0)], ValidFilter e.1 := by
    simpa using ⟨⟨by decide, by decide, by decide⟩, ⟨by decide, by decide, by decide⟩⟩
  obtain ⟨⟨s₁, hs₁, hiff₁⟩, -⟩ := @multi_filter_iff (singleSession 4) 0 _ 1 acceptAll rfl rfl rfl (by decide) ([97], 0) []
    (fun e he => hfilters e (mem_cons.2 (.inl (mem_singleton.1 he)))) _ _ (carries_bodyPacket .subscribe _)
    (carries_bodyPacket .unsubscribe _)
  obtain ⟨-, s₂, hs₂, hiff₂⟩ := @multi_filter_iff (subscribeSession (singleSession 4) 0 [97] 0) 0 _ 1 acceptAll rfl rfl
    rfl (by decide) _ _ hfilters _ _ (carries_bodyPacket .subscribe _) (carries_bodyPacket .unsubscribe _)
  obtain ⟨hsubscribed, hsuback⟩ := hiff₁.2 rfl
  have hleft := hiff₂.2 (by unfold SubscribedTo; decide +kernel)
  refine ⟨⟨s₁, hs₁, hsubscribed _ mem_cons_self, hsuback⟩, by unfold SubscribedTo; decide +kernel, s₂, hs₂, ?_⟩
  exact ⟨hleft ([97], 0) (by simp), hleft ([98], 0) (by simp)⟩

/-- Of `a` and `b` only the first is subscribed to, and the SUBACK packet has one return code. -/
theorem second_filter_ignored : ∃ s', runFrom (serverStep acceptAll) {} [.connected false,
    .packet 0 (bodyPacket .subscribe (subscribeBody 1 [([97], 0), ([98], 1)]))] = some s' ∧
      (entriesAt (splitTopic [97]) s'.topicTree = [{ session := 0, qos := 0 }] ∧
        entriesAt (splitTopic [98]) s'.topicTree = []) ∧
      s'.log = [.write 0 [0x90, 3], .write 0 [0, 1, 0], .onSubscribe 0 ⟨[97], [], 0, false, []⟩] :=
  exists_run (by decide +kernel) fun _ hrun => of_run hrun (by decide +kernel)

end HvVerified.Mqtt
