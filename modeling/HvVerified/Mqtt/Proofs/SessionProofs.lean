import HvVerified.Mqtt.Proofs.DeliveryProofs

/-!
# Proofs: what the server keeps of a session

The version and the will of a session are set by CONNECT packets. Every other packet changes nothing in the
sessions but packet identifiers and channels (`logins_packet`), and the end of a connection publishes the will
and clears it (`closeSession_cases`).
-/

namespace HvVerified.Mqtt

open Base Lib Function List Option MqttServer

variable {s s' : MqttServer} {id : SessionId} {session : MqttSession} {packet : Packet} {onAuth : OnAuth}

/-- A session without its channels and its packet identifier: what CONNECT packets have set. -/
def MqttSession.login (session : MqttSession) : MqttSession := { session with tcp := false, ws := false, mid := 0 }

/-- How many sessions there have been, and what is kept of those that are alive. -/
def MqttServer.logins (server : MqttServer) : Nat × (SessionId → Option MqttSession) :=
  (server.created, fun id => (server.sessions id).map MqttSession.login)

theorem live_of_logins (h : s'.logins = s.logins) : s'.live = s.live := by
  funext id
  have hlogin : (s'.sessions id).map MqttSession.login = (s.sessions id).map MqttSession.login :=
    congrFun (Prod.mk.inj h).2 id
  simpa [live] using congrArg Option.isSome hlogin

theorem logins_of_sends {l : List Output} (h : Sends s s' l) : s'.logins = s.logins :=
  Prod.ext h.created (funext fun id => h.map_sessions MqttSession.login (fun _ _ => rfl) id)

/-! ## Packets -/

theorem logins_operation (s : MqttServer) (id : SessionId) (op : Operation) : (op.run id s).logins = s.logins := by
  cases op with
  | send type data => exact logins_of_sends (sends_send s id type data)
  | sendAck version type mid =>
    obtain ⟨head, rest, -, hack⟩ := sends_sendAck s id version type mid
    exact logins_of_sends hack
  | close =>
    refine Prod.ext rfl (funext fun id' => ?_)
    by_cases hid : id' = id
    · subst hid
      simp only [logins, Operation.run, sessionClose, modifySession, update_self, Option.map_map]
      rfl
    · simp only [logins, Operation.run, sessionClose, modifySession, update_of_ne hid]
  | onPublish | onSubscribe | onUnsubscribe | call => rfl
  | publish msg =>
    obtain ⟨copies, hcopies, -⟩ := sends_serverPublish s msg
    exact logins_of_sends hcopies
  | sendRetained topic qos uninit =>
    obtain ⟨copies, hcopies, -⟩ := sends_sendRetained s id topic qos uninit
    exact logins_of_sends hcopies

theorem logins_packet (hconnect : packet.head.type ≠ .connect) (hs : onMqttMessage onAuth s id packet = some s') :
    s'.logins = s.logins := by
  obtain ⟨session, hsession⟩ := exists_session hs
  rw [onMqttMessage_eq hsession hconnect] at hs
  obtain ⟨ops, -, rfl⟩ := map_eq_some_iff.1 hs
  exact foldlRecOn ops (Operation.run id) (motive := fun t => t.logins = s.logins) rfl
    fun t ht op _ => (logins_operation t id op).trans ht

theorem logins_connect (hsession : s.sessions id = some session) (htype : packet.head.type = .connect)
    (hs : onMqttMessage onAuth s id packet = some s') :
    ∃ session' conn, readConnect session packet.head packet.mem packet.p = some (session', conn) ∧
      s'.logins = (s.modifySession id fun _ => session').logins := by
  simp only [onMqttMessage, hsession, htype] at hs
  obtain ⟨⟨session', conn⟩, hread, rfl⟩ := map_eq_some_iff.1 hs
  refine ⟨session', conn, hread, ?_⟩
  cases conn with
  | none => rfl
  | some conn => exact logins_of_sends (sends_send _ _ _ _)

/-! ## The end of a connection -/

/-- The message of the will. -/
def MqttSession.willMessage (session : MqttSession) : MqttMessage where
  topic := session.willTopic
  payload := session.willPayload
  qos := 0
  retain := false
  prop := session.willProp

/-- The session without its will. -/
def MqttSession.clearWill (session : MqttSession) : MqttSession :=
  { session with willTopic := [], willPayload := [], willProp := [] }

/-- The end of a connection publishes the will and clears it; without a will nothing happens. -/
theorem closeSession_cases (s : MqttServer) (id : SessionId) :
    (∃ session, s.sessions id = some session ∧ session.willTopic ≠ [] ∧
      closeSession s id = (serverPublish s session.willMessage).modifySession id MqttSession.clearWill) ∨
    (∀ session, s.sessions id = some session → session.willTopic = []) ∧ closeSession s id = s := by
  unfold closeSession
  cases hsession : s.sessions id with
  | none => exact .inr ⟨nofun, rfl⟩
  | some session =>
    dsimp only
    by_cases hwill : session.willTopic = []
    · rw [if_neg (by simp [hwill])]
      exact .inr ⟨fun _ heq => some.inj heq ▸ hwill, rfl⟩
    · rw [if_pos (length_pos_iff.2 hwill)]
      exact .inl ⟨session, rfl, hwill, rfl⟩

/-! ## Steps -/

/-- No step but a new connection makes a session. -/
theorem live_step {act : ServerAct} (hact : ∀ ws, act ≠ .connected ws) (hs : serverStep onAuth s act = some s') :
    s'.created = s.created ∧ ∀ id, s'.live id → s.live id := by
  have hlogins : s'.logins = s.logins → s'.created = s.created ∧ ∀ id, s'.live id → s.live id :=
    fun h => ⟨congrArg Prod.fst h, fun id hid => live_of_logins h ▸ hid⟩
  cases act with
  | connected ws => exact absurd rfl (hact ws)
  | packet id packet =>
    by_cases htype : packet.head.type = .connect
    · obtain ⟨session, hsession⟩ := exists_session hs
      obtain ⟨session', conn, -, hset⟩ := logins_connect hsession htype hs
      refine ⟨congrArg Prod.fst hset, fun id' hid => ?_⟩
      rwa [live_of_logins hset, live_modifySession] at hid
    · exact hlogins (logins_packet htype hs)
  | disconnected id =>
    cases hs
    rcases closeSession_cases s id with ⟨session, -, -, hclose⟩ | ⟨-, hclose⟩
    · obtain ⟨copies, hcopies, -⟩ := sends_serverPublish s session.willMessage
      rw [hclose, live_modifySession, hcopies.live]
      exact ⟨hcopies.created, fun _ hid => hid⟩
    · exact hlogins (by rw [hclose])
  | expired id =>
    cases hs
    refine ⟨rfl, fun id' hid => ?_⟩
    by_cases heq : id' = id
    · simp [live, heq] at hid
    · simpa [live, heq] using hid
  | publish msg =>
    cases hs
    obtain ⟨copies, hcopies, -⟩ := sends_serverPublish s msg
    exact hlogins (logins_of_sends hcopies)

end HvVerified.Mqtt
