import HvVerified.Mqtt.Proofs.SessionProofs

/-!
# Proofs: the will of a session

A CONNECT packet stores the will in the session, and `closeSession` publishes it when the connection has
ended. A DISCONNECT packet only closes the channel: it leaves the will in place, and `closeSession` does
not know that there was one.
-/

namespace HvVerified.Mqtt

open Base Lib Function Option MqttServer MqttSession

variable {s s' : MqttServer} {id : SessionId} {packet : Packet}

/-! ## The will in the session -/

def MqttServer.willAt (server : MqttServer) (id : SessionId) : Option MqttMessage :=
  (server.sessions id).map willMessage

theorem willAt_of_logins (h : s'.logins = s.logins) : s'.willAt = s.willAt := by
  have hlogin : ∀ t : MqttServer, t.willAt = fun id => (t.logins.2 id).map willMessage := by
    intro t
    funext id
    exact (map_map willMessage login (t.sessions id)).symm
  rw [hlogin, hlogin, h]

theorem willAt_modifySession (s : MqttServer) (id : SessionId) (f : MqttSession → MqttSession) :
    (s.modifySession id f).willAt = update s.willAt id
      ((s.sessions id).map fun session => (f session).willMessage) := by
  funext id'
  unfold willAt modifySession
  by_cases hid : id' = id
  · subst hid
    dsimp only
    rw [update_self, update_self, map_map]
    rfl
  · dsimp only
    rw [update_of_ne hid, update_of_ne hid]

/-- The will of a CONNECT packet. -/
def connectWill (packet : Packet) : Option MqttMessage :=
  let { head, mem, p, uninit := _ } := packet
  let pend := p + head.length
  let (_, p) := popStr mem p
  let version := (mem p).toNat
  let connFlag := mem (p + 1)
  match parseProp version mem (p + 4) with
  | none => none
  | some (_, p) =>
    let (_, p) := popStr mem p
    if p > pend ∨ connFlag &&& 0x04 = 0 then none
    else
      match parseProp version mem p with
      | none => none
      | some (prop, p) =>
        let (topic, p) := popStr mem p
        if p > pend then none
        else
          let (payload, p) := popStr mem p
          if p > pend then none else some { topic, payload, qos := 0, retain := false, prop }

theorem readConnect_will {session session' : MqttSession} {conn : Option MqttConn}
    (h : readConnect session packet.head packet.mem packet.p = some (session', conn)) :
    session'.willMessage = (connectWill packet).getD session.willMessage := by
  obtain ⟨head, mem, p, uninit⟩ := packet
  obtain ⟨⟨session₀, rest⟩, hread, heq⟩ := map_eq_some_iff.1 h
  cases heq
  unfold readConnectAt at hread
  unfold connectWill
  dsimp only at hread ⊢
  have hkeepalive : ∀ p, (pop16 mem p).2 = p + 2 := fun _ => rfl
  rw [hkeepalive, Int.add_assoc] at hread
  cases hprop : parseProp (mem (popStr mem p).2).toNat mem ((popStr mem p).2 + (2 + 2)) with
  | none =>
    rw [hprop] at hread
    cases hread
  | some r =>
    have hprop' : parseProp (mem (popStr mem p).2).toNat mem ((popStr mem p).2 + 4) = some r := hprop
    rw [hprop] at hread
    rw [hprop']
    dsimp only at hread ⊢
    by_cases hend : (popStr mem r.2).2 > p + head.length
    · rw [if_pos hend] at hread
      rw [if_pos (.inl hend)]
      cases hread
      rfl
    · rw [if_neg hend] at hread
      obtain ⟨⟨session₁, rest⟩, hwill, heq⟩ := map_eq_some_iff.1 hread
      cases heq
      unfold readWill MqttConn.hasWill at hwill
      by_cases hflag : mem ((popStr mem p).2 + 1) &&& 0x04 = 0
      · rw [if_pos (.inr hflag)]
        simp only [hflag, ne_eq, not_true_eq_false, decide_false, Bool.false_eq_true, if_false] at hwill
        cases hwill
        rfl
      · rw [if_neg (not_or.2 ⟨hend, hflag⟩)]
        simp only [hflag, ne_eq, not_false_eq_true, decide_true, if_true] at hwill
        obtain ⟨⟨prop, p'⟩, hprop₁, hsession⟩ := map_eq_some_iff.1 hwill
        simp only [hprop₁]
        split_ifs at hsession ⊢ <;> cases hsession <;> rfl

theorem willAt_packet {onAuth : OnAuth} (hs : onMqttMessage onAuth s id packet = some s') :
    s'.willAt = if packet.head.type = .connect then
      update s.willAt id ((s.willAt id).map (connectWill packet).getD) else s.willAt := by
  obtain ⟨session, hsession⟩ := exists_session hs
  by_cases htype : packet.head.type = .connect
  · obtain ⟨session', conn, hread, hset⟩ := logins_connect hsession htype hs
    rw [if_pos htype, willAt_of_logins hset, willAt_modifySession, willAt, hsession]
    simp only [map_some, readConnect_will hread]
  · rw [if_neg htype, willAt_of_logins (logins_packet htype hs)]

/-! ## Runs -/

/-- The history of a session. -/
structure WillRecord where
  /-- The last will that a CONNECT packet has brought. -/
  will : Option MqttMessage := none
  /-- A DISCONNECT packet was received. -/
  disconnect : Bool := false
  /-- The connection has ended. -/
  ended : Bool := false
  /-- What the server wrote when the connection ended. -/
  written : List Output := []
  /-- What it writes if the will is published at that time, once. -/
  due : List Output := []
  /-- The sessions with a channel that had subscribed to the topic of the will. -/
  audience : List SessionId := []
  deriving DecidableEq, Repr

/-- The server with what the sessions did. -/
structure WillWorld where
  server : MqttServer := {}
  records : SessionId → WillRecord := fun _ => {}

def WillRecord.receive (record : WillRecord) (packet : Packet) : WillRecord :=
  { record with
    will := if packet.head.type = .connect then (connectWill packet).or record.will else record.will
    disconnect := record.disconnect || packet.head.type = .disconnect }

/-- The connection has ended between the two states. -/
def WillRecord.finish (record : WillRecord) (s s' : MqttServer) : WillRecord :=
  { record with
    ended := true
    written := outputsSince s s'
    due := record.will.elim [] fun msg => outputsSince s (serverPublish s msg)
    audience := record.will.elim [] fun msg =>
      ((getSubscribers s.live msg.topic s.topicTree).map SubscriptionInfo.session).filter s.isOpen }

def willRecords (world : WillWorld) (server : MqttServer) : ServerAct → SessionId → WillRecord
  | .packet id packet => Function.update world.records id ((world.records id).receive packet)
  | .disconnected id => Function.update world.records id ((world.records id).finish world.server server)
  | _ => world.records

/-- A step with its records. -/
def willStep (onAuth : OnAuth) (world : WillWorld) (act : ServerAct) : Option WillWorld :=
  (serverStep onAuth world.server act).map fun server => { server, records := willRecords world server act }

/-- How the event loop calls the server: a connection ends once, there are no packets after that, and the
    session is not released before. -/
def FromLoop (world : WillWorld) : ServerAct → Prop
  | .packet id _ => (world.records id).ended = false
  | .disconnected id => world.server.live id ∧ (world.records id).ended = false
  | .expired id => (world.records id).ended
  | .connected _ | .publish _ => True

/-- What holds of the history of a session with a will whose connection has ended: the will is published at most
    once, it is published if there was no DISCONNECT packet, and not if there was one. -/
def WillRight (record : WillRecord) : Prop :=
  record.will.isSome → record.ended →
    (record.written = [] ∨ record.written = record.due) ∧
    (record.disconnect = false → record.written = record.due) ∧
    (record.disconnect = true → record.written = [])

/-- The history fits the will in the session; the end of the connection publishes the will. -/
structure WillInv (server : MqttServer) (id : SessionId) (record : WillRecord) : Prop where
  fresh : server.created ≤ id → server.live id = false ∧ record = {}
  connected : id < server.created → record.ended = false →
    ∃ msg, server.willAt id = some msg ∧ ∀ msg', record.will = some msg' → msg = msg'
  gone : record.will.isSome → record.ended →
    record.written = record.due ∧ (record.due = [] ↔ record.audience = [])

/-- The end of a connection writes what publishing the will of the session writes. -/
theorem outputsSince_closeSession {msg : MqttMessage} (h : s.willAt id = some msg) :
    outputsSince s (closeSession s id) = outputsSince s (serverPublish s msg) := by
  obtain ⟨session, hsession, rfl⟩ := map_eq_some_iff.1 h
  rcases closeSession_cases s id with ⟨session', hsession', -, hclose⟩ | ⟨hwill, hclose⟩
  · cases hsession.symm.trans hsession'
    rw [hclose]
    rfl
  · have hnone : getSubscribers s.live session.willMessage.topic s.topicTree = [] := by
      rw [willMessage, hwill session hsession]
      rfl
    rw [hclose, serverPublish, hnone]
    rfl

theorem outputsSince_serverPublish_eq_nil (msg : MqttMessage) : outputsSince s (serverPublish s msg) = [] ↔
    ((getSubscribers s.live msg.topic s.topicTree).map SubscriptionInfo.session).filter s.isOpen = [] := by
  obtain ⟨copies, hsends, hcopies, -⟩ := sends_serverPublish s msg
  rw [outputsSince_eq hsends.log, ← hcopies, List.map_eq_nil_iff]
  cases copies with
  | nil => simp
  | cons copy copies => exact iff_of_false (by simp [Copy.writes]) (by simp)

theorem willAt_closeSession {id' : SessionId} (h : id' ≠ id) : (closeSession s id).willAt id' = s.willAt id' := by
  rcases closeSession_cases s id with ⟨session, -, -, hclose⟩ | ⟨-, hclose⟩
  · obtain ⟨copies, hcopies, -⟩ := sends_serverPublish s session.willMessage
    rw [hclose, willAt_modifySession, update_of_ne h, willAt_of_logins (logins_of_sends hcopies)]
  · rw [hclose]

section Steps

variable {onAuth : OnAuth} {record : WillRecord}

section

variable (h : WillInv s id record)

include h

theorem WillInv.frame (hcreated : s'.created = s.created)
    (hlive : s'.live id → s.live id) (hwill : s'.willAt id = s.willAt id) : WillInv s' id record := by
  refine ⟨fun hid => ?_, fun hid hended => ?_, h.gone⟩
  · obtain ⟨hfresh, hrecord⟩ := h.fresh (hcreated ▸ hid)
    refine ⟨?_, hrecord⟩
    cases hlive' : s'.live id with
    | false => rfl
    | true => rw [hlive hlive'] at hfresh; cases hfresh
  · rw [hwill]
    exact h.connected (hcreated ▸ hid) hended

theorem WillInv.lt_of_live (hlive : s.live id) : id < s.created := by
  by_contra hid
  rw [(h.fresh (Nat.not_lt.1 hid)).1] at hlive
  cases hlive

theorem willInv_connected (ws : Bool) : WillInv { s with
      created := s.created + 1
      sessions := update s.sessions s.created (some { tcp := !ws, ws }) } id record := by
  by_cases hid : id = s.created
  · subst hid
    obtain ⟨-, rfl⟩ := h.fresh (le_refl s.created)
    refine ⟨fun hle => absurd hle (Nat.not_succ_le_self _), fun _ _ => ?_, nofun⟩
    refine ⟨willMessage { tcp := !ws, ws }, ?_, nofun⟩
    rw [willAt]
    dsimp only
    rw [update_self]
    rfl
  · have hsession : update s.sessions s.created (some { tcp := !ws, ws }) id = s.sessions id :=
      update_of_ne hid _ _
    refine ⟨fun hle => ?_, fun hlt hended => ?_, h.gone⟩
    · rw [live]
      dsimp only at hle ⊢
      rw [hsession]
      exact h.fresh (Nat.le_of_succ_le hle)
    · rw [willAt]
      dsimp only at hlt ⊢
      rw [hsession]
      exact h.connected (Nat.lt_of_le_of_ne (Nat.le_of_lt_succ hlt) hid) hended

theorem willInv_receive (hended : record.ended = false)
    (hs : onMqttMessage onAuth s id packet = some s') (hcreated : s'.created = s.created) :
    WillInv s' id (record.receive packet) := by
  obtain ⟨session, hsession⟩ := exists_session hs
  have hlive : s.live id := by rw [live, hsession]; rfl
  have hlt := h.lt_of_live hlive
  refine ⟨fun hid => ?_, fun _ _ => ?_, fun _ hended' => ?_⟩
  · rw [hcreated] at hid
    exact absurd hlt (Nat.not_lt.2 hid)
  · obtain ⟨msg, hmsg, hsome⟩ := h.connected hlt hended
    rw [willAt_packet hs]
    unfold WillRecord.receive
    by_cases htype : packet.head.type = .connect
    · simp only [if_pos htype, update_self, hmsg, map_some]
      cases connectWill packet with
      | none => exact ⟨msg, rfl, hsome⟩
      | some will => exact ⟨will, rfl, fun msg' heq => some.inj heq⟩
    · simp only [if_neg htype]
      exact ⟨msg, hmsg, hsome⟩
  · exact absurd hended' (by rw [WillRecord.receive, hended]; decide)

theorem willInv_ended (hlive : s.live id) (hended : record.ended = false)
    (hcreated : (closeSession s id).created = s.created) :
    WillInv (closeSession s id) id (record.finish s (closeSession s id)) := by
  have hlt := h.lt_of_live hlive
  refine ⟨fun hid => ?_, fun _ hended' => ?_, fun hwill _ => ?_⟩
  · rw [hcreated] at hid
    exact absurd hlt (Nat.not_lt.2 hid)
  · cases hended'
  · obtain ⟨msg, hmsg, hsome⟩ := h.connected hlt hended
    obtain ⟨msg', hwill⟩ := isSome_iff_exists.1 hwill
    have hwill' : record.will = some msg' := hwill
    obtain rfl := hsome msg' hwill'
    simp only [WillRecord.finish, hwill', Option.elim_some]
    exact ⟨outputsSince_closeSession hmsg, outputsSince_serverPublish_eq_nil msg⟩

end

theorem willInv_step {w w' : WillWorld} {act : ServerAct} (h : ∀ id, WillInv w.server id (w.records id))
    (hok : FromLoop w act) (hstep : willStep onAuth w act = some w') :
    ∀ id, WillInv w'.server id (w'.records id) := by
  obtain ⟨server, hs, rfl⟩ := map_eq_some_iff.1 hstep
  intro id'
  by_cases hact : ∃ ws, act = .connected ws
  · obtain ⟨ws, rfl⟩ := hact
    cases hs
    exact willInv_connected (h id') ws
  · obtain ⟨hcreated, hlive⟩ := live_step (fun ws hws => hact ⟨ws, hws⟩) hs
    cases act with
    | connected ws => exact absurd ⟨ws, rfl⟩ hact
    | packet id packet =>
      by_cases hid : id' = id
      · subst hid
        simp only [willRecords, update_self]
        exact willInv_receive (h id') hok hs hcreated
      · simp only [willRecords, update_of_ne hid]
        refine (h id').frame hcreated (hlive id') ?_
        rw [willAt_packet hs]
        split_ifs
        · rw [update_of_ne hid]
        · rfl
    | disconnected id =>
      cases hs
      by_cases hid : id' = id
      · subst hid
        simp only [willRecords, update_self]
        exact willInv_ended (h id') hok.1 hok.2 hcreated
      · simp only [willRecords, update_of_ne hid]
        exact (h id').frame hcreated (hlive id') (willAt_closeSession hid)
    | expired id =>
      cases hs
      by_cases hid : id' = id
      · subst hid
        have hended : (w.records id').ended := hok
        refine ⟨fun hle => ⟨?_, ((h id').fresh hle).2⟩, fun _ hended' => ?_, (h id').gone⟩
        · rw [live]
          dsimp only
          rw [update_self]
          rfl
        · exact absurd (hended.symm.trans hended') (by decide)
      · refine (h id').frame hcreated (hlive id') ?_
        rw [willAt, willAt]
        dsimp only
        rw [update_of_ne hid]
    | publish msg =>
      cases hs
      obtain ⟨copies, hcopies, -⟩ := sends_serverPublish w.server msg
      exact (h id').frame hcreated (hlive id') (by rw [willAt_of_logins (logins_of_sends hcopies)])

end Steps

theorem willInv_of_reachable {onAuth : OnAuth} {w : WillWorld}
    (h : Reachable (willStep onAuth) FromLoop (· = {}) w) : ∀ id, WillInv w.server id (w.records id) := by
  apply h.invariant
  · rintro w rfl
    exact fun id => ⟨fun _ => ⟨rfl, rfl⟩, fun hid => absurd hid (Nat.not_lt_zero _), nofun⟩
  · intro w act w' hinv hok hstep
    exact willInv_step hinv hok hstep

/-- CONNECT with the will `x` for the topic `w`. -/
def connectWithWill : Packet :=
  wirePacket [0x10, 18, 0, 4, 77, 81, 84, 84, 4, 4, 0, 60, 0, 0, 0, 1, 119, 0, 1, 120]

instance (world : WillWorld) : DecidablePred (FromLoop world)
  | .packet id _ => inferInstanceAs (Decidable ((world.records id).ended = false))
  | .disconnected id =>
    inferInstanceAs (Decidable (world.server.live id ∧ (world.records id).ended = false))
  | .expired id => inferInstanceAs (Decidable ((world.records id).ended))
  | .connected _ => .isTrue trivial
  | .publish _ => .isTrue trivial

def willW : MqttMessage where
  topic := [119]
  payload := [120]
  qos := 0
  retain := false
  prop := []

/-- The copy that session 1 gets. -/
def willCopy : List Output := [.write 1 [0x30, 4, 0, 1, 119], .write 1 [120]]

/-- Session 1 has subscribed to the topic of the will of session 0, and then `acts` happens. -/
def willRun (acts : List ServerAct) : List ServerAct :=
  [.connected false, .connected false, .packet 1 (wirePacket [0x82, 6, 0, 1, 0, 1, 119, 0]),
    .packet 0 connectWithWill] ++ acts

/-- The history of session 0 when session 1 has got its will. -/
def endedRecord (disconnect : Bool) : WillRecord where
  will := some willW
  disconnect := disconnect
  ended := true
  written := willCopy
  due := willCopy
  audience := [1]

end HvVerified.Mqtt
