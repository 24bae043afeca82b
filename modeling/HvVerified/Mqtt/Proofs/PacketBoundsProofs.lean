import HvVerified.Mqtt.Proofs.DeliveryProofs
import HvVerified.Mqtt.Slices

/-!
# Proofs: the strings of a packet and its end

The handler reads its strings from the slices of `packetSlices` (`uses_slices`). The checks against the
end of the packet are enough for CONNECT packets without properties; everywhere else the lengths in the
packet decide whether the slices are inside (`slices_inside_iff`).
-/

namespace HvVerified.Mqtt

open Base Lib List Option Slice

variable {present : Bool} {slice : Option Slice} {slices : ConnectSlices} (session : MqttSession)
  (version : Nat)

/-! ## Lengths -/

def readSlice (mem : PacketMem) (slice : Option Slice) : StdString := (slice.map (read mem)).getD []

def sessionWill (mem : PacketMem) (session : MqttSession) : Option WillSlices → MqttSession
  | some will => { session with
    willProp := readSlice mem will.prop
    willTopic := will.topic.read mem
    willPayload := will.payload.read mem }
  | none => session

def connWill (mem : PacketMem) (conn : MqttConn) : Option WillSlices → MqttConn
  | some will => { conn with willTopic := will.topic.read mem, willPayload := will.payload.read mem }
  | none => conn

/-- The protocol version that a CONNECT packet names, its flags, and the address of its property. -/
def connectVersion (mem : PacketMem) (p : Int) : Nat := (mem (popSlice mem p).2).toNat

def connectFlag (mem : PacketMem) (p : Int) : UInt8 := mem ((popSlice mem p).2 + 1)

def connectPropAt (mem : PacketMem) (p : Int) : Int := (pop16 mem ((popSlice mem p).2 + 2)).2

def connectConn (mem : PacketMem) (p : Int) (clientId : StdString) : MqttConn where
  protocol := (popSlice mem p).1.read mem
  version := connectVersion mem p
  connFlag := connectFlag mem p
  keepalive := (pop16 mem ((popSlice mem p).2 + 2)).1
  clientId := clientId

def ConnectSlices.conn (mem : PacketMem) (p : Int) (slices : ConnectSlices) : MqttConn :=
  { connWill mem (connectConn mem p (slices.clientId.read mem)) slices.will with
    userName := readSlice mem slices.userName
    password := readSlice mem slices.password }

/-- The slice is a part of the body. -/
def Slice.Inside (slice : Slice) (p pend : Int) : Prop := p ≤ slice.start ∧ slice.start + slice.len ≤ pend

/-- All slices are in the packet. -/
def AllInside (slices : List Slice) (p pend : Int) : Prop := ∀ slice ∈ slices, slice.Inside p pend

def WillSlices.all (slices : WillSlices) : List Slice := slices.prop.toList ++ [slices.topic, slices.payload]

def ConnectSlices.all (slices : ConnectSlices) : List Slice :=
  slices.clientId :: ((slices.will.map WillSlices.all).getD [] ++ slices.userName.toList ++ slices.password.toList)

def PublishSlices.all (slices : PublishSlices) : List Slice :=
  slices.topic :: slices.payload :: slices.prop.toList

def PacketSlices.all : PacketSlices → List Slice
  | .connect slices => slices.all
  | .publish slices => slices.all
  | .filter topic => [topic]
  | .nothing => []

def PacketSlices.PayloadToEnd (pend : Int) : PacketSlices → Prop
  | .publish slices => (slices.payload.len : Int) = pend - slices.payload.start
  | _ => True

/-- The address behind the property at `q`. -/
def propEnd (version : Nat) (mem : PacketMem) (q : Int) : Int :=
  if version = mqttProtocolV5 then q + propBytes mem q + propLen mem q else q

/-- The length of the property at `q` has an end, and does not lead to an address before `low`. -/
def PropLeadsTo (version : Nat) (mem : PacketMem) (q low : Int) : Prop :=
  (version = mqttProtocolV5 → 0 < propBytes mem q) ∧ low ≤ propEnd version mem q

/-- The property at `q`, with its length cut to 16 bits, ends before `pend`. -/
def PropEnds (version : Nat) (mem : PacketMem) (q pend : Int) : Prop :=
  version = mqttProtocolV5 → q + propBytes mem q + propStrLen mem q ≤ pend

/-- The properties of a CONNECT packet do not lead out of it. -/
def ConnectFits (mem : PacketMem) (p pend : Int) : Prop :=
  PropLeadsTo (connectVersion mem p) mem (connectPropAt mem p) (p - 2) ∧
    (connectFlag mem p &&& 0x04 ≠ 0 →
      let q := (popSlice mem (propEnd (connectVersion mem p) mem (connectPropAt mem p))).2
      PropLeadsTo (connectVersion mem p) mem q (p - 2) ∧ PropEnds (connectVersion mem p) mem q pend)

/-- The topic, the packet identifier and the property of a PUBLISH packet end before the packet does. -/
def PublishFits (version : Nat) (packet : Packet) : Prop :=
  PropLeadsTo version packet.mem (publishPropAt packet) packet.p ∧
    PropEnds version packet.mem (publishPropAt packet) (packet.p + packet.head.length) ∧
    propEnd version packet.mem (publishPropAt packet) ≤ packet.p + packet.head.length

/-- The filter of a SUBSCRIBE or UNSUBSCRIBE packet ends before the packet does. -/
def FilterFits (version : Nat) (packet : Packet) : Prop :=
  PropLeadsTo version packet.mem (packet.p + 2) (packet.p - 2) ∧
    (popSlice packet.mem (propEnd version packet.mem (packet.p + 2))).2 ≤ packet.p + packet.head.length

/-- The lengths in the packet fit into it. -/
def LengthsFit (version : Nat) (packet : Packet) : Prop :=
  match packet.head.type with
  | .connect => ConnectFits packet.mem packet.p (packet.p + packet.head.length)
  | .publish => PublishFits version packet
  | .subscribe | .unsubscribe => packet.head.length > 1 → FilterFits version packet
  | _ => True

section Lengths

variable {mem : PacketMem} {p p' pend : Int}

theorem allInside_nil : AllInside [] p pend := by
  intro slice hslice
  cases hslice

theorem allInside_cons {slice : Slice} {slices : List Slice} :
    AllInside (slice :: slices) p pend ↔ slice.Inside p pend ∧ AllInside slices p pend :=
  forall_mem_cons

theorem allInside_append {slices slices' : List Slice} :
    AllInside (slices ++ slices') p pend ↔ AllInside slices p pend ∧ AllInside slices' p pend :=
  forall_mem_append

theorem popSlice_bounds (mem : PacketMem) (p : Int) : (popSlice mem p).1.start = p + 2 ∧
    (popSlice mem p).2 = (popSlice mem p).1.start + (popSlice mem p).1.len := ⟨rfl, rfl⟩

theorem popSlice_eq {slice : Slice} (h : popSlice mem p = (slice, p')) :
    slice.start = p + 2 ∧ p' = slice.start + slice.len := by
  have hbounds := popSlice_bounds mem p
  rwa [h] at hbounds

end Lengths

/-! ## The walk and the handler -/

section Walk

variable {α β : Type} {walk : Except Stop α} {P P' : α → Prop} {Q : β → Prop} {R R' N N' : Prop}

/-- What holds of a walk: `P` of its result, `R` if the packet is rejected, `N` at a null pointer. -/
def Outcome (walk : Except Stop α) (P : α → Prop) (R N : Prop) : Prop :=
  match walk with
  | .ok a => P a
  | .error .rejected => R
  | .error .null => N

theorem Outcome.imp (h : Outcome walk P R N) (hP : ∀ a, P a → P' a) (hR : R → R') (hN : N → N') :
    Outcome walk P' R' N' := by
  rcases walk with (_ | _) | a
  · exact hR h
  · exact hN h
  · exact hP a h

theorem Outcome.bind {next : α → Except Stop β} (h : Outcome walk P R N)
    (hnext : ∀ a, P a → Outcome (next a) Q R N) : Outcome (walk >>= next) Q R N := by
  rcases walk with (_ | _) | a
  · exact h
  · exact h
  · exact hnext a h

theorem Outcome.whenPresent {part : Except Stop (α × Int)} {Q : Option α × Int → Prop} {p : Int}
    (habsent : present = false → Q (none, p)) (h : present → Outcome part (fun b => Q (some b.1, b.2)) R N) :
    Outcome (whenPresent present p part) Q R N := by
  cases present with
  | false => exact habsent rfl
  | true =>
    rcases part with (_ | _) | b
    · exact h rfl
    · exact h rfl
    · exact h rfl

variable {mem : PacketMem} {p pend : Int} {version : Nat}

theorem popStr_eq (mem : PacketMem) (p : Int) :
    popStr mem p = ((popSlice mem p).1.read mem, (popSlice mem p).2) := rfl

theorem parseProp_eq (mem : PacketMem) (p : Int) :
    parseProp version mem p = if version ≠ mqttProtocolV5 then some ([], p)
      else if propBytes mem p ≤ 0 then none
      else some (mem.bytes (p + propBytes mem p) (propStrLen mem p), p + propBytes mem p + propLen mem p) := rfl

/-- A property and its slice. -/
structure PropAt (version : Nat) (mem : PacketMem) (q : Int) (r : Option Slice × Int) : Prop where
  parse : parseProp version mem q = some (readSlice mem r.1, r.2)
  ends : r.2 = propEnd version mem q
  bytes : version = mqttProtocolV5 → 0 < propBytes mem q
  inside {low pend : Int} : low ≤ q → (AllInside r.1.toList low pend ↔ PropEnds version mem q pend)

theorem outcome_propSlice (hN : (∀ low, ¬ PropLeadsTo version mem p low) → parseProp version mem p = none → N) :
    Outcome (propSlice version mem p) (PropAt version mem p) R N := by
  rw [parseProp_eq] at hN
  unfold propSlice
  split_ifs at hN ⊢ with hversion hbytes
  · refine ⟨?_, (if_neg hversion).symm, fun h => absurd h hversion, ?_⟩
    · rw [parseProp_eq, if_pos hversion]
      rfl
    · exact fun _ => iff_of_true allInside_nil fun h => absurd h hversion
  · exact hN (fun _ h => hbytes.not_gt (h.1 (not_not.1 hversion))) rfl
  · have hpos := Int.not_le.1 hbytes
    refine ⟨?_, (if_pos (not_not.1 hversion)).symm, fun _ => hpos, ?_⟩
    · rw [parseProp_eq, if_neg hversion, if_neg hbytes, readSlice, map_some, getD_some, Slice.read]
    · intro low pend hlow
      have hstart : low ≤ p + propBytes mem p := by omega
      rw [toList_some, allInside_cons, PropEnds, forall_prop_of_true (not_not.1 hversion)]
      simp only [Slice.Inside, allInside_nil, and_true, hstart, true_and]

theorem outcome_checkedSlice (hR : (popSlice mem p).2 > pend → R) :
    Outcome (checkedSlice mem p pend) (fun r => popSlice mem p = r ∧ r.2 ≤ pend) R N := by
  unfold checkedSlice
  dsimp only
  split_ifs with hend
  · exact hR hend
  · exact ⟨rfl, Int.not_lt.1 hend⟩

/-- A string that may be missing, and its slice. -/
structure OptionalAt (present : Bool) (mem : PacketMem) (p pend : Int) (r : Option Slice × Int) : Prop where
  read : readOptional present mem p pend = some (readSlice mem r.1, r.2)
  inside {low : Int} : low ≤ p → low ≤ r.2 ∧ AllInside r.1.toList low pend

theorem outcome_optional (hR : readOptional present mem p pend = none → R) :
    Outcome (whenPresent present p (checkedSlice mem p pend)) (OptionalAt present mem p pend) R N := by
  unfold readOptional at hR
  refine .whenPresent ?_ fun hpresent => (outcome_checkedSlice fun hend => hR ?_).imp ?_ id id
  · rintro rfl
    exact ⟨rfl, fun hlow => ⟨hlow, allInside_nil⟩⟩
  · rw [if_pos hpresent]
    exact if_pos hend
  · rintro r ⟨hpop, hend⟩
    obtain ⟨hstart, hp'⟩ := popSlice_eq hpop
    refine ⟨?_, fun hlow => ⟨by dsimp only; omega, allInside_cons.2 ⟨⟨by omega, by omega⟩, allInside_nil⟩⟩⟩
    unfold readOptional
    rw [if_pos hpresent, popStr_eq, hpop]
    exact if_neg (Int.not_lt.2 hend)

theorem outcome_readWill (conn : MqttConn) (hversion : session.version = version) :
    Outcome (whenPresent conn.hasWill p (willSlices version mem p pend))
      (fun r => readWill session conn mem p pend =
        some (sessionWill mem session r.1, some (connWill mem conn r.1, r.2)))
      (∃ session', readWill session conn mem p pend = some (session', none))
      (readWill session conn mem p pend = none) := by
  subst hversion
  unfold readWill
  refine .whenPresent (fun hwill => ?_) fun hwill => ?_
  · rw [hwill]
    rfl
  · rw [hwill, if_pos rfl]
    refine .bind (outcome_propSlice fun _ hnone => by rw [hnone]; rfl) fun ⟨prop, p₁⟩ hprop => ?_
    rw [hprop.parse, map_some]
    refine .bind (outcome_checkedSlice fun hend => ⟨_, congrArg some (if_pos hend)⟩)
      fun ⟨topic, p₂⟩ ⟨htopic, hend₂⟩ => ?_
    simp only [popStr_eq, htopic, if_neg (Int.not_lt.2 hend₂)]
    refine .bind (outcome_checkedSlice fun hend => ⟨_, congrArg some (if_pos hend)⟩)
      fun ⟨payload, p₃⟩ ⟨hpayload, hend₃⟩ => ?_
    simp only [hpayload, if_neg (Int.not_lt.2 hend₃)]
    rfl

end Walk

/-! ## CONNECT packets -/

section Connect

variable {mem : PacketMem} {p pend q : Int} {version : Nat}

theorem connectSlices_eq (mem : PacketMem) (p pend : Int) : connectSlices mem p pend =
    (propSlice (connectVersion mem p) mem (connectPropAt mem p) >>= fun r =>
      checkedSlice mem r.2 pend >>= fun c =>
      whenPresent (connectFlag mem p &&& 0x04 ≠ 0) c.2
        (willSlices (connectVersion mem p) mem c.2 pend) >>= fun w =>
      whenPresent (connectFlag mem p &&& 0x80 ≠ 0) w.2 (checkedSlice mem w.2 pend) >>= fun u =>
      whenPresent (connectFlag mem p &&& 0x40 ≠ 0) u.2 (checkedSlice mem u.2 pend) >>= fun v =>
      pure { clientId := c.1, will := w.1, userName := u.1, password := v.1 }) := rfl

theorem readConnect_eq (head : MqttHead) (mem : PacketMem) (p : Int) : readConnect session head mem p =
      (parseProp (connectVersion mem p) mem (connectPropAt mem p)).bind fun r =>
        if (popSlice mem r.2).2 > p + head.length then
          some ({ session with version := connectVersion mem p }, none)
        else
          (readWill { session with version := connectVersion mem p }
            (connectConn mem p ((popSlice mem r.2).1.read mem)) mem (popSlice mem r.2).2 (p + head.length)).map
            fun w => (w.1, (readLogin mem (p + head.length) w.2).map Prod.fst) := by
  unfold readConnect readConnectAt
  dsimp only
  cases hprop : parseProp (connectVersion mem p) mem (connectPropAt mem p) with
  | none =>
    replace hprop : parseProp (mem (popStr mem p).2).toNat mem (pop16 mem ((popStr mem p).2 + 2)).2 = none := hprop
    rw [hprop]
    rfl
  | some r =>
    replace hprop : parseProp (mem (popStr mem p).2).toNat mem (pop16 mem ((popStr mem p).2 + 2)).2 = some r :=
      hprop
    rw [hprop, bind_some]
    dsimp only
    by_cases hend : (popStr mem r.2).2 > p + head.length
    · rw [if_pos hend]
      exact (if_pos hend).symm
    · rw [if_neg hend, Option.map_map]
      exact (if_neg hend).symm

theorem flags_connWill (mem : PacketMem) (p : Int) (clientId : StdString) (will : Option WillSlices) :
    (connWill mem (connectConn mem p clientId) will).hasUsername = decide (connectFlag mem p &&& 0x80 ≠ 0) ∧
      (connWill mem (connectConn mem p clientId) will).hasPassword =
        decide (connectFlag mem p &&& 0x40 ≠ 0) := by
  cases will with
  | none | some => exact ⟨rfl, rfl⟩

/-- The strings of a CONNECT packet that is handled are read from the slices. -/
theorem outcome_readConnect (head : MqttHead) : Outcome (connectSlices mem p (p + head.length))
      (fun slices => readConnect session head mem p =
        some (sessionWill mem { session with version := connectVersion mem p } slices.will, some (slices.conn mem p)))
      (∃ session', readConnect session head mem p = some (session', none))
      (readConnect session head mem p = none) := by
  rw [connectSlices_eq, readConnect_eq]
  refine .bind (outcome_propSlice fun _ hnone => by rw [hnone]; rfl) fun ⟨prop, p₁⟩ hprop => ?_
  rw [hprop.parse, bind_some]
  refine .bind (outcome_checkedSlice fun hend => ⟨_, if_pos hend⟩) fun ⟨clientId, p₂⟩ ⟨hclientId, hend⟩ => ?_
  rw [hclientId, if_neg (Int.not_lt.2 hend)]
  refine .bind ((outcome_readWill { session with version := connectVersion mem p }
    (connectConn mem p (clientId.read mem)) rfl).imp (fun _ => id) ?_ fun hnone => by rw [hnone]; rfl) ?_
  · rintro ⟨session', hread⟩
    exact ⟨session', by rw [hread]; rfl⟩
  rintro ⟨will, p₃⟩ hwill
  obtain ⟨hname, hpass⟩ := flags_connWill mem p (clientId.read mem) will
  simp only [hwill, map_some, readLogin, Option.bind_eq_bind, bind_some, hname, hpass]
  refine .bind (outcome_optional fun hnone => ⟨_, by rw [hnone]; rfl⟩) fun ⟨userName, p₄⟩ huserName => ?_
  rw [huserName.read, bind_some]
  refine .bind (outcome_optional fun hnone => ⟨_, by rw [hnone]; rfl⟩) fun ⟨password, p₅⟩ hpassword => ?_
  rw [hpassword.read, bind_some]
  rfl

theorem outcome_willSlices (p : Int) : Outcome (willSlices version mem q pend) (fun r => p ≤ q →
      (AllInside r.1.all p pend ↔ PropLeadsTo version mem q (p - 2) ∧ PropEnds version mem q pend) ∧
        (PropLeadsTo version mem q (p - 2) → p ≤ r.2)) True (∀ low, ¬ PropLeadsTo version mem q low) := by
  refine .bind (outcome_propSlice fun h _ => h) fun ⟨prop, p₁⟩ hprop => ?_
  refine .bind (outcome_checkedSlice fun _ => trivial) fun ⟨topic, p₂⟩ ⟨htopic, hend₂⟩ => ?_
  refine .bind (outcome_checkedSlice fun _ => trivial) fun ⟨payload, p₃⟩ ⟨hpayload, hend₃⟩ => ?_
  obtain ⟨htstart, hp₂⟩ := popSlice_eq htopic
  obtain ⟨hpstart, hp₃⟩ := popSlice_eq hpayload
  have hends := hprop.ends
  intro hlow
  constructor
  · rw [WillSlices.all, allInside_append, hprop.inside hlow, allInside_cons, allInside_cons]
    dsimp only at *
    constructor
    · rintro ⟨hends, ⟨h₁, -⟩, -⟩
      exact ⟨⟨hprop.bytes, by omega⟩, hends⟩
    · rintro ⟨⟨-, h₁⟩, hends⟩
      exact ⟨hends, ⟨by omega, by omega⟩, ⟨by omega, by omega⟩, allInside_nil⟩
  · rintro ⟨-, h₁⟩
    omega

theorem outcome_connectSlices : Outcome (connectSlices mem p pend)
    (fun slices => AllInside slices.all p pend ↔ ConnectFits mem p pend) True (¬ ConnectFits mem p pend) := by
  rw [connectSlices_eq]
  refine .bind (outcome_propSlice fun h _ hfits => h _ hfits.1) fun ⟨prop, p₁⟩ hprop => ?_
  obtain rfl : p₁ = _ := hprop.ends
  refine .bind (outcome_checkedSlice fun _ => trivial) fun ⟨clientId, p₂⟩ ⟨hclientId, hend⟩ => ?_
  obtain ⟨hstart, hp₂⟩ := popSlice_eq hclientId
  have hid : clientId.Inside p pend ↔
      PropLeadsTo (connectVersion mem p) mem (connectPropAt mem p) (p - 2) := by
    unfold Inside PropLeadsTo
    exact ⟨fun h => ⟨hprop.bytes, by omega⟩, fun h => ⟨by omega, by omega⟩⟩
  unfold ConnectFits
  rw [hclientId, ← hid]
  refine .bind (P := fun r => p ≤ p₂ →
    (AllInside ((r.1.map WillSlices.all).getD []) p pend ↔ (connectFlag mem p &&& 0x04 ≠ 0 →
      PropLeadsTo (connectVersion mem p) mem p₂ (p - 2) ∧ PropEnds (connectVersion mem p) mem p₂ pend)) ∧
    (AllInside ((r.1.map WillSlices.all).getD []) p pend → p ≤ r.2)) (.whenPresent (fun hflag hlow => ?_) fun hflag => ?_) ?_
  · exact ⟨iff_of_true allInside_nil fun hyes => absurd hyes (of_decide_eq_false hflag), fun _ => hlow⟩
  · have hyes : connectFlag mem p &&& 0x04 ≠ 0 := of_decide_eq_true hflag
    refine (outcome_willSlices p).imp (fun will hwill hlow => ?_) id fun hnot hfits => hnot _ (hfits.2 hyes).1
    obtain ⟨hiff, hlow₃⟩ := hwill hlow
    rw [forall_prop_of_true hyes, map_some, getD_some]
    exact ⟨hiff, fun hin => hlow₃ (hiff.1 hin).1⟩
  rintro ⟨will, p₃⟩ hwill
  refine .bind (outcome_optional fun _ => trivial) fun ⟨userName, p₄⟩ huserName => ?_
  refine .bind (outcome_optional fun _ => trivial) fun ⟨password, p₅⟩ hpassword => ?_
  show AllInside (ConnectSlices.all _) p pend ↔ _
  rw [ConnectSlices.all, allInside_cons, allInside_append, allInside_append]
  refine and_congr_right fun hinside => ?_
  have hlow₂ : p ≤ p₂ := by
    have : p ≤ clientId.start := hinside.1
    omega
  obtain ⟨hiff, hlow₃⟩ := hwill hlow₂
  rw [← hiff]
  refine ⟨fun h => h.1.1, fun hin => ?_⟩
  -- behind the will, every string is checked against the end
  obtain ⟨hlow₄, hname⟩ := huserName.inside (hlow₃ hin)
  exact ⟨⟨hin, hname⟩, (hpassword.inside hlow₄).2⟩

end Connect

/-! ## PUBLISH, SUBSCRIBE and UNSUBSCRIBE packets -/

section Others

variable {version : Nat} {packet : Packet}

theorem le_publishPropAt (packet : Packet) : (popSlice packet.mem packet.p).2 ≤ publishPropAt packet := by
  unfold publishPropAt
  split_ifs
  · show (popSlice packet.mem packet.p).2 ≤ (popSlice packet.mem packet.p).2 + 2
    omega
  · exact Int.le_rfl

theorem publishSlices_eq (haccepted : PublishAccepted packet) :
    publishSlices version packet.head packet.mem packet.p =
      (propSlice version packet.mem (publishPropAt packet) >>= fun r => pure {
        topic := (popSlice packet.mem packet.p).1
        prop := r.1
        payload := { start := r.2, len := publishPayloadLen packet r.2 } }) := by
  obtain ⟨hlen, hid⟩ := publishAccepted_iff.1 haccepted
  exact (if_neg hlen).trans (if_neg hid)

theorem publishSlices_of_rejected (h : ¬ PublishAccepted packet) :
    publishSlices version packet.head packet.mem packet.p = .error .rejected := by
  unfold publishSlices
  by_cases hlen : packet.head.length < 2
  · rw [if_pos hlen]
  · exact (if_neg hlen).trans (if_pos (not_not.1 fun hid => h (publishAccepted_iff.2 ⟨hlen, hid⟩)))

theorem outcome_publishSlices (hlength : packet.head.length < 2 ^ 32) :
    Outcome (publishSlices version packet.head packet.mem packet.p)
      (fun slices => (AllInside slices.all packet.p (packet.p + packet.head.length) ∧
        (slices.payload.len : Int) = packet.p + packet.head.length - slices.payload.start) ↔
        PublishFits version packet) True (¬ PublishFits version packet) := by
  by_cases haccepted : PublishAccepted packet
  · rw [publishSlices_eq haccepted]
    refine .bind (outcome_propSlice fun h _ hfits => h _ hfits.1) fun ⟨prop, p'⟩ hprop => ?_
    obtain rfl : p' = _ := hprop.ends
    obtain ⟨hstart, hend⟩ := popSlice_bounds packet.mem packet.p
    have hle := le_publishPropAt packet
    have hlow : packet.p ≤ publishPropAt packet := by omega
    show (AllInside (PublishSlices.all _) _ _ ∧ _) ↔ _
    unfold PublishSlices.all PublishFits PropLeadsTo
    rw [allInside_cons, allInside_cons, hprop.inside hlow]
    unfold Inside publishPayloadLen
    dsimp only
    constructor
    · rintro ⟨⟨-, ⟨h₁, h₂⟩, hends⟩, hpayload⟩
      exact ⟨⟨hprop.bytes, h₁⟩, hends, by omega⟩
    · rintro ⟨⟨-, h₁⟩, hends, h₂⟩
      have htopic : publishPropAt packet ≤ packet.p + packet.head.length := by
        by_cases hversion : version = mqttProtocolV5
        · have := hends hversion
          have := hprop.bytes hversion
          omega
        · rwa [propEnd, if_neg hversion] at h₂
      exact ⟨⟨⟨by omega, by omega⟩, ⟨h₁, by omega⟩, hends⟩, by omega⟩
  · rw [publishSlices_of_rejected haccepted]
    trivial

theorem outcome_filterSlice : Outcome (filterSlice version packet.mem packet.p)
    (fun slice => slice.Inside packet.p (packet.p + packet.head.length) ↔ FilterFits version packet)
    True (¬ FilterFits version packet) := by
  refine .bind (outcome_propSlice fun h _ hfits => h _ hfits.1) fun ⟨prop, p'⟩ hprop => ?_
  obtain rfl : p' = _ := hprop.ends
  obtain ⟨hstart, hend⟩ := popSlice_bounds packet.mem (propEnd version packet.mem (packet.p + 2))
  constructor
  · rintro ⟨h₁, h₂⟩
    exact ⟨⟨hprop.bytes, by omega⟩, by omega⟩
  · rintro ⟨⟨-, h₁⟩, h₂⟩
    exact ⟨by omega, by omega⟩

end Others

/-! ## All packets -/

/-- The packet is rejected, or all its strings are inside the body and the payload reaches to its end. -/
def StaysInside (packet : Packet) : Except Stop PacketSlices → Prop
  | .ok slices => AllInside slices.all packet.p (packet.p + packet.head.length) ∧
      slices.PayloadToEnd (packet.p + packet.head.length)
  | .error .rejected => True
  | .error .null => False

theorem staysInside_map {α : Type} {packet : Packet} {walk : Except Stop α} {slices : α → PacketSlices} {fits : Prop}
    (h : Outcome walk (fun a => StaysInside packet (.ok (slices a)) ↔ fits) True (¬ fits)) :
    StaysInside packet (walk.map slices) ↔ walk.map slices = .error .rejected ∨ fits := by
  rcases walk with (_ | _) | a
  · exact iff_of_true trivial (.inl rfl)
  · exact iff_of_false id (not_or.2 ⟨nofun, h⟩)
  · exact h.trans (or_iff_right nofun).symm

theorem staysInside_iff {packet : Packet} (hlength : packet.head.length < 2 ^ 32) :
    StaysInside packet (packetSlices version packet) ↔
      packetSlices version packet = .error .rejected ∨ LengthsFit version packet := by
  unfold packetSlices LengthsFit
  dsimp only
  cases htype : packet.head.type <;> dsimp only
  case connect =>
    exact staysInside_map (outcome_connectSlices.imp (fun _ h => (and_iff_left trivial).trans h) id id)
  case publish => exact staysInside_map (outcome_publishSlices hlength)
  case subscribe | unsubscribe =>
    by_cases hlen : packet.head.length > 1
    · rw [if_pos hlen, forall_prop_of_true hlen]
      refine staysInside_map (outcome_filterSlice.imp (fun slice h => ?_) id id)
      exact (and_iff_left trivial).trans (allInside_cons.trans ((and_iff_left allInside_nil).trans h))
    · rw [if_neg hlen]
      exact iff_of_true ⟨allInside_nil, trivial⟩ (.inr fun h => absurd h hlen)
  all_goals exact iff_of_true ⟨allInside_nil, trivial⟩ (.inr trivial)

section Uses

variable {onAuth : OnAuth} {s : MqttServer} {id : SessionId} {session : MqttSession} {packet : Packet}

/-- What the handler does with the strings of a packet. The payload of a PUBLISH packet is read after the
    retain bit has been cleared. -/
def Uses (onAuth : OnAuth) (s : MqttServer) (id : SessionId) (session : MqttSession) (packet : Packet) :
    Except Stop PacketSlices → Prop
  | .ok (.connect slices) =>
    let server := s.modifySession id fun _ =>
      sessionWill packet.mem { session with version := connectVersion packet.mem packet.p } slices.will
    let conn := slices.conn packet.mem packet.p
    onMqttMessage onAuth s id packet = some (sessionSend server id .connack
      (0 :: (onAuth server id conn).code :: if conn.version = mqttProtocolV5 then [0] else []))
  | .ok (.publish slices) => ∃ s' before message, onMqttMessage onAuth s id packet = some s' ∧
      s'.log = s.log ++ before ++ [.onPublish id message] ∧
      message.topic = slices.topic.read packet.mem ∧ message.prop = readSlice packet.mem slices.prop ∧
      message.payload = slices.payload.read (if retainBit packet.mem then clearRetain packet.mem else packet.mem)
  | .ok (.filter topic) => ∃ s' before message after, onMqttMessage onAuth s id packet = some s' ∧
      (s'.log = s.log ++ before ++ .onSubscribe id message :: after ∨
        s'.log = s.log ++ before ++ .onUnsubscribe id message :: after) ∧
      message.topic = topic.read packet.mem
  | .ok .nothing => ∃ s', onMqttMessage onAuth s id packet = some s'
  | .error .rejected => ∃ s', onMqttMessage onAuth s id packet = some s' ∧ s'.log = s.log ∧
      s'.topicTree = s.topicTree
  | .error .null => onMqttMessage onAuth s id packet = none

theorem uses_map {α : Type} {walk : Except Stop α} {slices : α → PacketSlices}
    (h : Outcome walk (fun a => Uses onAuth s id session packet (.ok (slices a)))
      (Uses onAuth s id session packet (.error .rejected)) (Uses onAuth s id session packet (.error .null))) :
    Uses onAuth s id session packet (walk.map slices) := by
  rcases walk with (_ | _) | a
  · exact h
  · exact h
  · exact h

theorem uses_connect (htype : onMqttMessage onAuth s id packet =
      onConnect onAuth s id session packet.head packet.mem packet.p) : Uses onAuth s id session packet
      ((connectSlices packet.mem packet.p (packet.p + packet.head.length)).map .connect) := by
  unfold onConnect at htype
  refine uses_map ((outcome_readConnect session packet.head).imp (fun slices hread => ?_) ?_ fun hread => ?_)
  · rw [hread] at htype
    exact htype
  · rintro ⟨session', hread⟩
    rw [hread] at htype
    exact ⟨_, htype, rfl, rfl⟩
  · rw [hread] at htype
    exact htype

theorem uses_publish (htype : onMqttMessage onAuth s id packet =
      onPublishPacket s id session packet.head packet.mem packet.p) : Uses onAuth s id session packet
      ((publishSlices session.version packet.head packet.mem packet.p).map .publish) := by
  by_cases haccepted : PublishAccepted packet
  · rw [onPublishPacket_eq haccepted] at htype
    rw [publishSlices_eq haccepted]
    refine uses_map (.bind (outcome_propSlice fun _ hnone => ?_) fun ⟨prop, p⟩ hprop => ?_)
    · rw [hnone] at htype
      exact htype
    rw [hprop.parse, map_some] at htype
    obtain ⟨acks, hacks, -⟩ := sends_ackPublish s id session.version packet.head.qos.val (publishMid packet)
    obtain ⟨root, hstore, -⟩ := storeRetained_eq
      (ackPublish s id session.version packet.head.qos.val (publishMid packet))
      (popStr packet.mem packet.p).1 packet.head packet.mem (packet.p + packet.head.length)
      (publishPayloadLen packet p)
    obtain ⟨copies, hcopies, -⟩ := sends_serverPublish
      { ackPublish s id session.version packet.head.qos.val (publishMid packet) with topicTree := root }
      (publishMessage packet (readSlice packet.mem prop) p)
    refine ⟨_, acks ++ copies.flatMap Copy.writes, publishMessage packet (readSlice packet.mem prop) p,
      htype, ?_, rfl, rfl, rfl⟩
    rw [hstore, MqttServer.output, hcopies.log, hacks.log, ← append_assoc]
  · rw [publishSlices_of_rejected haccepted]
    exact ⟨_, htype.trans (onPublishPacket_of_not_accepted haccepted s id session), rfl, rfl⟩

theorem uses_subscribe (hlen : packet.head.length > 1) (htype : onMqttMessage onAuth s id packet =
      onSubscribePacket s id session packet.head packet.mem packet.p packet.uninit) :
    Uses onAuth s id session packet ((filterSlice session.version packet.mem packet.p).map .filter) := by
  have hstep : onSubscribePacket s id session packet.head packet.mem packet.p packet.uninit =
      (parseProp session.version packet.mem (packet.p + 2)).map _ := if_pos hlen
  refine uses_map (.bind (outcome_propSlice fun _ hnone => ?_) fun ⟨prop, p⟩ hprop => ?_)
  · rw [hstep, hnone] at htype
    exact htype
  obtain ⟨s', hs⟩ : ∃ s', onSubscribePacket s id session packet.head packet.mem packet.p packet.uninit = some s' := by
    rw [hstep, hprop.parse]
    exact ⟨_, rfl⟩
  obtain ⟨prop', p', data, sent, hread', -, hsent, hs'⟩ := onSubscribePacket_accepted hlen hs
  generalize (if s.isOpen id then _ else _) = suback at hsent
  obtain ⟨-, rfl⟩ := Prod.mk.inj (some.inj (hprop.parse.symm.trans hread'))
  obtain ⟨copies, hcopies, -⟩ := sends_sendRetained
    (subscribeSession sent id (popStr packet.mem p).1 (packet.mem (popStr packet.mem p).2).toNat) id
    (popStr packet.mem p).1 (packet.mem (popStr packet.mem p).2).toNat packet.uninit
  have hlog : (subscribeSession sent id (popStr packet.mem p).1
      (packet.mem (popStr packet.mem p).2).toNat).log = sent.log := rfl
  refine ⟨s', suback, {
    topic := (popStr packet.mem p).1
    payload := []
    qos := (packet.mem (popStr packet.mem p).2).toNat
    retain := false
    prop := [] }, copies.flatMap Copy.writes, htype.trans hs, .inl ?_, rfl⟩
  rw [hs', hcopies.log, hlog, hsent.log, append_assoc, append_assoc, append_assoc]
  rfl

theorem uses_unsubscribe (hlen : packet.head.length > 1) (htype : onMqttMessage onAuth s id packet =
      onUnsubscribePacket s id session packet.head packet.mem packet.p) :
    Uses onAuth s id session packet ((filterSlice session.version packet.mem packet.p).map .filter) := by
  have hstep : onUnsubscribePacket s id session packet.head packet.mem packet.p =
      (parseProp session.version packet.mem (packet.p + 2)).map _ := if_pos hlen
  rw [hstep] at htype
  refine uses_map (.bind (outcome_propSlice fun _ hnone => ?_) fun ⟨prop, p⟩ hprop => ?_)
  · rw [hnone] at htype
    exact htype
  rw [hprop.parse, map_some] at htype
  obtain ⟨headAck, rest, -, hack⟩ := sends_sendAck s id session.version .unsuback
    (pop16 packet.mem packet.p).1
  generalize (if s.isOpen id then _ else _) = unsuback at hack
  refine ⟨_, unsuback, { topic := (popStr packet.mem p).1, payload := [], qos := 0, retain := false, prop := [] },
    [], htype, .inr ?_, rfl⟩
  exact congrArg (· ++ _) hack.log

theorem uses_slices (hsession : s.sessions id = some session) :
    Uses onAuth s id session packet (packetSlices session.version packet) := by
  obtain ⟨head, mem, p, uninit⟩ := packet
  unfold packetSlices
  dsimp only
  cases htype : head.type <;> dsimp only
  case connect => exact uses_connect (by simp only [onMqttMessage, hsession, htype])
  case publish => exact uses_publish (by simp only [onMqttMessage, hsession, htype])
  case subscribe =>
    have hstep : onMqttMessage onAuth s id ⟨head, mem, p, uninit⟩ = onSubscribePacket s id session head mem p uninit := by
      simp only [onMqttMessage, hsession, htype]
    by_cases hlen : head.length > 1
    · rw [if_pos hlen]
      exact uses_subscribe hlen hstep
    · rw [if_neg hlen]
      exact ⟨s, hstep.trans (if_neg hlen)⟩
  case unsubscribe =>
    have hstep : onMqttMessage onAuth s id ⟨head, mem, p, uninit⟩ = onUnsubscribePacket s id session head mem p := by
      simp only [onMqttMessage, hsession, htype]
    by_cases hlen : head.length > 1
    · rw [if_pos hlen]
      exact uses_unsubscribe hlen hstep
    · rw [if_neg hlen]
      exact ⟨s, hstep.trans (if_neg hlen)⟩
  all_goals
    apply Exists.intro
    simp only [onMqttMessage, hsession, htype]
    rfl

end Uses

/-- The handler reads the strings of a packet from slices of memory. It rejects the packet, or all these slices
    are inside the body and the payload reaches to its end, exactly if it rejects the packet or the lengths in
    the packet fit. -/
theorem slices_inside_iff (onAuth : OnAuth) (s : MqttServer) (id : SessionId) {session : MqttSession}
    (hsession : s.sessions id = some session) {packet : Packet} (hlength : packet.head.length < 2 ^ 32) :
    Uses onAuth s id session packet (packetSlices session.version packet) ∧
      (StaysInside packet (packetSlices session.version packet) ↔
        packetSlices session.version packet = .error .rejected ∨ LengthsFit session.version packet) :=
  ⟨uses_slices hsession, staysInside_iff session.version hlength⟩

def oneSession : MqttServer :=
  { created := 1, sessions := Function.update (fun _ => none) 0 (some { tcp := true }) }

/-- The topic `a` and the payload `x` are inside the packet. -/
theorem slices_inside_publish : packetSlices mqttProtocolV311 (wirePacket [0x30, 4, 0, 1, 97, 120]) =
      .ok (.publish { topic := ⟨4, 1⟩, prop := none, payload := ⟨5, 1⟩ }) ∧
    StaysInside (wirePacket [0x30, 4, 0, 1, 97, 120])
      (packetSlices mqttProtocolV311 (wirePacket [0x30, 4, 0, 1, 97, 120])) := by
  refine ⟨by decide +kernel, ?_⟩
  refine (@slices_inside_iff acceptAll oneSession 0 { tcp := true } rfl
    (wirePacket [0x30, 4, 0, 1, 97, 120]) (by decide +kernel)).2.2 (.inr ?_)
  show PublishFits mqttProtocolV311 (wirePacket [0x30, 4, 0, 1, 97, 120])
  unfold PublishFits PropLeadsTo PropEnds
  decide +kernel

/-- A PUBLISH packet with the topic length 5 and nothing behind it: the topic is outside, and the length of the
    payload is 2 ^ 32 - 5. -/
theorem slices_outside_publish : ∃ slices, oneSession.sessions 0 = some { tcp := true } ∧
    (wirePacket [0x30, 2, 0, 5]).p = 2 ∧ (wirePacket [0x30, 2, 0, 5]).head.length = 2 ∧
    packetSlices mqttProtocolV311 (wirePacket [0x30, 2, 0, 5]) = .ok (.publish slices) ∧
    slices.topic = ⟨4, 5⟩ ∧ slices.payload = ⟨9, 2 ^ 32 - 5⟩ ∧
    ¬ StaysInside (wirePacket [0x30, 2, 0, 5])
      (packetSlices mqttProtocolV311 (wirePacket [0x30, 2, 0, 5])) := by
  have hslices : packetSlices mqttProtocolV311 (wirePacket [0x30, 2, 0, 5]) =
      .ok (.publish { topic := ⟨4, 5⟩, prop := none, payload := ⟨9, 2 ^ 32 - 5⟩ }) := by decide +kernel
  refine ⟨_, rfl, by decide +kernel, by decide +kernel, hslices, rfl, rfl, ?_⟩
  rintro ⟨hinside, -⟩
  have htopic := (hinside ⟨4, 5⟩ mem_cons_self).2
  exact absurd htopic (by decide +kernel)

/-! ## The properties that the client skips -/

/-- The length `L` of the properties is announced by `n` bytes at `p`. -/
def Announced (mem : PacketMem) (p : Int) (n L : Nat) : Prop :=
  ∃ w, Holds mem p w ∧ IsVarint w L ∧ w.length = n

theorem announced_of_skip {mem : PacketMem} {p pend p' : Int} (h : mqttV5SkipProperties mem p pend = some p') :
    ∃ n L, Announced mem p n L ∧ p' ≤ pend ∧ 0 < n ∧
      (L % 2 ^ 32 < 2 ^ 31 ∧ p' = p + n + (L % 2 ^ 32 : Nat) ∨
        2 ^ 31 ≤ L % 2 ^ 32 ∧ p' + 2 ^ 32 = p + n + (L % 2 ^ 32 : Nat)) := by
  unfold mqttV5SkipProperties at h
  dsimp only at h
  split_ifs at h with hnone hbytes hend
  have hp' := some.inj h
  obtain ⟨w, hshape, hlength, hbuf, hfits⟩ := exists_varintShape (mem.ptr p) (Int.not_le.1 hnone) 10 0 0
    (Int.le_of_lt (Int.not_le.1 hnone)) (Int.not_le.1 hbytes)
  have hholds : Holds mem p w := by
    intro i b hb
    rw [← hbuf i b hb, Nat.zero_add]
    rfl
  have hcode : IsVarint w (varintValue w) := ⟨hshape, hlength, rfl⟩
  obtain ⟨hn, hL⟩ := (decodes_varint hcode).complete (mem.ptr p) (pend - p) hholds (.inr (by omega))
  refine ⟨w.length, varintValue w, ⟨w, hholds, hcode, rfl⟩, by omega, hshape.length_pos, ?_⟩
  rw [hn, hL, Int.bmod_def] at hp'
  split_ifs at hp' <;> omega

theorem Announced.unique {mem : PacketMem} {p : Int} {n n' L L' : Nat} (h : Announced mem p n L)
    (h' : Announced mem p n' L') : n = n' ∧ L = L' := by
  obtain ⟨w, hw, hcode, rfl⟩ := h
  obtain ⟨w', hw', hcode', rfl⟩ := h'
  have hlength : (w.length : Int) = w'.length :=
    ((decodes_varint hcode).complete (mem.ptr p) 0 hw (.inl rfl)).1.symm.trans
      ((decodes_varint hcode').complete (mem.ptr p) 0 hw' (.inl rfl)).1
  obtain rfl : w = w' := by
    rw [← map_range_of_holds hw, ← map_range_of_holds hw', Int.ofNat_inj.1 hlength]
  exact ⟨rfl, hcode.2.2.trans hcode'.2.2.symm⟩

/-- Where the properties of a PUBLISH packet begin, behind the topic and the identifier. -/
def clientPropAt (cli : MqttClient) (mem : PacketMem) (p : Int) : Int :=
  p + 2 + (pop16 mem p).1 + if cli.head.qos.val > 0 then 2 else 0

theorem onPublish_payload {cli cli' : MqttClient} {mem : PacketMem} {p pend : Int} {out : List ClientOutput}
    (h : onPublish cli mem p pend = (cli', out)) (hout : .callback .publish ∈ out) :
    ∃ q, cli.skipProperties mem (clientPropAt cli mem p) pend = some q ∧ clientPropAt cli mem p ≤ pend ∧
      cli'.message.payloadLen = ((pend - q) % 2 ^ 32).toNat ∧
      cli'.message.payload = if cli'.message.payloadLen > 0 then some q else none := by
  have hclose : ClientOutput.callback .publish ∉ [ClientOutput.close] := by simp
  unfold onPublish at h
  simp only at h
  split_ifs at h with hlength htopic hshort hqos
  any_goals
    cases h
    exact absurd hout hclose
  all_goals
    split at h
    · cases h
      exact absurd hout hclose
    next q hskip =>
      cases h
      refine ⟨q, ?_, ?_, rfl, rfl⟩
      · simpa [clientPropAt, hqos, pop16, MqttClient.skipProperties, Int.add_assoc] using hskip
      · simp [clientPropAt, hqos, pop16] at htopic hshort ⊢
        omega

/-- `mqtt_v5_skip_properties` reads an announced length `L` of `n` bytes. It moves forward, inside the packet, exactly if
    `L`, as an `int`, is not negative or so small a negative number that the bytes of the length make up for it. The
    client's payload is a slice of the packet exactly if the pointer does not move to before the packet. -/
theorem skip_properties_iff (cli : MqttClient) (mem : PacketMem) (pend : Int) :
    (∀ p p', mqttV5SkipProperties mem p pend = some p' → ∃ n L, Announced mem p n L ∧
      (p < p' ∧ p' ≤ pend ↔ L % 2 ^ 32 < 2 ^ 31 ∨ 2 ^ 32 < n + L % 2 ^ 32)) ∧
    ∀ p cli' out q, 0 ≤ p → onPublish cli mem p pend = (cli', out) → .callback .publish ∈ out →
      cli'.message.payload = some q →
      (Slice.Inside ⟨q, cli'.message.payloadLen⟩ 0 pend ↔
        (cli.protocolVersion = mqttProtocolV5 → clientPropAt cli mem p < pend →
          ∃ n L, Announced mem (clientPropAt cli mem p) n L ∧
            (L % 2 ^ 32 < 2 ^ 31 ∨ (2 ^ 32 : Int) ≤ clientPropAt cli mem p + n + (L % 2 ^ 32 : Nat)))) := by
  constructor
  · intro p p' h
    obtain ⟨n, L, hannounced, hend, hn, hp'⟩ := announced_of_skip h
    exact ⟨n, L, hannounced, by omega⟩
  · intro p cli' out q hp h hout hq
    obtain ⟨q', hskip, hat, hlen, hpayload⟩ := onPublish_payload h hout
    rw [hpayload] at hq
    split_ifs at hq
    obtain rfl := some.inj hq
    have hpos : 0 ≤ clientPropAt cli mem p := by
      unfold clientPropAt
      split_ifs <;> omega
    unfold Inside
    unfold MqttClient.skipProperties at hskip
    split_ifs at hskip with hv5
    · obtain ⟨n, L, hannounced, hend, hn, hq'⟩ := announced_of_skip hskip
      simp only [hv5.1, hv5.2, hlen, forall_const]
      constructor
      · intro hinside
        exact ⟨n, L, hannounced, by omega⟩
      · rintro ⟨n', L', hannounced', hL⟩
        obtain ⟨rfl, rfl⟩ := hannounced.unique hannounced'
        omega
    · obtain rfl := some.inj hskip
      simp only [hlen]
      constructor
      · intro _ hversion hlt
        exact absurd ⟨hversion, hlt⟩ hv5
      · intro _
        omega

def skippingClient : MqttClient := { protocolVersion := mqttProtocolV5 }

def backwardProperties : List UInt8 := [0x30, 7, 0, 0, 0x80, 0x80, 0x80, 0x80, 8]

def twoProperties : PacketMem := .ofList [0x30, 6, 0, 0, 2, 1, 1, 120]

def publishClient : MqttClient := { skippingClient with head := { type := .publish, length := 6 } }

/-- Properties of two bytes, and the payload `x` behind them. -/
theorem skip_properties_two : ∃ cli' out, onPublish publishClient twoProperties 2 8 = (cli', out) ∧
    cli'.message.payload = some 7 ∧ Slice.Inside ⟨7, cli'.message.payloadLen⟩ 0 8 := by
  obtain ⟨hpayload, hout⟩ : (onPublish publishClient twoProperties 2 8).1.message.payload = some 7 ∧
      ClientOutput.callback .publish ∈ (onPublish publishClient twoProperties 2 8).2 := by decide +kernel
  have hat : clientPropAt publishClient twoProperties 2 = 4 := by decide +kernel
  have hcode : Announced twoProperties (clientPropAt publishClient twoProperties 2) 1 2 := by
    refine ⟨[2], ?_, ⟨show (2 : UInt8).toNat < 128 by decide, by decide, rfl⟩, rfl⟩
    rw [hat]
    rintro (_ | i) b hb <;> cases hb
    rfl
  generalize hpublish : onPublish publishClient twoProperties 2 8 = r at hpayload hout
  exact ⟨r.1, r.2, rfl, hpayload, ((skip_properties_iff publishClient twoProperties 8).2 2 r.1 r.2 7 (by decide)
    hpublish hout hpayload).2 fun _ _ => ⟨1, 2, hcode, .inl (by decide)⟩⟩

/-- A length of 2 ^ 31 is negative as an `int`: the payload begins 2 ^ 31 bytes before the end of the packet. -/
theorem properties_skipped_backwards :
    mqttV5SkipProperties (.ofList backwardProperties) 4 9 = some (9 - 2 ^ 31) ∧
    (onPacket skippingClient (.ofList backwardProperties) 9).2 = [.callback .publish] ∧
    (onPacket skippingClient (.ofList backwardProperties) 9).1.message.payload = some (9 - 2 ^ 31) ∧
    (onPacket skippingClient (.ofList backwardProperties) 9).1.message.payloadLen = 2 ^ 31 := by
  decide +kernel

end HvVerified.Mqtt
