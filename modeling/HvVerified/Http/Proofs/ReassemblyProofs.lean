import HvVerified.Http.Proofs.WebSocketProofs

/-!
# Proofs: from frames to messages

`messages` says which messages a sequence of frames carries. The receiver has one opcode and one buffer
for data and control frames: what it reports depends on these two only (`received_foldl`). A control
frame between the fragments of a message takes the opcode and ends the message, so that the receiver
reports the messages unless that happens to a message that counts (`reassembled_iff`). What `send`
writes has no control frames, and comes back as it was sent (`sent_received`).
-/

namespace HvVerified.Http.Proofs

open Base Lib Http List

/-! ## What the frames carry -/

/-- CLOSE, PING and PONG. -/
def WsOpcode.IsControl : WsOpcode → Prop
  | .continuation | .text | .binary => False
  | .close | .ping | .pong => True

instance : DecidablePred WsOpcode.IsControl
  | .continuation | .text | .binary => isFalse id
  | .close | .ping | .pong => isTrue trivial

abbrev Frame.IsControl (f : Frame) : Prop := WsOpcode.IsControl f.opcode

/-- Frames that RFC 6455 allows, after others that have left a message open or not. -/
def Legal : Bool → List Frame → Prop
  | _, [] => True
  | opened, f :: fs => f.payload.length < 2 ^ 63 ∧
    if f.IsControl then f.fin ∧ f.payload.length ≤ 125 ∧ Legal opened fs
    else (opened ↔ f.opcode = .continuation) ∧ Legal (!f.fin) fs

instance decidableLegal : ∀ opened fs, Decidable (Legal opened fs)
  | _, [] => inferInstanceAs (Decidable True)
  | opened, f :: fs =>
    have := decidableLegal opened fs
    have := decidableLegal (!f.fin) fs
    inferInstanceAs (Decidable (f.payload.length < 2 ^ 63 ∧
      if f.IsControl then f.fin ∧ f.payload.length ≤ 125 ∧ Legal opened fs
      else (opened ↔ f.opcode = .continuation) ∧ Legal (!f.fin) fs))

/-- The message a data frame belongs to, up to this frame: its opcode and the bytes. -/
def joined (opened : Option (Nat × ByteString)) (f : Frame) : Nat × ByteString :=
  match opened with
  | none => (f.opcode.code, f.payload)
  | some (opcode, m) => (opcode, m ++ f.payload)

/-- The messages in the order of their final frames. A data message has the opcode of its first fragment
    and the bytes of all of them; a control frame is a message of its own. -/
def messages : Option (Nat × ByteString) → List Frame → List (Nat × ByteString)
  | _, [] => []
  | opened, f :: fs =>
    if f.IsControl then (f.opcode.code, f.payload) :: messages opened fs
    else if f.fin then joined opened f :: messages none fs
    else messages (some (joined opened f)) fs

/-- The message that a frame leaves open. -/
def openAfter (opened : Option (Nat × ByteString)) (f : Frame) : Option (Nat × ByteString) :=
  if f.IsControl then opened else if f.fin then none else some (joined opened f)

def Unfinished (fs : List Frame) : Prop := ∀ f ∈ fs, f.fin → f.IsControl

instance (fs : List Frame) : Decidable (Unfinished fs) :=
  inferInstanceAs (Decidable (∀ f ∈ fs, f.fin → f.IsControl))

/-- There is a control frame inside a message only if the message has no bytes yet and is never
    finished. -/
def Uninterrupted : Option (Nat × ByteString) → List Frame → Prop
  | _, [] => True
  | opened, f :: fs => (f.IsControl → ∀ message ∈ opened, message.2 = [] ∧ Unfinished fs) ∧
    Uninterrupted (openAfter opened f) fs

instance decidableUninterrupted : ∀ opened fs, Decidable (Uninterrupted opened fs)
  | _, [] => inferInstanceAs (Decidable True)
  | opened, f :: fs =>
    have := decidableUninterrupted (openAfter opened f) fs
    inferInstanceAs (Decidable ((f.IsControl → ∀ message ∈ opened, message.2 = [] ∧ Unfinished fs) ∧
      Uninterrupted (openAfter opened f) fs))

/-! ## What the receiver reports -/

def pending (wp : WebSocketParser) : ByteString :=
  if wp.state = .frameBegin ∨ wp.state = .frameFin then [] else wp.message

def nextOpcode (opcode : Nat) (f : Frame) : Nat := if f.opcode.code ≠ 0 then f.opcode.code else opcode

/-- The messages of a receiver that has one opcode and one buffer. -/
def reported : Nat → ByteString → List Frame → List (Nat × ByteString)
  | _, _, [] => []
  | opcode, m, f :: fs =>
    if f.fin then (nextOpcode opcode f, m ++ f.payload) :: reported (nextOpcode opcode f) [] fs
    else reported (nextOpcode opcode f) (m ++ f.payload) fs

theorem received_foldl : ∀ (fs : List Frame) (wp : WebSocketParser),
    (fs.foldl afterFrame wp).received = wp.received ++ reported wp.opcode (pending wp) fs := by
  intro fs
  induction fs with
  | nil =>
    intro wp
    exact (append_nil _).symm
  | cons f fs ih =>
    intro wp
    rw [foldl_cons, ih, reported]
    unfold afterFrame
    by_cases hfin : f.fin
    · simp only [hfin, if_true, append_assoc]
      rfl
    · simp only [hfin]
      rfl

/-! ## Comparison -/

section Comparison

variable {f : Frame} {fs : List Frame} {o c : Nat} {m : ByteString}

theorem code_of_isControl {opcode : WsOpcode} (hcontrol : WsOpcode.IsControl opcode) : 8 ≤ opcode.code := by
  cases opcode <;> first | exact absurd hcontrol id | decide

theorem code_of_first {opcode : WsOpcode} (hdata : ¬ WsOpcode.IsControl opcode) (h : opcode ≠ .continuation) :
    opcode.code = 1 ∨ opcode.code = 2 := by
  cases opcode with
  | continuation => exact absurd rfl h
  | text => exact .inl rfl
  | binary => exact .inr rfl
  | close | ping | pong => exact absurd trivial hdata

theorem nextOpcode_of_isControl (hcontrol : f.IsControl) : nextOpcode c f = f.opcode.code :=
  if_pos (by have := code_of_isControl hcontrol; omega)

theorem nextOpcode_of_continuation (h : f.opcode = .continuation) : nextOpcode c f = c := by
  unfold nextOpcode
  rw [h]
  rfl

section Steps

variable {opened : Option (Nat × ByteString)}

theorem reported_eq_control (hcontrol : f.IsControl) (hfin : f.fin) :
    reported c m (f :: fs) = messages opened (f :: fs) ↔
      m = [] ∧ reported f.opcode.code [] fs = messages opened fs := by
  rw [reported, messages, if_pos hcontrol, if_pos hfin, nextOpcode_of_isControl hcontrol, cons.injEq,
    Prod.mk.injEq, append_left_eq_self]
  constructor
  · rintro ⟨⟨-, hm⟩, hrest⟩
    exact ⟨hm, hrest⟩
  · rintro ⟨hm, hrest⟩
    exact ⟨⟨rfl, hm⟩, hrest⟩

theorem uninterrupted_control_none (hcontrol : f.IsControl) :
    Uninterrupted none (f :: fs) ↔ Uninterrupted none fs := by
  rw [Uninterrupted, openAfter, if_pos hcontrol]
  exact and_iff_right fun _ message hm => nomatch hm

theorem uninterrupted_control_some (hcontrol : f.IsControl) :
    Uninterrupted (some (o, m)) (f :: fs) ↔ (m = [] ∧ Unfinished fs) ∧ Uninterrupted (some (o, m)) fs := by
  rw [Uninterrupted, openAfter, if_pos hcontrol]
  refine and_congr_left' ⟨fun h => h hcontrol (o, m) rfl, fun h _ message hm => ?_⟩
  cases hm
  exact h

theorem uninterrupted_data (hdata : ¬ f.IsControl) :
    Uninterrupted opened (f :: fs) ↔ Uninterrupted (if f.fin then none else some (joined opened f)) fs := by
  rw [Uninterrupted, openAfter, if_neg hdata]
  exact and_iff_right fun h => absurd h hdata

end Steps

/-- After a control frame inside a message the receiver has lost the opcode. -/
theorem reported_eq_of_lost : ∀ {fs : List Frame} {c o : Nat} {m : ByteString}, Legal true fs → o ≤ 2 → 8 ≤ c →
    (reported c m fs = messages (some (o, m)) fs ↔ Uninterrupted (some (o, m)) fs ∧ Unfinished fs) := by
  intro fs
  induction fs with
  | nil =>
    intro c o m _ _ _
    exact iff_of_true rfl ⟨trivial, fun f hf => absurd hf not_mem_nil⟩
  | cons f fs ih =>
    intro c o m hlegal ho hc
    obtain ⟨-, hlegal⟩ := hlegal
    rw [Unfinished, forall_mem_cons]
    by_cases hcontrol : f.IsControl
    · rw [if_pos hcontrol] at hlegal
      obtain ⟨hfin, -, hlegal⟩ := hlegal
      have hih := @ih f.opcode.code o [] hlegal ho (code_of_isControl hcontrol)
      rw [reported_eq_control hcontrol hfin, uninterrupted_control_some hcontrol]
      constructor
      · rintro ⟨rfl, hrest⟩
        obtain ⟨hun, hnone⟩ := hih.1 hrest
        exact ⟨⟨⟨rfl, hnone⟩, hun⟩, fun _ => hcontrol, hnone⟩
      · rintro ⟨⟨⟨rfl, -⟩, hun⟩, -, hnone⟩
        exact ⟨rfl, hih.2 ⟨hun, hnone⟩⟩
    · rw [if_neg hcontrol] at hlegal
      obtain ⟨hcont, hlegal⟩ := hlegal
      rw [reported, messages, uninterrupted_data hcontrol, if_neg hcontrol, nextOpcode_of_continuation (hcont.1 rfl)]
      by_cases hfin : f.fin
      · -- The message is reported with the opcode of the control frame.
        rw [if_pos hfin, if_pos hfin]
        constructor
        · intro hrest
          have hop : c = o := (Prod.mk.inj (cons.inj hrest).1).1
          omega
        · rintro ⟨-, hdone, -⟩
          exact absurd (hdone hfin) hcontrol
      · have hopened : (!f.fin) := by simpa using hfin
        rw [hopened] at hlegal
        rw [if_neg hfin, if_neg hfin, if_neg hfin]
        refine (ih hlegal ho hc).trans (and_congr_right fun _ => ?_)
        exact (and_iff_right fun h => absurd h hfin).symm

/-- The receiver has what belongs to the open message. -/
def InStep (opened : Option (Nat × ByteString)) (c : Nat) (m : ByteString) : Prop :=
  opened = none ∧ m = [] ∨ opened = some (c, m) ∧ c ≤ 2

theorem joined_of_inStep {opened : Option (Nat × ByteString)} (hstep : InStep opened c m) (hdata : ¬ f.IsControl)
    (hcont : opened.isSome ↔ f.opcode = .continuation) :
    joined opened f = (nextOpcode c f, m ++ f.payload) ∧ nextOpcode c f ≤ 2 := by
  obtain ⟨rfl, rfl⟩ | ⟨rfl, hle⟩ := hstep
  · have hfirst : f.opcode ≠ .continuation := fun h => absurd (hcont.2 h) (by decide)
    have hcode := code_of_first hdata hfirst
    rw [nextOpcode, if_pos (by omega)]
    exact ⟨rfl, by omega⟩
  · rw [nextOpcode_of_continuation (hcont.1 rfl)]
    exact ⟨rfl, hle⟩

theorem reported_eq_iff : ∀ {fs : List Frame} {opened : Option (Nat × ByteString)} {c : Nat} {m : ByteString},
    Legal opened.isSome fs → InStep opened c m →
    (reported c m fs = messages opened fs ↔ Uninterrupted opened fs) := by
  intro fs
  induction fs with
  | nil =>
    intro opened c m _ _
    exact iff_of_true rfl trivial
  | cons f fs ih =>
    intro opened c m hlegal hstep
    obtain ⟨-, hlegal⟩ := hlegal
    by_cases hcontrol : f.IsControl
    · rw [if_pos hcontrol] at hlegal
      obtain ⟨hfin, -, hlegal⟩ := hlegal
      rw [reported_eq_control hcontrol hfin]
      obtain ⟨rfl, rfl⟩ | ⟨rfl, hle⟩ := hstep
      · rw [uninterrupted_control_none hcontrol, ih hlegal (.inl ⟨rfl, rfl⟩)]
        exact and_iff_right rfl
      · -- The control frame ends the message for the receiver.
        have hlost := @reported_eq_of_lost fs f.opcode.code c [] hlegal hle (code_of_isControl hcontrol)
        rw [uninterrupted_control_some hcontrol]
        constructor
        · rintro ⟨rfl, hrest⟩
          obtain ⟨hun, hnone⟩ := hlost.1 hrest
          exact ⟨⟨rfl, hnone⟩, hun⟩
        · rintro ⟨⟨rfl, hnone⟩, hun⟩
          exact ⟨rfl, hlost.2 ⟨hun, hnone⟩⟩
    · rw [if_neg hcontrol] at hlegal
      obtain ⟨hcont, hlegal⟩ := hlegal
      obtain ⟨hjoined, hle⟩ := joined_of_inStep hstep hcontrol hcont
      rw [reported, messages, uninterrupted_data hcontrol, if_neg hcontrol, hjoined]
      by_cases hfin : f.fin
      · rw [hfin] at hlegal
        rw [if_pos hfin, if_pos hfin, if_pos hfin, cons.injEq, @ih none _ _ hlegal (.inl ⟨rfl, rfl⟩)]
        exact and_iff_right rfl
      · have hopened : (!f.fin) := by simpa using hfin
        rw [hopened] at hlegal
        rw [if_neg hfin, if_neg hfin, if_neg hfin]
        exact ih hlegal (.inr ⟨rfl, hle⟩)

end Comparison

theorem length_of_legal : ∀ {fs : List Frame} {opened : Bool}, Legal opened fs →
    ∀ f ∈ fs, f.payload.length < 2 ^ 63 := by
  intro fs
  induction fs with
  | nil =>
    intro opened _ f hf
    exact absurd hf not_mem_nil
  | cons g fs ih =>
    intro opened hlegal
    obtain ⟨hlen, hlegal⟩ := hlegal
    refine forall_mem_cons.2 ⟨hlen, ?_⟩
    split_ifs at hlegal with hcontrol
    · exact ih hlegal.2.2
    · exact ih hlegal.2

/-- What a new receiver does with the bytes of frames, in whatever pieces they come. -/
theorem feed_pieces {fs : List Frame} {pieces : List (List UInt8)} (hlen : ∀ f ∈ fs, f.payload.length < 2 ^ 63)
    (hpieces : pieces.flatten = fs.flatMap Frame.encode) :
    ∃ wp, wp.received = reported 8 [] fs ∧ pieces.foldlM feedRecvData {} =
      if ∃ f ∈ fs, WrapsInt f.payload.length then none else some wp := by
  have hlen : ∀ f ∈ fs, f.payload.length < 2 ^ 64 := fun f hf => Nat.lt_trans (hlen f hf) (by decide)
  obtain ⟨parser, -, hfed⟩ := @feed_frames fs {} rfl hlen
  rw [← hpieces, ← feed_flatten (.inl rfl)] at hfed
  exact ⟨{ fs.foldl afterFrame {} with parser }, received_foldl fs {}, hfed⟩

/-- A receiver that gets the bytes of the frames in pieces reports the messages iff no length wraps around
    and no message that counts is interrupted. -/
theorem reassembled_iff {fs : List Frame} {pieces : List (List UInt8)} (hlegal : Legal false fs)
    (hpieces : pieces.flatten = fs.flatMap Frame.encode) :
    (∃ wp, pieces.foldlM feedRecvData {} = some wp ∧ wp.received = messages none fs) ↔
      (∀ f ∈ fs, ¬ WrapsInt f.payload.length) ∧ Uninterrupted none fs := by
  obtain ⟨wp, hreceived, hfed⟩ := feed_pieces (length_of_legal hlegal) hpieces
  have hmatch := @reported_eq_iff fs none 8 [] hlegal (.inl ⟨rfl, rfl⟩)
  rw [hfed]
  by_cases hwraps : ∃ f ∈ fs, WrapsInt f.payload.length
  · rw [if_pos hwraps]
    obtain ⟨f, hf, hwraps⟩ := hwraps
    constructor
    · rintro ⟨wp, hwp, -⟩
      cases hwp
    · rintro ⟨hnone, -⟩
      exact absurd hwraps (hnone f hf)
  · rw [if_neg hwraps]
    constructor
    · rintro ⟨wp, hwp, hmessages⟩
      cases hwp
      exact ⟨fun f hf h => hwraps ⟨f, hf, h⟩, hmatch.1 (hreceived.symm.trans hmessages)⟩
    · rintro ⟨-, hun⟩
      exact ⟨wp, rfl, hreceived.trans (hmatch.2 hun)⟩

def fragmentsThenPing : List Frame :=
  [⟨false, .text, some fun i => UInt8.ofNat i, [97, 98]⟩, ⟨true, .continuation, none, [99]⟩, ⟨true, .ping, none, [112]⟩]

theorem reassembled_before_ping :
    ∃ wp, [[0x01], [0x82, 0, 1, 2, 3, 97], [99, 0x80, 1, 99, 0x89], [1, 112]].foldlM feedRecvData {} = some wp ∧
      wp.received = [(1, [97, 98, 99]), (9, [112])] := by
  have hlegal : Legal false fragmentsThenPing := by decide
  have hun : Uninterrupted none fragmentsThenPing := by decide
  exact (reassembled_iff hlegal (by decide)).2 ⟨by decide, hun⟩

def pingBetweenFragments : List Frame :=
  [⟨false, .text, none, [97]⟩, ⟨true, .ping, none, [112]⟩, ⟨true, .continuation, none, [98]⟩]

/-- The PING gets the bytes of the first fragment, and the rest of the message is reported as a PING. -/
theorem reassembled_wrong_between :
    Legal false pingBetweenFragments ∧ messages none pingBetweenFragments = [(9, [112]), (1, [97, 98])] ∧
      ([pingBetweenFragments.flatMap Frame.encode].foldlM feedRecvData {}).map WebSocketParser.received =
        some [(9, [97, 112]), (9, [98])] := by
  decide +kernel

/-! ## What `send` writes -/

section Send

open WebSocketChannel

variable {rand : Nat → WsMask} {channel : WebSocketChannel} {buf : List UInt8} {opcode : WsOpcode} {fin : Bool}

def frameOf (rand : Nat → WsMask) (channel : WebSocketChannel) (buf : List UInt8) (opcode : WsOpcode) (fin : Bool) :
    Frame where
  fin := fin
  opcode := opcode
  mask := if channel.type = .client then some (rand channel.rands) else none
  payload := buf

theorem frame0_eq (fin : Bool) (opcode : WsOpcode) :
    ((if fin then 0x80 else 0) ||| UInt8.ofNat (opcode.code % 16) : UInt8) =
      UInt8.ofNat (fin.toNat * 128 + opcode.code) := by
  cases fin <;> cases opcode <;> rfl

theorem frame1_eq (hasMask : Bool) {n : Nat} (hn : n < 128) :
    ((if hasMask then 0x80 else 0) ||| UInt8.ofNat n : UInt8) = UInt8.ofNat (hasMask.toNat * 128 + n) := by
  revert n
  cases hasMask <;> decide

theorem head_eq (f : Frame) : f.head ++ extendedLength f.payload.length =
    if f.payload.length < 126 then
      [UInt8.ofNat (f.fin.toNat * 128 + f.opcode.code),
        UInt8.ofNat (f.mask.isSome.toNat * 128 + f.payload.length)]
    else if f.payload.length ≤ 0xFFFF then
      [UInt8.ofNat (f.fin.toNat * 128 + f.opcode.code), UInt8.ofNat (f.mask.isSome.toNat * 128 + 126)] ++
        bigEndian 2 f.payload.length
    else
      [UInt8.ofNat (f.fin.toNat * 128 + f.opcode.code), UInt8.ofNat (f.mask.isSome.toNat * 128 + 127)] ++
        bigEndian 8 f.payload.length := by
  unfold Frame.head lengthCode extendedLength
  split_ifs <;> rfl

theorem websocketBuildFrame_eq (hasMask : Bool) (mask : WsMask) :
    websocketBuildFrame opcode.code fin hasMask mask buf =
      Frame.encode ⟨fin, opcode, if hasMask then some mask else none, buf⟩ := by
  have htwo : bigEndian 2 buf.length = [UInt8.ofNat (buf.length >>> 8), UInt8.ofNat buf.length] := by
    simp [bigEndian, Nat.shiftRight_eq_div_pow]
  have height : bigEndian 8 buf.length = [UInt8.ofNat (buf.length >>> 56), UInt8.ofNat (buf.length >>> 48),
      UInt8.ofNat (buf.length >>> 40), UInt8.ofNat (buf.length >>> 32), UInt8.ofNat (buf.length >>> 24),
      UInt8.ofNat (buf.length >>> 16), UInt8.ofNat (buf.length >>> 8), UInt8.ofNat buf.length] := by
    simp [bigEndian, Nat.shiftRight_eq_div_pow, Nat.div_div_eq_div_mul]
  have hmask : (if hasMask then some mask else none).isSome = hasMask := by cases hasMask <;> rfl
  have hrest : (Frame.key ⟨fin, opcode, if hasMask then some mask else none, buf⟩ ++
      Frame.masked ⟨fin, opcode, if hasMask then some mask else none, buf⟩) =
      if hasMask then [mask 0, mask 1, mask 2, mask 3] ++ xorKey mask 0 buf else buf := by
    cases hasMask <;> rfl
  unfold websocketBuildFrame Frame.encode
  rw [append_assoc, hrest, head_eq]
  dsimp only
  rw [frame0_eq, hmask, htwo, height]
  congr 1
  by_cases hsmall : buf.length < 126
  · rw [if_pos hsmall, if_pos hsmall, frame1_eq hasMask (by omega)]
  · rw [if_neg hsmall, if_neg hsmall, ← @frame1_eq hasMask 126 (by decide), ← @frame1_eq hasMask 127 (by decide)]
    rfl

theorem length_encode (f : Frame) : f.encode.length = wsCalcFrameSize f.payload.length f.mask.isSome := by
  have hkey : f.key.length = if f.mask.isSome then 4 else 0 := by
    unfold Frame.key
    cases f.mask <;> rfl
  rw [Frame.encode, length_append, length_append, head_eq, length_masked, hkey]
  unfold wsCalcFrameSize
  split_ifs <;> simp <;> omega

theorem sendFrame_sent : (sendFrame rand channel buf opcode fin).2 = (frameOf rand channel buf opcode fin).encode := by
  have hbuild : websocketBuildFrame opcode.code fin (channel.type = .client)
      (if decide (channel.type = .client) then rand channel.rands else fun _ => 0) buf =
      (frameOf rand channel buf opcode fin).encode := by
    rw [websocketBuildFrame_eq, frameOf]
    by_cases hclient : channel.type = .client <;> simp [hclient]
  have hsize : wsCalcFrameSize buf.length (decide (channel.type = .client)) =
      (frameOf rand channel buf opcode fin).encode.length := by
    rw [length_encode, frameOf]
    by_cases hclient : channel.type = .client <;> simp [hclient]
  unfold sendFrame
  dsimp only
  rw [hbuild, hsize]
  exact take_left

/-! ## The fragments of a message -/

/-- Data frames that complete the open message. -/
structure Completes (opened : Option (Nat × ByteString)) (fs : List Frame) (message : Nat × ByteString) : Prop where
  legal : ∀ {gs}, Legal false gs → Legal opened.isSome (fs ++ gs)
  messages : ∀ gs, messages opened (fs ++ gs) = message :: messages none gs
  plain : ∀ f ∈ fs, ¬ f.IsControl ∧ ¬ WrapsInt f.payload.length

variable {opened : Option (Nat × ByteString)} {f : Frame} {fs : List Frame} {message : Nat × ByteString}

theorem not_wrapsInt_of_le {n : Nat} (h : n ≤ 0xFFFF) : ¬ WrapsInt n := by
  unfold WrapsInt
  omega

theorem completes_singleton (hdata : ¬ f.IsControl) (hcont : opened.isSome ↔ f.opcode = .continuation)
    (hfin : f.fin) (hlen : f.payload.length ≤ 0xFFFF) : Completes opened [f] (joined opened f) where
  legal hgs := by
    rw [singleton_append, Legal, if_neg hdata, hfin]
    exact ⟨by omega, hcont, hgs⟩
  messages gs := by
    rw [singleton_append, Proofs.messages, if_neg hdata, if_pos hfin]
  plain := forall_mem_singleton.2 ⟨hdata, not_wrapsInt_of_le hlen⟩

theorem completes_cons (hdata : ¬ f.IsControl) (hcont : opened.isSome ↔ f.opcode = .continuation)
    (hfin : f.fin = false) (hlen : f.payload.length ≤ 0xFFFF) (h : Completes (some (joined opened f)) fs message) :
    Completes opened (f :: fs) message where
  legal hgs := by
    rw [cons_append, Legal, if_neg hdata, hfin]
    exact ⟨by omega, hcont, h.legal hgs⟩
  messages gs := by
    have hmore : ¬ f.fin := by simp [hfin]
    rw [cons_append, Proofs.messages, if_neg hdata, if_neg hmore, h.messages]
  plain := forall_mem_cons.2 ⟨⟨hdata, not_wrapsInt_of_le hlen⟩, h.plain⟩

/-- The frames of a buffer that goes out in pieces of at most 65535 bytes. -/
inductive Fragments : WsOpcode → Bool → ByteString → List Frame → Prop
  | last {f : Frame} (hlen : f.payload.length ≤ 0xFFFF) : Fragments f.opcode f.fin f.payload [f]
  | more {f : Frame} {fs : List Frame} {fin : Bool} {rest : ByteString} (hlen : f.payload.length ≤ 0xFFFF)
      (hfin : f.fin = false) (h : Fragments .continuation fin rest fs) :
      Fragments f.opcode fin (f.payload ++ rest) (f :: fs)

theorem sendFrame_fragments (hlen : buf.length ≤ 0xFFFF) :
    ∃ fs : List Frame, (sendFrame rand channel buf opcode fin).2 = fs.flatMap Frame.encode ∧
      Fragments opcode fin buf fs := by
  refine ⟨[frameOf rand channel buf opcode fin], ?_, @Fragments.last (frameOf rand channel buf opcode fin) hlen⟩
  rw [sendFrame_sent, flatMap_singleton]

/-- The first 65535 bytes, and what is written behind them. -/
theorem fragments_take {sent : List UInt8}
    (hrest : ∃ fs : List Frame, sent = fs.flatMap Frame.encode ∧ Fragments .continuation fin (buf.drop 0xFFFF) fs) :
    ∃ fs : List Frame, (sendFrame rand channel (buf.take 0xFFFF) opcode false).2 ++ sent = fs.flatMap Frame.encode ∧
      Fragments opcode fin buf fs := by
  obtain ⟨fs, hsent, hfs⟩ := hrest
  have hmore : Fragments opcode fin (buf.take 0xFFFF ++ buf.drop 0xFFFF)
      (frameOf rand channel (buf.take 0xFFFF) opcode false :: fs) :=
    @Fragments.more (frameOf rand channel (buf.take 0xFFFF) opcode false) _ _ _ (length_take_le _ _) rfl hfs
  rw [take_append_drop] at hmore
  exact ⟨_, by rw [sendFrame_sent, hsent, flatMap_cons], hmore⟩

theorem sendRest_fragments : ∀ {n : Nat} {channel : WebSocketChannel} {p : List UInt8}, p.length ≤ n →
    ∃ fs : List Frame, (sendRest rand 0xFFFF n channel p).2 = fs.flatMap Frame.encode ∧
      Fragments .continuation true p fs := by
  intro n
  induction n with
  | zero =>
    intro channel p hp
    exact sendFrame_fragments (hp.trans (Nat.zero_le _))
  | succ n ih =>
    intro channel p hp
    rw [sendRest]
    by_cases hlong : p.length > 0xFFFF
    · rw [if_pos hlong]
      exact fragments_take (ih (by rw [length_drop]; omega))
    · rw [if_neg hlong]
      exact sendFrame_fragments (Nat.not_lt.1 hlong)

/-- A buffer that is cut ends the message, whatever `fin` says. -/
theorem send_fragments : ∃ fs : List Frame, (send rand channel buf opcode fin).2 = fs.flatMap Frame.encode ∧
    Fragments opcode (fin || buf.length > 0xFFFF) buf fs := by
  unfold send
  by_cases hlong : buf.length > 0xFFFF
  · rw [if_pos hlong, sendFragments, if_neg (Nat.not_le.2 hlong), decide_eq_true hlong, Bool.or_true]
    exact fragments_take (sendRest_fragments (by rw [length_drop]; omega))
  · rw [if_neg hlong, decide_eq_false hlong, Bool.or_false]
    exact sendFrame_fragments (Nat.not_lt.1 hlong)

theorem completes_of_fragments (hfs : Fragments opcode fin buf fs) (hfin : fin) :
    ∀ {opened : Option (Nat × ByteString)}, ¬ WsOpcode.IsControl opcode →
      (opened.isSome ↔ opcode = .continuation) → Completes opened fs (joined opened ⟨true, opcode, none, buf⟩) := by
  induction hfs with
  | last hlen =>
    intro opened hdata hcont
    exact completes_singleton hdata hcont hfin hlen
  | @more f fs fin rest hlen hmore _ ih =>
    intro opened hdata hcont
    have hjoined : joined (some (joined opened f)) ⟨true, .continuation, none, rest⟩ =
        joined opened ⟨true, f.opcode, none, f.payload ++ rest⟩ := by
      cases opened with
      | none => rfl
      | some message => exact congrArg (Prod.mk message.1) (append_assoc _ _ _)
    exact hjoined ▸ completes_cons hdata hcont hmore hlen (ih hfin id (iff_of_true rfl rfl))

theorem send_completes (hdata : ¬ WsOpcode.IsControl opcode) (hfirst : opcode ≠ .continuation) :
    ∃ fs : List Frame, (send rand channel buf opcode true).2 = fs.flatMap Frame.encode ∧
      Completes none fs (opcode.code, buf) := by
  obtain ⟨fs, hsent, hfs⟩ := @send_fragments rand channel buf opcode true
  exact ⟨fs, hsent, completes_of_fragments hfs rfl hdata (iff_of_false (by decide) hfirst)⟩

/-! ## Messages sent one after another -/

theorem sendAll_frames : ∀ {sent : List (WsOpcode × ByteString)} {channel : WebSocketChannel},
    (∀ message ∈ sent, message.1 = .text ∨ message.1 = .binary) →
    ∃ fs : List Frame, (sendAll rand channel sent).2 = fs.flatMap Frame.encode ∧ Legal false fs ∧
      messages none fs = sent.map (fun message => (message.1.code, message.2)) ∧
      ∀ f ∈ fs, ¬ f.IsControl ∧ ¬ WrapsInt f.payload.length := by
  intro sent
  induction sent with
  | nil =>
    intro channel _
    exact ⟨[], rfl, trivial, rfl, fun f hf => absurd hf not_mem_nil⟩
  | cons message sent ih =>
    intro channel hsent
    obtain ⟨opcode, buf⟩ := message
    obtain ⟨hmessage, hsent⟩ := forall_mem_cons.1 hsent
    have hdata : ¬ WsOpcode.IsControl opcode ∧ opcode ≠ .continuation := by
      rcases hmessage with rfl | rfl <;> decide
    obtain ⟨fs, hbytes, hcompletes⟩ := @send_completes rand channel buf opcode hdata.1 hdata.2
    obtain ⟨gs, hrest, hlegal, hmessages, hplain⟩ := @ih (send rand channel buf opcode true).1 hsent
    refine ⟨fs ++ gs, ?_, hcompletes.legal hlegal, ?_, ?_⟩
    · rw [sendAll, flatMap_append, ← hbytes, ← hrest]
    · rw [hcompletes.messages, hmessages, map_cons]
    · exact forall_mem_append.2 ⟨hcompletes.plain, hplain⟩

theorem uninterrupted_of_data : ∀ {fs : List Frame} {opened : Option (Nat × ByteString)},
    (∀ f ∈ fs, ¬ f.IsControl) → Uninterrupted opened fs := by
  intro fs
  induction fs with
  | nil =>
    intro opened _
    trivial
  | cons f fs ih =>
    intro opened hdata
    obtain ⟨hf, hfs⟩ := forall_mem_cons.1 hdata
    exact ⟨fun h => absurd h hf, ih hfs⟩

/-- The peer gets the messages that were sent, however the bytes are split. -/
theorem sent_received (rand : Nat → WsMask) (channel : WebSocketChannel) {sent : List (WsOpcode × ByteString)}
    (hsent : ∀ message ∈ sent, message.1 = .text ∨ message.1 = .binary) {pieces : List (List UInt8)}
    (hpieces : pieces.flatten = (sendAll rand channel sent).2) :
    ∃ wp, pieces.foldlM feedRecvData {} = some wp ∧
      wp.received = sent.map fun message => (message.1.code, message.2) := by
  obtain ⟨fs, hbytes, hlegal, hmessages, hplain⟩ := @sendAll_frames rand sent channel hsent
  obtain ⟨wp, hreceived, hfed⟩ := feed_pieces (length_of_legal hlegal) (hpieces.trans hbytes)
  have hmatch := @reported_eq_iff fs none 8 [] hlegal (.inl ⟨rfl, rfl⟩)
  have hun : Uninterrupted none fs := uninterrupted_of_data fun f hf => (hplain f hf).1
  have hwraps : ¬ ∃ f ∈ fs, WrapsInt f.payload.length := by
    rintro ⟨f, hf, hf'⟩
    exact (hplain f hf).2 hf'
  rw [if_neg hwraps] at hfed
  exact ⟨wp, hfed, hreceived.trans ((hmatch.2 hun).trans hmessages)⟩

theorem sent_received_masked :
    ∃ wp, [[0x81, 0x81, 0, 1], [2, 3, 97, 0x82], [0x80, 1, 2, 3, 4]].foldlM feedRecvData {} = some wp ∧
      wp.received = [(1, [97]), (2, [])] :=
  @sent_received (fun n i => UInt8.ofNat (n + i)) { type := .client } [(.text, [97]), (.binary, [])] (by decide) _
    (by decide)

/-! ## A message in several buffers -/

theorem short_of_fragments (hfs : Fragments opcode fin buf fs) : ∀ f ∈ fs, f.payload.length ≤ 0xFFFF := by
  induction hfs with
  | last hlen => exact forall_mem_singleton.2 hlen
  | more hlen _ _ ih => exact forall_mem_cons.2 ⟨hlen, ih⟩

theorem fin_of_fragments (hfs : Fragments opcode fin buf fs) : ∃ n, fs.map Frame.fin = replicate n false ++ [fin] := by
  induction hfs with
  | last _ => exact ⟨0, rfl⟩
  | more _ hfin _ ih =>
    obtain ⟨n, hn⟩ := ih
    exact ⟨n + 1, by rw [map_cons, hfin, hn, replicate_succ, cons_append]⟩

def nextCode (c : Nat) (opcode : WsOpcode) : Nat := if opcode.code ≠ 0 then opcode.code else c

theorem reported_fragments (hfs : Fragments opcode fin buf fs) : ∀ (c : Nat) (m : ByteString) (gs : List Frame),
    reported c m (fs ++ gs) =
      if fin then (nextCode c opcode, m ++ buf) :: reported (nextCode c opcode) [] gs
      else reported (nextCode c opcode) (m ++ buf) gs := by
  induction hfs with
  | last _ =>
    intro c m gs
    rfl
  | more _ hfin _ ih =>
    intro c m gs
    rw [cons_append, reported, hfin, if_neg Bool.false_ne_true, ih, append_assoc]
    rfl

def streamed : Nat → ByteString → WsOpcode → List ByteString → List (Nat × ByteString)
  | _, _, _, [] => []
  | c, m, opcode, b :: bufs =>
    if bufs.isEmpty || b.length > 0xFFFF then
      (nextCode c opcode, m ++ b) :: streamed (nextCode c opcode) [] .continuation bufs
    else streamed (nextCode c opcode) (m ++ b) .continuation bufs

theorem sendStream_frames : ∀ {bufs : List ByteString} {b : ByteString} {channel : WebSocketChannel}
    {opcode : WsOpcode}, ∃ fs : List Frame,
      (sendStream rand channel opcode (b :: bufs)).2 = fs.flatMap Frame.encode ∧
      (∀ f ∈ fs, f.payload.length ≤ 0xFFFF) ∧ (∀ c m, reported c m fs = streamed c m opcode (b :: bufs)) ∧
      ((∀ a ∈ (b :: bufs).dropLast, a.length ≤ 0xFFFF) → ∃ n, fs.map Frame.fin = replicate n false ++ [true]) := by
  intro bufs
  induction bufs with
  | nil =>
    intro b channel opcode
    obtain ⟨fs, hsent, hfs⟩ := @send_fragments rand channel b opcode true
    refine ⟨fs, (append_nil _).trans hsent, short_of_fragments hfs, fun c m => ?_, fun _ => fin_of_fragments hfs⟩
    rw [← append_nil fs, reported_fragments hfs]
    rfl
  | cons b' bufs ih =>
    intro b channel opcode
    obtain ⟨fs, hsent, hfs⟩ := @send_fragments rand channel b opcode false
    obtain ⟨gs, hrest, hshort, hreported, hfins⟩ := @ih b' (send rand channel b opcode false).1 .continuation
    refine ⟨fs ++ gs, ?_, forall_mem_append.2 ⟨short_of_fragments hfs, hshort⟩, fun c m => ?_, fun hbufs => ?_⟩
    · rw [flatMap_append, ← hsent, ← hrest]
      rfl
    · rw [reported_fragments hfs, streamed, hreported, hreported]
      rfl
    · rw [dropLast_cons_cons, forall_mem_cons] at hbufs
      obtain ⟨hb, hbufs⟩ := hbufs
      obtain ⟨n, hn⟩ := fin_of_fragments hfs
      obtain ⟨k, hk⟩ := hfins hbufs
      refine ⟨n + 1 + k, ?_⟩
      rw [map_append, hn, hk, decide_eq_false (Nat.not_lt.2 hb), replicate_add, replicate_succ']
      exact (append_assoc _ _ _).symm

theorem streamed_cons_ne_nil : ∀ {bufs : List ByteString} {b : ByteString} {c : Nat} {m : ByteString}
    {opcode : WsOpcode}, streamed c m opcode (b :: bufs) ≠ [] := by
  intro bufs
  induction bufs with
  | nil =>
    intro b c m opcode
    exact cons_ne_nil _ _
  | cons b' bufs ih =>
    intro b c m opcode
    rw [streamed]
    split_ifs
    · exact cons_ne_nil _ _
    · exact ih

/-- The message comes as one iff no buffer but the last is cut. -/
theorem streamed_eq_iff {code : Nat} : ∀ {bufs : List ByteString} {b : ByteString} {c : Nat} {m : ByteString}
    {opcode : WsOpcode}, streamed c m opcode (b :: bufs) = [(code, m ++ (b :: bufs).flatten)] ↔
      nextCode c opcode = code ∧ ∀ a ∈ (b :: bufs).dropLast, a.length ≤ 0xFFFF := by
  intro bufs
  induction bufs with
  | nil =>
    intro b c m opcode
    simp [streamed]
  | cons b' bufs ih =>
    intro b c m opcode
    rw [streamed, isEmpty_cons, Bool.false_or, dropLast_cons_cons, forall_mem_cons]
    by_cases hlong : b.length > 0xFFFF
    · rw [if_pos (decide_eq_true hlong)]
      exact iff_of_false (fun h => streamed_cons_ne_nil (cons.inj h).2) fun h => absurd h.2.1 (Nat.not_le.2 hlong)
    · rw [decide_eq_false hlong, if_neg Bool.false_ne_true, flatten_cons, ← append_assoc, ih]
      exact and_congr_right fun _ => (and_iff_right (Nat.not_lt.1 hlong)).symm

theorem stream_received {b : ByteString} {bufs : List ByteString} {pieces : List (List UInt8)}
    (hpieces : pieces.flatten = (sendStream rand channel opcode (b :: bufs)).2) :
    ∃ wp, pieces.foldlM feedRecvData {} = some wp ∧ wp.received = streamed 8 [] opcode (b :: bufs) := by
  obtain ⟨fs, hsent, hshort, hreported, -⟩ := @sendStream_frames rand bufs b channel opcode
  have hlen : ∀ f ∈ fs, f.payload.length < 2 ^ 63 := fun f hf => (hshort f hf).trans_lt (by decide)
  obtain ⟨wp, hreceived, hfed⟩ := feed_pieces hlen (hpieces.trans hsent)
  have hwraps : ¬ ∃ f ∈ fs, WrapsInt f.payload.length := by
    rintro ⟨f, hf, hf'⟩
    exact not_wrapsInt_of_le (hshort f hf) hf'
  rw [if_neg hwraps] at hfed
  exact ⟨wp, hfed, hreceived.trans (hreported 8 [])⟩

/-- Only the last frame of a message has FIN and the peer gets the message, iff the message has an opcode and
    none of its buffers but the last is longer than 65535 bytes. -/
theorem stream_one_message_iff (rand : Nat → WsMask) (channel : WebSocketChannel) (opcode : WsOpcode)
    {bufs : List ByteString} (hbufs : bufs ≠ []) {pieces : List (List UInt8)}
    (hpieces : pieces.flatten = (sendStream rand channel opcode bufs).2) :
    (∃ (fs : List Frame) (n : Nat), pieces.flatten = fs.flatMap Frame.encode ∧
      fs.map Frame.fin = replicate n false ++ [true]) ∧
      (∃ wp, pieces.foldlM feedRecvData {} = some wp ∧ wp.received = [(opcode.code, bufs.flatten)]) ↔
    opcode ≠ .continuation ∧ ∀ b ∈ bufs.dropLast, b.length ≤ 0xFFFF := by
  obtain ⟨b, bufs, rfl⟩ := exists_cons_of_ne_nil hbufs
  obtain ⟨wp, hfed, hreceived⟩ := stream_received hpieces
  have hcode : nextCode 8 opcode = opcode.code ↔ opcode ≠ .continuation := by cases opcode <;> decide
  rw [hpieces, hfed, ← hcode, ← streamed_eq_iff, nil_append]
  constructor
  · rintro ⟨-, _, hwp, hone⟩
    cases hwp
    exact hreceived.symm.trans hone
  · intro hone
    obtain ⟨fs, hsent, -, -, hfins⟩ := @sendStream_frames rand bufs b channel opcode
    obtain ⟨n, hn⟩ := hfins (streamed_eq_iff.1 hone).2
    exact ⟨⟨fs, n, hsent, hn⟩, wp, rfl, hreceived.trans hone⟩

theorem stream_one_message_small : ∃ wp, [[0x01, 1], [97, 0, 0, 0x80, 1], [98]].foldlM feedRecvData {} = some wp ∧
    wp.received = [(1, [97, 98])] :=
  ((stream_one_message_iff (fun _ _ => 0) { type := .server } .text (cons_ne_nil [97] [[], [98]])
    (show [[0x01, 1], [97, 0, 0, 0x80, 1], [98]].flatten = _ by decide)).2 (by decide)).2

/-- The first buffer is cut, and its last frame ends the message. -/
theorem stream_two_messages : ∃ wp,
    [(sendStream (fun _ _ => 0) { type := .server } .text [replicate 0x10000 0, [97]]).2].foldlM feedRecvData {} =
      some wp ∧ wp.received = [(1, replicate 0x10000 0), (1, [97])] := by
  obtain ⟨wp, hfed, hreceived⟩ := @stream_received (fun _ _ => 0) { type := .server } .text (replicate 0x10000 0)
    [[97]] [_] (append_nil _)
  refine ⟨wp, hfed, hreceived.trans ?_⟩
  rw [streamed, length_replicate]
  rfl

end Send

end HvVerified.Http.Proofs
