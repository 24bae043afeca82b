import HvVerified.Http.WebSocket
import HvVerified.Http.Proofs.ReserveProofs

/-!
# Proofs: from bytes to frames

The receiver does the same whether it gets its bytes in pieces or one by one (`feedRecvData_eq`), so that
the pieces do not matter (`feed_flatten`). The bytes of a frame are then followed through the states of
the parser, field by field: together they have the effect of `afterFrame` (`feed_frame`).
-/

namespace HvVerified.Http.Proofs

open Base Lib Http Function List Option

variable {wp wp' : WebSocketParser} {data rest : List UInt8} {c : UInt8}

/-! ## One byte at a time -/

def withRequire (wp : WebSocketParser) (n : Nat) : WebSocketParser :=
  { wp with parser := { wp.parser with require := n } }

def bodyByte (wp : WebSocketParser) (c : UInt8) : WebSocketParser :=
  withRequire (onFrameBody wp [c]) (wp.parser.require - 1)

def feedByte (wp : WebSocketParser) (c : UInt8) : Option WebSocketParser :=
  match wp.parser.state with
  | .start => some (startByte wp c)
  | .head => headByte wp c
  | .length =>
    let wp := { wp with parser := lengthByte wp.parser c }
    if wp.parser.require = 0 then lengthDone wp else some wp
  | .mask =>
    let wp := { wp with parser := maskByte wp.parser c }
    if wp.parser.require = 0 then headerDone wp else some wp
  | .body =>
    let wp := bodyByte wp c
    some (if wp.parser.require = 0 then bodyDone wp else wp)

/-- Something is still required in the states that count. -/
def AwaitsBytes (wp : WebSocketParser) : Prop :=
  wp.parser.state = .start ∨ wp.parser.state = .head ∨ wp.parser.require ≠ 0

theorem awaitsBytes_onFrameEnd (h : AwaitsBytes wp) : AwaitsBytes (onFrameEnd wp) := by
  unfold onFrameEnd
  split_ifs <;> exact h

def headerSeen (wp : WebSocketParser) : WebSocketParser :=
  { wp with
    opcode := if wp.parser.opcode ≠ 0 then wp.parser.opcode else wp.opcode
    message := if wp.state = .frameBegin ∨ wp.state = .frameFin then [] else wp.message
    state := .frameHeader }

theorem onFrameHeader_eq (wp : WebSocketParser) :
    onFrameHeader wp = if WrapsInt wp.parser.length then none else some (headerSeen wp) := by
  unfold onFrameHeader
  by_cases hwraps : WrapsInt wp.parser.length
  · rw [if_pos hwraps]
    cases hlength : reserveLength maxPayloadLength wp.parser.length with
    | none => rfl
    | some reserve =>
      have hlarge := le_of_wraps hwraps hlength
      exact if_pos (by unfold maxStringSize; omega)
  · obtain ⟨reserve, hlength, hsmall⟩ := @reserveLength_of_not_wraps maxPayloadLength _ hwraps (by decide)
    have hmax : maxPayloadLength ≤ maxStringSize := by decide
    rw [if_neg hwraps, hlength]
    exact if_neg (by omega)

theorem awaitsBytes_onFrameHeader (h : AwaitsBytes wp) (hs : onFrameHeader wp = some wp') : AwaitsBytes wp' := by
  rw [onFrameHeader_eq] at hs
  split_ifs at hs
  cases hs
  exact h

theorem awaitsBytes_headerDone (hs : headerDone wp = some wp') : AwaitsBytes wp' := by
  unfold headerDone at hs
  split_ifs at hs with hlen
  · exact awaitsBytes_onFrameHeader (.inr (.inr hlen)) hs
  · obtain ⟨wp₁, hheader, rfl⟩ := map_eq_some_iff.1 hs
    refine awaitsBytes_onFrameEnd (awaitsBytes_onFrameHeader ?_ hheader)
    exact .inl rfl

theorem awaitsBytes_lengthDone (hs : lengthDone wp = some wp') : AwaitsBytes wp' := by
  unfold lengthDone at hs
  split_ifs at hs
  · cases hs
    exact .inr (.inr (Nat.succ_ne_zero 3))
  · exact awaitsBytes_headerDone hs

theorem awaitsBytes_headByte (hs : headByte wp c = some wp') : AwaitsBytes wp' := by
  unfold headByte at hs
  by_cases hlen : c.toNat % 128 ≥ 126
  · rw [if_pos hlen] at hs
    cases hs
    refine .inr (.inr ?_)
    dsimp only
    split_ifs <;> decide
  · rw [if_neg hlen] at hs
    exact awaitsBytes_lengthDone hs

theorem awaitsBytes_bodyDone (wp : WebSocketParser) : AwaitsBytes (bodyDone wp) := awaitsBytes_onFrameEnd (.inl rfl)

/-! ## The loops of a round -/

section RequireLoop

variable {byte : WebsocketParser → UInt8 → WebsocketParser}

theorem length_requireLoop (parser : WebsocketParser) (data : List UInt8) :
    (requireLoop byte parser data).2.length ≤ data.length := by
  induction data generalizing parser with
  | nil => simp [requireLoop]
  | cons c rest ih =>
    rw [requireLoop]
    split_ifs
    · exact (ih _).trans (by simp)
    · rfl

theorem requireLoop_of_zero {parser : WebsocketParser} (h : parser.require = 0) (data : List UInt8) :
    requireLoop byte parser data = (parser, data) := by
  cases data with
  | nil => rfl
  | cons c rest => rw [requireLoop, if_neg (not_not.2 h)]

/-- In this state `byte` takes the bytes, until no more are required. -/
structure TakesBytes (byte : WebsocketParser → UInt8 → WebsocketParser) (state : WsState)
    (done : WebSocketParser → Option WebSocketParser) : Prop where
  keeps : ∀ parser c, (byte parser c).state = parser.state
  feed : ∀ wp c, wp.parser.state = state → feedByte wp c =
    if (byte wp.parser c).require = 0 then done { wp with parser := byte wp.parser c }
    else some { wp with parser := byte wp.parser c }

theorem foldlM_requireLoop {state : WsState} {done : WebSocketParser → Option WebSocketParser}
    (htakes : TakesBytes byte state done) :
    ∀ {data : List UInt8} {wp : WebSocketParser}, wp.parser.state = state → wp.parser.require ≠ 0 →
      data.foldlM feedByte wp =
        if (requireLoop byte wp.parser data).1.require = 0 then
          (done { wp with parser := (requireLoop byte wp.parser data).1 }).bind
            ((requireLoop byte wp.parser data).2.foldlM feedByte)
        else
          (requireLoop byte wp.parser data).2.foldlM feedByte
            { wp with parser := (requireLoop byte wp.parser data).1 } := by
  intro data
  induction data with
  | nil =>
    intro wp _ hrequire
    rw [requireLoop, if_neg hrequire]
  | cons c rest ih =>
    intro wp hstate hrequire
    rw [requireLoop, if_pos hrequire, foldlM_cons, htakes.feed wp c hstate]
    by_cases hzero : (byte wp.parser c).require = 0
    · rw [if_pos hzero, requireLoop_of_zero hzero, if_pos hzero]
      rfl
    · rw [if_neg hzero]
      exact ih ((htakes.keeps _ _).trans hstate) hzero

end RequireLoop

theorem takesBytes_length : TakesBytes lengthByte .length lengthDone :=
  ⟨fun _ _ => rfl, fun wp c h => by rw [feedByte, h]⟩

theorem takesBytes_mask : TakesBytes maskByte .mask headerDone :=
  ⟨fun _ _ => rfl, fun wp c h => by rw [feedByte, h]⟩

theorem onFrameBody_cons (wp : WebSocketParser) (c : UInt8) (data : List UInt8) :
    onFrameBody wp (c :: data) = onFrameBody (onFrameBody wp [c]) data := by
  unfold onFrameBody websocketParserDecode
  by_cases hmask : wp.parser.hasMask
  · simp only [hmask, if_true, xorKey_cons, xorKey_nil, length_cons, length_nil, xorKey_mod,
      append_assoc, singleton_append, Nat.zero_add, Nat.add_mod_mod, Nat.add_assoc, Nat.add_comm 1]
  · simp [hmask]

theorem parser_onFrameBody (wp : WebSocketParser) (data : List UInt8) :
    (onFrameBody wp data).parser.state = wp.parser.state ∧
      (onFrameBody wp data).parser.require = wp.parser.require := by
  unfold onFrameBody
  dsimp only
  split_ifs <;> exact ⟨rfl, rfl⟩

theorem onFrameBody_withRequire (wp : WebSocketParser) (n : Nat) (data : List UInt8) :
    onFrameBody (withRequire wp n) data = withRequire (onFrameBody wp data) n := by
  unfold onFrameBody withRequire
  dsimp only
  split_ifs <;> rfl

theorem bodyBytes_eq (wp : WebSocketParser) (data : List UInt8) : bodyBytes wp data =
    (withRequire (onFrameBody wp (data.take (min wp.parser.require data.length)))
      (wp.parser.require - min wp.parser.require data.length), data.drop (min wp.parser.require data.length)) := by
  unfold bodyBytes withRequire
  dsimp only
  rw [(parser_onFrameBody _ _).2]

theorem bodyBytes_cons_last (hlast : wp.parser.require = 1 ∨ rest = []) (hrequire : wp.parser.require ≠ 0) :
    bodyBytes wp (c :: rest) = (bodyByte wp c, rest) := by
  have hmin : min wp.parser.require (c :: rest).length = 1 := by
    rcases hlast with hone | rfl
    · rw [hone, length_cons]
      omega
    · rw [length_singleton]
      omega
  rw [bodyBytes_eq, hmin]
  rfl

theorem bodyBytes_cons (hrequire : wp.parser.require ≠ 0) :
    bodyBytes wp (c :: rest) = bodyBytes (bodyByte wp c) rest := by
  have hbyte : (bodyByte wp c).parser.require = wp.parser.require - 1 := rfl
  have hmin : min wp.parser.require (c :: rest).length =
      min (wp.parser.require - 1) rest.length + 1 := by
    rw [length_cons]
    omega
  rw [bodyBytes_eq, bodyBytes_eq, hbyte, hmin, take_succ_cons, drop_succ_cons, onFrameBody_cons,
    bodyByte, onFrameBody_withRequire, Nat.sub_sub, Nat.add_comm 1]
  rfl

theorem foldlM_bodyBytes : ∀ {data : List UInt8} {wp : WebSocketParser}, wp.parser.state = .body →
    wp.parser.require ≠ 0 → data ≠ [] → data.foldlM feedByte wp =
      (bodyBytes wp data).2.foldlM feedByte
        (if (bodyBytes wp data).1.parser.require = 0 then bodyDone (bodyBytes wp data).1
          else (bodyBytes wp data).1) := by
  intro data
  induction data with
  | nil =>
    intro wp _ _ hne
    exact absurd rfl hne
  | cons c rest ih =>
    intro wp hstate hrequire _
    have hfeed : feedByte wp c =
        some (if (bodyByte wp c).parser.require = 0 then bodyDone (bodyByte wp c) else bodyByte wp c) := by
      rw [feedByte, hstate]
    rw [foldlM_cons, hfeed]
    by_cases hlast : wp.parser.require = 1 ∨ rest = []
    · rw [bodyBytes_cons_last hlast hrequire]
      rfl
    · obtain ⟨hmore, hrest⟩ := not_or.1 hlast
      have hbyte : (bodyByte wp c).parser.require ≠ 0 := by
        show wp.parser.require - 1 ≠ 0
        omega
      rw [bodyBytes_cons hrequire, if_neg hbyte]
      exact ih ((parser_onFrameBody wp [c]).1.trans hstate) hbyte hrest

/-! ## Pieces -/

/-- The loop with `n` rounds reads its bytes one after another. -/
def ReadsBytes (n : Nat) : Prop :=
  ∀ {data : List UInt8} {wp : WebSocketParser}, AwaitsBytes wp → data.length ≤ n →
    executeLoop n wp data = data.foldlM feedByte wp

section Rounds

variable {n : Nat} {c : UInt8}

theorem ReadsBytes.bind (hreads : ReadsBytes n) {x : Option WebSocketParser}
    (hx : ∀ {wp}, x = some wp → AwaitsBytes wp) (hlen : data.length ≤ n) :
    (x.bind fun wp => executeLoop n wp data) = x.bind (data.foldlM feedByte) := by
  cases x with
  | none => rfl
  | some wp => exact hreads (hx rfl) hlen

theorem ReadsBytes.requireRound (hreads : ReadsBytes n) {byte : WebsocketParser → UInt8 → WebsocketParser}
    {state : WsState} {done : WebSocketParser → Option WebSocketParser} (htakes : TakesBytes byte state done)
    (hdone : ∀ {wp wp'}, done wp = some wp' → AwaitsBytes wp') (hstate : wp.parser.state = state)
    (hrequire : wp.parser.require ≠ 0) (hrest : rest.length ≤ n) :
    (if (requireLoop byte wp.parser (c :: rest)).1.require = 0 then
      (done { wp with parser := (requireLoop byte wp.parser (c :: rest)).1 }).bind fun wp' =>
        executeLoop n wp' (requireLoop byte wp.parser (c :: rest)).2
    else executeLoop n { wp with parser := (requireLoop byte wp.parser (c :: rest)).1 }
      (requireLoop byte wp.parser (c :: rest)).2) = (c :: rest).foldlM feedByte wp := by
  have hless : (requireLoop byte wp.parser (c :: rest)).2.length ≤ n := by
    rw [requireLoop, if_pos hrequire]
    exact (length_requireLoop _ _).trans hrest
  rw [foldlM_requireLoop htakes hstate hrequire]
  split_ifs with hzero
  · exact hreads.bind hdone hless
  · exact hreads (.inr (.inr hzero)) hless

theorem ReadsBytes.bodyRound (hreads : ReadsBytes n) (hstate : wp.parser.state = .body)
    (hrequire : wp.parser.require ≠ 0) (hrest : rest.length ≤ n) :
    executeLoop n (if (bodyBytes wp (c :: rest)).1.parser.require = 0 then bodyDone (bodyBytes wp (c :: rest)).1
      else (bodyBytes wp (c :: rest)).1) (bodyBytes wp (c :: rest)).2 = (c :: rest).foldlM feedByte wp := by
  have hless : (bodyBytes wp (c :: rest)).2.length ≤ n := by
    rw [bodyBytes_eq, length_drop, length_cons]
    omega
  rw [foldlM_bodyBytes hstate hrequire (cons_ne_nil _ _)]
  refine hreads ?_ hless
  split_ifs with hzero
  · exact awaitsBytes_bodyDone _
  · exact .inr (.inr hzero)

end Rounds

theorem readsBytes (n : Nat) : ReadsBytes n := by
  induction n with
  | zero =>
    intro data wp _ hlen
    obtain rfl := length_eq_zero_iff.1 (Nat.le_zero.1 hlen)
    rfl
  | succ n ih =>
    intro data wp hawaits hlen
    cases data with
    | nil => rfl
    | cons c rest =>
      have hrest : rest.length ≤ n := Nat.le_of_succ_le_succ hlen
      have hrequire := fun hstart => (hawaits.resolve_left hstart).resolve_left
      rw [executeLoop]
      cases hstate : wp.parser.state with
      | start =>
        rw [foldlM_cons, feedByte, hstate]
        exact ih (.inr (.inl rfl)) hrest
      | head =>
        rw [foldlM_cons, feedByte, hstate]
        exact ih.bind awaitsBytes_headByte hrest
      | length =>
        refine ih.requireRound takesBytes_length awaitsBytes_lengthDone hstate ?_ hrest
        exact hrequire (by simp [hstate]) (by simp [hstate])
      | mask =>
        refine ih.requireRound takesBytes_mask awaitsBytes_headerDone hstate ?_ hrest
        exact hrequire (by simp [hstate]) (by simp [hstate])
      | body =>
        have hmore := hrequire (by simp [hstate]) (by simp [hstate])
        rw [if_pos hmore]
        exact ih.bodyRound hstate hmore hrest

theorem feedRecvData_eq (hawaits : AwaitsBytes wp) (data : List UInt8) :
    feedRecvData wp data = data.foldlM feedByte wp := readsBytes _ hawaits le_rfl

theorem awaitsBytes_feedByte (hs : feedByte wp c = some wp') : AwaitsBytes wp' := by
  unfold feedByte at hs
  cases hstate : wp.parser.state <;> rw [hstate] at hs <;> dsimp only at hs
  case start =>
    cases hs
    exact .inr (.inl rfl)
  case head => exact awaitsBytes_headByte hs
  case length =>
    split_ifs at hs with hzero
    · exact awaitsBytes_lengthDone hs
    · cases hs
      exact .inr (.inr hzero)
  case mask =>
    split_ifs at hs with hzero
    · exact awaitsBytes_headerDone hs
    · cases hs
      exact .inr (.inr hzero)
  case body =>
    cases hs
    split_ifs with hzero
    · exact awaitsBytes_bodyDone _
    · exact .inr (.inr hzero)

theorem awaitsBytes_foldlM : ∀ {data : List UInt8} {wp : WebSocketParser}, AwaitsBytes wp →
    data.foldlM feedByte wp = some wp' → AwaitsBytes wp' := by
  intro data
  induction data with
  | nil =>
    intro wp hawaits hs
    cases hs
    exact hawaits
  | cons c rest ih =>
    intro wp hawaits hs
    obtain ⟨wp₁, hbyte, hrest⟩ := bind_eq_some_iff.1 hs
    exact ih (awaitsBytes_feedByte hbyte) hrest

theorem feed_flatten : ∀ {pieces : List (List UInt8)} {wp : WebSocketParser}, AwaitsBytes wp →
    pieces.foldlM feedRecvData wp = pieces.flatten.foldlM feedByte wp := by
  intro pieces
  induction pieces with
  | nil =>
    intro wp _
    rfl
  | cons piece pieces ih =>
    intro wp hawaits
    rw [foldlM_cons, flatten_cons, foldlM_append, feedRecvData_eq hawaits]
    cases hpiece : piece.foldlM feedByte wp with
    | none => rfl
    | some wp₁ => exact ih (awaitsBytes_foldlM hawaits hpiece)

/-! ## Frames -/

structure Frame where
  fin : Bool
  opcode : WsOpcode
  mask : Option WsMask
  payload : ByteString

def lengthCode (n : Nat) : Nat := if n < 126 then n else if n ≤ 0xFFFF then 126 else 127

def extendedLength (n : Nat) : List UInt8 :=
  if n < 126 then [] else if n ≤ 0xFFFF then bigEndian 2 n else bigEndian 8 n

def Frame.head (f : Frame) : List UInt8 :=
  [UInt8.ofNat (f.fin.toNat * 128 + f.opcode.code),
    UInt8.ofNat (f.mask.isSome.toNat * 128 + lengthCode f.payload.length)]

def Frame.key (f : Frame) : List UInt8 :=
  match f.mask with
  | some key => [key 0, key 1, key 2, key 3]
  | none => []

def Frame.masked (f : Frame) : List UInt8 :=
  match f.mask with
  | some key => xorKey key 0 f.payload
  | none => f.payload

def Frame.encode (f : Frame) : List UInt8 :=
  f.head ++ extendedLength f.payload.length ++ f.key ++ f.masked

def afterFrame (wp : WebSocketParser) (f : Frame) : WebSocketParser :=
  let opcode := if f.opcode.code ≠ 0 then f.opcode.code else wp.opcode
  let message := (if wp.state = .frameBegin ∨ wp.state = .frameFin then [] else wp.message) ++ f.payload
  if f.fin then
    { wp with opcode, message, state := .frameFin, received := wp.received ++ [(opcode, message)] }
  else { wp with opcode, message, state := .frameEnd }

section Frames

variable {f : Frame} {parser : WebsocketParser}

/-- The parser has read the length of the frame. -/
structure HeaderRead (f : Frame) (parser : WebsocketParser) : Prop where
  opcode : parser.opcode = f.opcode.code
  fin : parser.fin = f.fin
  hasMask : parser.hasMask = f.mask.isSome
  maskOffset : parser.maskOffset = 0
  length : parser.length = f.payload.length

theorem foldl_shift_mod (bs : List UInt8) (v : Nat) :
    bs.foldl (fun v (b : UInt8) => v * 256 + b.toNat) (v % 2 ^ 64) % 2 ^ 64 =
      bs.foldl (fun v (b : UInt8) => v * 256 + b.toNat) v % 2 ^ 64 := by
  induction bs generalizing v with
  | nil => exact Nat.mod_mod _ _
  | cons b bs ih =>
    have hmod : (v % 2 ^ 64 * 256 + b.toNat) % 2 ^ 64 = (v * 256 + b.toNat) % 2 ^ 64 := by omega
    rw [foldl_cons, foldl_cons, ← ih, hmod, ih]

theorem feed_length : ∀ {bs : List UInt8} {wp : WebSocketParser}, wp.parser.state = .length →
    wp.parser.require = bs.length → bs ≠ [] →
    bs.foldlM feedByte wp = lengthDone { wp with parser := { wp.parser with
      length := bs.foldl (fun v (b : UInt8) => v * 256 + b.toNat) wp.parser.length % 2 ^ 64
      require := 0 } } := by
  intro bs
  induction bs with
  | nil =>
    intro wp _ _ hne
    exact absurd rfl hne
  | cons b bs ih =>
    intro wp hstate hrequire _
    have hless : (lengthByte wp.parser b).require = bs.length := by
      show wp.parser.require - 1 = bs.length
      rw [hrequire, length_cons, Nat.add_sub_cancel]
    rw [foldlM_cons, takesBytes_length.feed wp b hstate]
    by_cases hbs : bs = []
    · subst hbs
      have hzero : (lengthByte wp.parser b).require = 0 := hless
      have hparser : lengthByte wp.parser b = { wp.parser with
          length := (wp.parser.length * 256 + b.toNat) % 2 ^ 64, require := 0 } := by
        rw [← hzero]
        rfl
      rw [if_pos hzero, hparser]
      exact bind_pure _
    · rw [if_neg (by rw [hless]; simpa using hbs)]
      have hih := @ih { wp with parser := lengthByte wp.parser b } hstate hless hbs
      refine hih.trans ?_
      dsimp only [lengthByte]
      rw [foldl_shift_mod, foldl_cons]

theorem lengthCode_lt (n : Nat) : lengthCode n < 128 := by
  unfold lengthCode
  split_ifs <;> omega

theorem opcode_code_lt (opcode : WsOpcode) : opcode.code < 16 := by
  cases opcode <;> decide

def firstRead (parser : WebsocketParser) (f : Frame) : WebsocketParser :=
  { parser with
    length := 0
    maskOffset := 0
    opcode := f.opcode.code
    fin := f.fin
    hasMask := false
    state := .head }

theorem startByte_first (wp : WebSocketParser) (f : Frame) :
    startByte wp (UInt8.ofNat (f.fin.toNat * 128 + f.opcode.code)) =
      { wp with parser := firstRead wp.parser f } := by
  have hcode := opcode_code_lt f.opcode
  have hfin := f.fin.toNat_le
  have hbyte : (UInt8.ofNat (f.fin.toNat * 128 + f.opcode.code)).toNat = f.fin.toNat * 128 + f.opcode.code := by
    rw [UInt8.toNat_ofNat']
    omega
  have hop : (f.fin.toNat * 128 + f.opcode.code) % 16 = f.opcode.code := by omega
  have hbit : decide (128 ≤ f.fin.toNat * 128 + f.opcode.code) = f.fin := by
    cases f.fin with
    | false => exact decide_eq_false (by simp; omega)
    | true => exact decide_eq_true (by simp)
  unfold startByte firstRead
  rw [hbyte, hop, hbit]

theorem headByte_second (wp : WebSocketParser) (f : Frame) : headByte { wp with parser := firstRead wp.parser f }
      (UInt8.ofNat (f.mask.isSome.toNat * 128 + lengthCode f.payload.length)) =
    if f.payload.length < 126 then
      lengthDone { wp with parser := { firstRead wp.parser f with
        length := f.payload.length, hasMask := f.mask.isSome } }
    else some { wp with parser := { firstRead wp.parser f with
        hasMask := f.mask.isSome
        require := (extendedLength f.payload.length).length
        length := 0
        state := .length } } := by
  have hcode := lengthCode_lt f.payload.length
  have hmask := f.mask.isSome.toNat_le
  have hbyte : (UInt8.ofNat (f.mask.isSome.toNat * 128 + lengthCode f.payload.length)).toNat =
      f.mask.isSome.toNat * 128 + lengthCode f.payload.length := by
    rw [UInt8.toNat_ofNat']
    omega
  have hlow : (f.mask.isSome.toNat * 128 + lengthCode f.payload.length) % 128 = lengthCode f.payload.length := by
    omega
  have hbit : decide (128 ≤ f.mask.isSome.toNat * 128 + lengthCode f.payload.length) = f.mask.isSome := by
    cases f.mask.isSome with
    | false => exact decide_eq_false (by simp; omega)
    | true => exact decide_eq_true (by simp)
  unfold headByte
  dsimp only
  rw [hbyte, hlow, hbit]
  unfold lengthCode extendedLength
  by_cases hsmall : f.payload.length < 126
  · rw [if_pos hsmall, if_pos hsmall, if_neg (by omega)]
    rfl
  · rw [if_neg hsmall, if_neg hsmall, if_neg hsmall]
    by_cases hmedium : f.payload.length ≤ 0xFFFF
    · rw [if_pos hmedium, if_pos hmedium]
      rfl
    · rw [if_neg hmedium, if_neg hmedium]
      rfl

theorem feed_header (hstart : wp.parser.state = .start) (hlen : f.payload.length < 2 ^ 64) :
    ∃ parser, HeaderRead f parser ∧ (f.head ++ extendedLength f.payload.length).foldlM feedByte wp =
      lengthDone { wp with parser } := by
  have hfront : f.head.foldlM feedByte wp = headByte { wp with parser := firstRead wp.parser f }
      (UInt8.ofNat (f.mask.isSome.toNat * 128 + lengthCode f.payload.length)) := by
    have hfirst : feedByte wp (UInt8.ofNat (f.fin.toNat * 128 + f.opcode.code)) =
        some { wp with parser := firstRead wp.parser f } := by
      rw [feedByte, hstart]
      exact congrArg some (startByte_first wp f)
    rw [Frame.head, foldlM_cons, hfirst]
    exact bind_pure (headByte _ _)
  rw [foldlM_append, hfront, headByte_second]
  by_cases hsmall : f.payload.length < 126
  · have hext : extendedLength f.payload.length = [] := if_pos hsmall
    rw [if_pos hsmall, hext]
    refine ⟨{ firstRead wp.parser f with length := f.payload.length, hasMask := f.mask.isSome },
      ⟨rfl, rfl, rfl, rfl, rfl⟩, ?_⟩
    exact bind_pure _
  · rw [if_neg hsmall]
    refine ⟨{ firstRead wp.parser f with
        hasMask := f.mask.isSome
        length := (extendedLength f.payload.length).foldl (fun v (b : UInt8) => v * 256 + b.toNat) 0 % 2 ^ 64
        state := .length
        require := 0 }, ⟨rfl, rfl, rfl, rfl, ?_⟩, ?_⟩
    · dsimp only
      unfold extendedLength
      split_ifs with hmedium
      · rw [foldl_bigEndian]
        omega
      · rw [foldl_bigEndian]
        omega
    · have hne : extendedLength f.payload.length ≠ [] := by
        unfold extendedLength
        rw [if_neg hsmall, ← length_pos_iff]
        split_ifs <;> simp
      exact @feed_length _ { wp with parser := { firstRead wp.parser f with
        hasMask := f.mask.isSome
        require := (extendedLength f.payload.length).length
        length := 0
        state := .length } } rfl rfl hne

theorem feed_key (key : WsMask) (h : wp.parser.state = .mask) (hrequire : wp.parser.require = 4) :
    [key 0, key 1, key 2, key 3].foldlM feedByte wp =
      headerDone { wp with parser := { wp.parser with require := 0, mask := key } } := by
  have hkey : update (update (update (update wp.parser.mask 0 (key 0))
      1 (key 1)) 2 (key 2)) 3 (key 3) = key := by
    funext i
    match i with
    | 0 => rfl
    | 1 => rfl
    | 2 => rfl
    | 3 => rfl
  have hfour : ∀ {parser : WebsocketParser}, parser.require = 4 →
      requireLoop maskByte parser [key 0, key 1, key 2, key 3] = ({ parser with
        require := 0
        mask := update (update (update (update parser.mask 0 (key 0)) 1 (key 1))
          2 (key 2)) 3 (key 3) }, []) := by
    rintro ⟨state, opcode, fin, hasMask, mask, maskOffset, length, require⟩ rfl
    rfl
  have hloop : requireLoop maskByte wp.parser [key 0, key 1, key 2, key 3] =
      ({ wp.parser with require := 0, mask := key }, []) := by
    rw [hfour hrequire, hkey]
  rw [foldlM_requireLoop takesBytes_mask h (by rw [hrequire]; decide),
    hloop]
  exact (if_pos rfl).trans (bind_fun_some _)

theorem feed_until_payload (hstart : wp.parser.state = .start) (hlen : f.payload.length < 2 ^ 64) :
    ∃ parser, HeaderRead f parser ∧ (∀ key, f.mask = some key → parser.mask = key) ∧
      (f.head ++ extendedLength f.payload.length ++ f.key).foldlM feedByte wp = headerDone { wp with parser } := by
  obtain ⟨parser, hread, hfed⟩ := feed_header hstart hlen
  have hhas := hread.hasMask
  rw [foldlM_append, hfed]
  unfold Frame.key lengthDone
  cases hmask : f.mask with
  | none =>
    rw [hmask] at hhas
    refine ⟨parser, hread, ?_, ?_⟩
    · intro key hkey
      cases hkey
    · have hno : ¬ parser.hasMask := by simp [hhas]
      rw [if_neg hno]
      exact bind_pure _
  | some key =>
    rw [hmask] at hhas
    refine ⟨{ parser with state := .mask, require := 0, mask := key },
      ⟨hread.opcode, hread.fin, hread.hasMask, hread.maskOffset, hread.length⟩, ?_, ?_⟩
    · intro key' hkey
      exact some.inj hkey
    · have hyes : parser.hasMask := hhas
      rw [if_pos hyes]
      have hfed := @feed_key { wp with parser := { parser with state := .mask, require := 4 } } key rfl rfl
      exact hfed

theorem onFrameBody_masked (hread : HeaderRead f wp.parser) (hkey : ∀ key, f.mask = some key → wp.parser.mask = key) :
    ∃ parser : WebsocketParser, parser.state = wp.parser.state ∧ parser.require = wp.parser.require ∧
      parser.fin = f.fin ∧ onFrameBody wp f.masked =
        { wp with parser, state := .frameBody, message := wp.message ++ f.payload } := by
  have hhas := hread.hasMask
  unfold onFrameBody websocketParserDecode Frame.masked
  cases hmask : f.mask with
  | none =>
    rw [hmask] at hhas
    have hno : ¬ wp.parser.hasMask := by simp [hhas]
    rw [if_neg hno]
    exact ⟨wp.parser, rfl, rfl, hread.fin, rfl⟩
  | some key =>
    rw [hmask] at hhas
    have hyes : wp.parser.hasMask := hhas
    rw [if_pos hyes]
    refine ⟨{ wp.parser with maskOffset := ((xorKey key 0 f.payload).length + wp.parser.maskOffset) % 4 }, rfl, rfl,
      hread.fin, ?_⟩
    dsimp only
    rw [hread.maskOffset, hkey key hmask, xorKey_xorKey]

theorem length_masked (f : Frame) : f.masked.length = f.payload.length := by
  unfold Frame.masked
  split
  · exact length_xorKey _ _ _
  · rfl

theorem feed_body (hread : HeaderRead f wp.parser) (hkey : ∀ key, f.mask = some key → wp.parser.mask = key)
    (hstate : wp.parser.state = .body) (hrequire : wp.parser.require = f.payload.length) (hne : f.payload.length ≠ 0) :
    ∃ parser : WebsocketParser, parser.fin = f.fin ∧ f.masked.foldlM feedByte wp =
      some (bodyDone { wp with parser, state := .frameBody, message := wp.message ++ f.payload }) := by
  obtain ⟨parser, -, -, hfin, hbody⟩ := onFrameBody_masked hread hkey
  have hall : bodyBytes wp f.masked = (withRequire (onFrameBody wp f.masked) 0, []) := by
    rw [bodyBytes_eq, hrequire, length_masked, Nat.min_self, ← length_masked, take_length, drop_length,
      Nat.sub_self]
  have hbytes : f.masked ≠ [] := by
    rw [← length_pos_iff, length_masked]
    omega
  refine ⟨{ parser with require := 0 }, hfin, ?_⟩
  rw [foldlM_bodyBytes hstate (by rwa [hrequire]) hbytes, hall, hbody]
  rfl

theorem onFrameEnd_headerSeen (hread : HeaderRead f wp.parser) (parser : WebsocketParser) (hfin : parser.fin = f.fin)
    (state : WsFrameState) :
    onFrameEnd { headerSeen wp with parser, state, message := (headerSeen wp).message ++ f.payload } =
      { afterFrame wp f with parser } := by
  unfold onFrameEnd afterFrame headerSeen
  rw [hfin, hread.opcode]
  split_ifs <;> rfl

theorem feed_payload (hread : HeaderRead f wp.parser) (hkey : ∀ key, f.mask = some key → wp.parser.mask = key)
    (hwraps : ¬ WrapsInt f.payload.length) : ∃ parser : WebsocketParser, parser.state = .start ∧
      (headerDone wp).bind (f.masked.foldlM feedByte) = some { afterFrame wp f with parser } := by
  have hlength := hread.length
  have hread' : ∀ state require, HeaderRead f { wp.parser with state, require } := fun _ _ =>
    ⟨hread.opcode, hread.fin, hread.hasMask, hread.maskOffset, hread.length⟩
  unfold headerDone
  by_cases hempty : f.payload.length = 0
  · have hmasked : f.masked = [] := length_eq_zero_iff.1 ((length_masked f).trans hempty)
    have hpayload : f.payload = [] := length_eq_zero_iff.1 hempty
    rw [if_neg (by omega), onFrameHeader_eq, if_neg (by rwa [hlength]), hmasked]
    refine ⟨{ wp.parser with state := .start }, rfl, ?_⟩
    have hend := onFrameEnd_headerSeen hread { wp.parser with state := .start } hread.fin .frameHeader
    rw [hpayload, append_nil] at hend
    exact congrArg some hend
  · rw [if_pos (by omega), onFrameHeader_eq, if_neg (by rwa [hlength])]
    obtain ⟨parser, hfin, hfed⟩ := @feed_body
      (headerSeen { wp with parser := { wp.parser with state := .body, require := wp.parser.length } }) f
      (hread' _ _) hkey rfl hlength hempty
    refine ⟨{ parser with state := .start }, rfl, hfed.trans (congrArg some ?_)⟩
    exact onFrameEnd_headerSeen hread { parser with state := .start } hfin .frameBody

theorem afterFrame_of_state (wp : WebSocketParser) (f : Frame) (parser : WebsocketParser) :
    afterFrame { wp with parser } f = { afterFrame wp f with parser } := by
  unfold afterFrame
  cases f.fin <;> rfl

/-- The bytes of a frame have the effect of the frame, or the header callback throws. -/
theorem feed_frame (hstart : wp.parser.state = .start) (hlen : f.payload.length < 2 ^ 64) :
    ∃ parser : WebsocketParser, parser.state = .start ∧ f.encode.foldlM feedByte wp =
      if WrapsInt f.payload.length then none else some { afterFrame wp f with parser } := by
  obtain ⟨parser, hread, hkey, hfed⟩ := feed_until_payload hstart hlen
  rw [Frame.encode, foldlM_append, hfed]
  by_cases hwraps : WrapsInt f.payload.length
  · refine ⟨{}, rfl, ?_⟩
    have hthrows : headerDone { wp with parser } = none := by
      unfold headerDone
      split_ifs <;> rw [onFrameHeader_eq, if_pos (by rwa [hread.length])]
      rfl
    rw [if_pos hwraps, hthrows]
    rfl
  · obtain ⟨parser', hparser', hfed'⟩ := @feed_payload { wp with parser } f hread hkey hwraps
    rw [afterFrame_of_state] at hfed'
    exact ⟨parser', hparser', hfed'.trans (if_neg hwraps).symm⟩

theorem foldl_afterFrame_of_state (parser : WebsocketParser) : ∀ (fs : List Frame) (wp : WebSocketParser),
    fs.foldl afterFrame { wp with parser } = { fs.foldl afterFrame wp with parser } := by
  intro fs
  induction fs with
  | nil =>
    intro wp
    rfl
  | cons f fs ih =>
    intro wp
    rw [foldl_cons, foldl_cons, afterFrame_of_state, ih]

theorem feed_frames : ∀ {fs : List Frame} {wp : WebSocketParser}, wp.parser.state = .start →
    (∀ f ∈ fs, f.payload.length < 2 ^ 64) →
    ∃ parser : WebsocketParser, parser.state = .start ∧ (fs.flatMap Frame.encode).foldlM feedByte wp =
      if ∃ f ∈ fs, WrapsInt f.payload.length then none else some { fs.foldl afterFrame wp with parser } := by
  intro fs
  induction fs with
  | nil =>
    intro wp hstart _
    refine ⟨wp.parser, hstart, ?_⟩
    rfl
  | cons f fs ih =>
    intro wp hstart hlen
    obtain ⟨hf, hfs⟩ := forall_mem_cons.1 hlen
    obtain ⟨parser, hparser, hfed⟩ := feed_frame hstart hf
    rw [flatMap_cons, foldlM_append, hfed]
    by_cases hwraps : WrapsInt f.payload.length
    · refine ⟨{}, rfl, ?_⟩
      rw [if_pos hwraps, if_pos ⟨f, mem_cons_self, hwraps⟩]
      rfl
    · obtain ⟨parser', hparser', hrest⟩ := @ih { afterFrame wp f with parser } hparser hfs
      refine ⟨parser', hparser', ?_⟩
      rw [if_neg hwraps]
      refine hrest.trans (if_congr ?_ rfl (congrArg some ?_))
      · simp [hwraps]
      · rw [foldl_afterFrame_of_state, foldl_cons]

end Frames

end HvVerified.Http.Proofs
