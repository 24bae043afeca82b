import HvVerified.Event.Proofs.ReadStreamProofs

/-!
# Proofs: what `nio_read` asks for fits in the read buffer

The invariant says that the bytes a waiting `hio_read_until_length` still needs fit in the buffer, and
that otherwise there is free space, unless the autosize of `hio_handle_read` is still to come.
-/

namespace HvVerified.Event

open Lib Base List Reachable

variable {s s' : ReadIo} {io io' : Hio} {stack stack' : List ReadCall} {delim : UInt8}

/-- The read buffer has room for what is going to be received. -/
structure Roomy (io : Hio) (stack : List ReadCall) : Prop where
  le : io.readbuf.head ≤ io.readbuf.tail
  fits : io.readbuf.tail ≤ io.readbuf.len
  pos : 0 < io.readbuf.len
  size : io.readbuf.len < 2 ^ 31
  empty : io.readbuf.head = io.readbuf.tail → io.readbuf.tail = 0
  loop : io.kind = .loop → io.readbuf.len ≤ hloopReadBufsize
  waits : io.readFlags.untilLength →
    io.readbuf.tail - io.readbuf.head < io.readUntilLength ∧
      io.readbuf.head + io.readUntilLength ≤ io.readbuf.len
  room : io.readFlags.untilLength = false → io.readbuf.tail < io.readbuf.len ∨ .handleRead ∈ stack

theorem nioReadLen_eq (h : Roomy io stack) : nioReadLen io = if io.readFlags.untilLength
      then ((io.readUntilLength - (io.readbuf.tail - io.readbuf.head) : Nat) : Int)
      else ((io.readbuf.len - io.readbuf.tail : Nat) : Int) := by
  have hle := h.le
  have hfits := h.fits
  have hsize := h.size
  unfold nioReadLen
  split_ifs with hflag
  · obtain ⟨h1, h2⟩ := h.waits hflag
    rw [Int.bmod_eq_of_le (by omega) (by omega)]
    omega
  · rw [Int.bmod_eq_of_le (by omega) (by omega)]
    omega

theorem Roomy.congr (h : Roomy io stack) (hsame : SameRequest io io')
    (hstack : .handleRead ∈ stack → .handleRead ∈ stack') : Roomy io' stack' := by
  obtain ⟨le, fits, pos, size, empty, loop, waits, room⟩ := h
  rw [← hsame.readbuf] at le fits pos size empty loop waits room
  rw [← hsame.kind] at loop
  rw [← hsame.untilLength, ← hsame.readUntilLength] at waits
  rw [← hsame.untilLength] at room
  exact ⟨le, fits, pos, size, empty, loop, waits, fun hf => (room hf).imp id hstack⟩

theorem Roomy.consume {k : Nat} {flags : ReadFlags} (hle : io.readbuf.head + k ≤ io.readbuf.tail)
    (hfits : io.readbuf.tail ≤ io.readbuf.len) (hpos : 0 < io.readbuf.len) (hsize : io.readbuf.len < 2 ^ 31)
    (hloop : io.kind = .loop → io.readbuf.len ≤ hloopReadBufsize)
    (hwaits : flags.untilLength → io.readbuf.tail - io.readbuf.head < io.readUntilLength ∧
      io.readbuf.head + io.readUntilLength ≤ io.readbuf.len ∧
      (io.readbuf.head + k + io.readUntilLength ≤ io.readbuf.len ∨ io.readbuf.head + k = io.readbuf.tail))
    (hroom : flags.untilLength = false → io.readbuf.head + k ≠ io.readbuf.tail →
      io.readbuf.tail < io.readbuf.len ∨ .handleRead ∈ stack) :
    Roomy { consume io k with readFlags := flags } stack := by
  rcases consume_cases io k with ⟨heq, hc⟩ | ⟨hne, hc⟩
  · rw [hc]
    refine ⟨le_rfl, Nat.zero_le _, hpos, hsize, fun _ => rfl, hloop, fun hf => ?_, fun _ => .inl hpos⟩
    obtain ⟨h1, h2, -⟩ := hwaits hf
    show 0 - 0 < io.readUntilLength ∧ 0 + io.readUntilLength ≤ io.readbuf.len
    omega
  · rw [hc]
    refine ⟨hle, hfits, hpos, hsize, fun heq => absurd heq hne, hloop, fun hf => ?_, fun hf => hroom hf hne⟩
    obtain ⟨h1, h2, h3⟩ := hwaits hf
    show io.readbuf.tail - (io.readbuf.head + k) < io.readUntilLength ∧
      io.readbuf.head + k + io.readUntilLength ≤ io.readbuf.len
    omega

/-! ## Requests -/

def AllocFits (io : Hio) (len : Nat) : Prop :=
  io.kind = .loop ∨ io.readbuf.len < len → len ≤ io.maxReadBufsize

/-- `k` bytes can be taken from the buffer while the waiting request still has its space. -/
def TakeFits (io : Hio) (k : Nat) : Prop :=
  io.readFlags.untilLength →
    io.readbuf.head + k + io.readUntilLength ≤ io.readbuf.len ∨ io.readbuf.head + k = io.readbuf.tail

def lengthStart (io : Hio) : Nat :=
  if io.readbuf.head > 1024 ∨ io.readbuf.tail - io.readbuf.head < 1024 then 0 else io.readbuf.head

def FitsAllowed (s : ReadIo) : ReadAct → Prop
  | .call (.hioReadUntilLength n) =>
    if n ≤ s.io.readbuf.tail - s.io.readbuf.head then TakeFits s.io n
    else lengthStart s.io + n < 2 ^ 31 ∧ AllocFits s.io (lengthStart s.io + n)
  | .call (.hioReadUntilDelim delim) =>
    (s.io.readbuf.head < s.io.readbuf.tail → delim ∉ s.io.buffered →
      s.io.readbuf.base s.io.readbuf.tail ≠ delim) ∧
    (∀ i, s.io.buffered.findIdx? (· == delim) = some i → TakeFits s.io (i + 1)) ∧
    (delim ∉ s.io.buffered → AllocFits s.io hloopReadBufsize)
  | .recv (.data seg) =>
    s.io.readFlags.untilDelim → s.io.readbuf.tail + seg.length = s.io.readbuf.len →
      ∀ i, seg.findIdx? (· == s.io.readUntilDelim) = some i → i + 1 = seg.length
  | .resume =>
    s.stack.head? = some .handleRead →
      (s.io.readbuf.head = 0 → s.io.readbuf.tail = s.io.readbuf.len →
        s.io.readbuf.len * 2 ≤ s.io.maxReadBufsize ∧ s.io.readbuf.len * 2 < 2 ^ 31) ∧
      (s.io.readFlags.untilLength → s.io.readbuf.tail < s.io.readbuf.len / 2 →
        s.io.smallReadbytesCnt ≥ 3 → s.io.readbuf.head + s.io.readUntilLength ≤ s.io.readbuf.len / 2)
  | _ => True

theorem roomy_take {k : Nat} (h : Roomy io stack) (hk : io.readbuf.head + k ≤ io.readbuf.tail)
    (htake : TakeFits io k) : Roomy (consume io k) stack := by
  rw [← consume_with_flags]
  exact .consume hk h.fits h.pos h.size h.loop
    (fun hf => ⟨(h.waits hf).1, (h.waits hf).2, htake hf⟩) (fun hf _ => h.room hf)

theorem prepareReadbuf_cases {len : Nat} (h : prepareReadbuf io len = .ok io') (hlen : len < 2 ^ 31)
    (hfits : AllocFits io len) : (io.kind ≠ .loop ∧ len ≤ io.readbuf.len ∧ io' = io) ∨
    ((io.kind = .loop ∨ io.readbuf.len < len) ∧ ∃ base, io' = { io with
      readbuf := { io.readbuf with base, len }, kind := .alloced, smallReadbytesCnt := 0 }) := by
  unfold prepareReadbuf intToSize at h
  split_ifs at h with hneeds
  · rcases hioAllocReadbuf_cases h with ⟨hover, -⟩ | ⟨-, -, rfl⟩
    · have := hfits hneeds
      omega
    · exact .inr ⟨hneeds, _, rfl⟩
  · exact .inl ⟨fun hk => hneeds (.inl hk), by omega, (Except.ok.inj h).symm⟩

theorem armUntilLength_eq (hle : io.readbuf.head ≤ io.readbuf.tail) (n : Nat) :
    ∃ base, armUntilLength io n = { io with
      readbuf := { io.readbuf with
        base, head := lengthStart io, tail := lengthStart io + (io.readbuf.tail - io.readbuf.head) }
      readFlags := { untilLength := true }
      readUntilLength := n } := by
  unfold armUntilLength lengthStart sizeSub
  dsimp only
  split_ifs with hmove
  · obtain ⟨base, heq, -⟩ := @hioMemmoveReadbuf_cases { io with
      readFlags := { untilLength := true }, readUntilLength := n } hle
    exact ⟨base, by rw [heq, Nat.zero_add]⟩
  · exact ⟨io.readbuf.base, by rw [Nat.add_sub_cancel' hle]⟩

theorem roomy_armedLength {n : Nat} {io₁ : Hio} (h : Roomy io stack) (hpos : 0 < n)
    (hn : io.readbuf.tail - io.readbuf.head < n)
    (hsize : lengthStart io + n < 2 ^ 31) (halloc : AllocFits io (lengthStart io + n))
    (hprep : prepareReadbuf (armUntilLength io n) (needLen (armUntilLength io n) n) = .ok io₁) :
    Roomy io₁ stack := by
  have hle := h.le
  obtain ⟨base, heq⟩ := armUntilLength_eq hle n
  have hneed : needLen (armUntilLength io n) n = lengthStart io + n := by
    rw [heq]
    exact Nat.mod_eq_of_lt (Nat.lt_trans hsize (by decide))
  have hempty : lengthStart io = lengthStart io + (io.readbuf.tail - io.readbuf.head) →
      lengthStart io + (io.readbuf.tail - io.readbuf.head) = 0 := by
    intro he
    have : lengthStart io = 0 := if_pos (.inr (by omega))
    omega
  rw [hneed, heq] at hprep
  rcases prepareReadbuf_cases hprep hsize halloc with ⟨hk, hlen, rfl⟩ | ⟨-, base', rfl⟩
  · refine ⟨Nat.le_add_right _ _, ?_, h.pos, h.size, hempty, h.loop, fun _ => ⟨?_, hlen⟩, nofun⟩
    · exact Nat.le_trans (Nat.add_le_add_left (Nat.le_of_lt hn) _) hlen
    · rw [Nat.add_sub_cancel_left]
      exact hn
  · refine ⟨Nat.le_add_right _ _, ?_, ?_, hsize, hempty, nofun,
      fun _ => ⟨?_, le_rfl⟩, nofun⟩
    · exact Nat.add_le_add_left (Nat.le_of_lt hn) _
    · exact Nat.lt_of_lt_of_le hpos (Nat.le_add_left _ _)
    · rw [Nat.add_sub_cancel_left]
      exact hn

theorem Roomy.tail_lt (h : Roomy io stack) : io.readbuf.tail < io.readbuf.len ∨ .handleRead ∈ stack := by
  by_cases hflag : io.readFlags.untilLength
  · obtain ⟨h1, h2⟩ := h.waits hflag
    exact .inl (by omega)
  · exact h.room (by simpa using hflag)

theorem roomy_armedDelim {io₁ : Hio} (h : Roomy io stack) (halloc : AllocFits io hloopReadBufsize)
    (hprep : prepareReadbuf (armUntilDelim io delim) hloopReadBufsize = .ok io₁) : Roomy io₁ stack := by
  rcases prepareReadbuf_cases hprep (by decide) halloc with ⟨-, -, rfl⟩ | ⟨hneeds, base, rfl⟩
  · exact ⟨h.le, h.fits, h.pos, h.size, h.empty, h.loop, nofun, fun _ => h.tail_lt⟩
  · have hlen : io.readbuf.len ≤ hloopReadBufsize := hneeds.elim h.loop Nat.le_of_lt
    refine ⟨h.le, Nat.le_trans h.fits hlen, (by decide : 0 < hloopReadBufsize),
      (by decide : hloopReadBufsize < 2 ^ 31), h.empty,
      nofun, nofun, fun _ => ?_⟩
    exact h.tail_lt.imp (fun hlt => Nat.lt_of_lt_of_le hlt hlen) id

theorem findDelim_of_buffered {i : Nat} (hle : io.readbuf.head ≤ io.readbuf.tail)
    (h : io.buffered.findIdx? (· == delim) = some i) : findDelim io delim = some i := by
  unfold findDelim
  have hlt : io.readbuf.tail ≠ io.readbuf.head := by
    intro heq
    rw [Hio.buffered, heq, slice_self] at h
    cases h
  rw [if_pos hlt, ← slice_append _ io.readbuf.tail hle (Nat.le_succ _), findIdx?_append]
  rw [Hio.buffered] at h
  rw [h]
  rfl

theorem roomy_servedDelim {i : Nat} (h : Roomy io stack)
    (hend : io.readbuf.head < io.readbuf.tail → delim ∉ io.buffered →
      io.readbuf.base io.readbuf.tail ≠ delim)
    (htake : ∀ i, io.buffered.findIdx? (· == delim) = some i → TakeFits io (i + 1))
    (hfind : findDelim io delim = some i) : io.readbuf.head + (i + 1) ≤ io.readbuf.tail ∧ TakeFits io (i + 1) := by
  obtain ⟨hk, bytes, heq, -⟩ := findDelim_some h.le hend hfind
  refine ⟨hk, ?_⟩
  cases hbuf : io.buffered.findIdx? (· == delim) with
  | some j =>
    have hj := findDelim_of_buffered h.le hbuf
    rw [hfind] at hj
    rw [Option.some.inj hj]
    exact htake j hbuf
  | none =>
    refine absurd ?_ (notMem_of_findIdx? hbuf)
    rw [Hio.buffered, ← slice_append _ (io.readbuf.head + (i + 1)) (by omega) hk, heq]
    simp

/-! ## Receiving -/

/-- `hio_handle_read` when `readbytes` bytes have just been received, which a waiting
    `hio_read_until_length` had asked for. -/
theorem roomy_handleRead {readbytes : Nat} (hopen : s.io.closed = false) (hread : 0 < readbytes)
    (hle : s.io.readbuf.head + readbytes ≤ s.io.readbuf.tail) (hfits : s.io.readbuf.tail ≤ s.io.readbuf.len)
    (hsize : s.io.readbuf.len < 2 ^ 31) (hloop : s.io.kind = .loop → s.io.readbuf.len ≤ hloopReadBufsize)
    (hlength : s.io.readFlags.untilLength →
      s.io.readbuf.tail - s.io.readbuf.head ≤ s.io.readUntilLength ∧
        s.io.readbuf.head + s.io.readUntilLength ≤ s.io.readbuf.len)
    (hdelim : s.io.readFlags.untilDelim → s.io.readbuf.tail = s.io.readbuf.len →
      ∀ i, (slice s.io.readbuf.base (s.io.readbuf.tail - readbytes) s.io.readbuf.tail).findIdx?
        (· == s.io.readUntilDelim) = some i → i + 1 = readbytes) :
    Roomy (handleRead s readbytes).io (handleRead s readbytes).stack := by
  have hpos : 0 < s.io.readbuf.len := by omega
  have hlt : s.io.readbuf.head < s.io.readbuf.tail := by omega
  have hcases := handleRead_cases hopen hlt.le readbytes
  generalize handleRead s readbytes = s' at hcases
  cases hcases with
  | length hflag hn hio =>
    have hroomy := @Roomy.consume s.io (.handleRead :: s.stack) s.io.readUntilLength
      { s.io.readFlags with untilLength := false } (by omega) hfits hpos hsize hloop
      nofun (fun _ _ => .inr (mem_cons_self ..))
    exact hroomy.congr hio (mem_cons_of_mem _)
  | lengthWaits hflag hn =>
    exact ⟨hlt.le, hfits, hpos, hsize, fun heq => absurd heq hlt.ne, hloop, fun _ => ⟨hn, (hlength hflag).2⟩,
      fun _ => .inr (mem_cons_self ..)⟩
  | @delim i io' hnl hflag hfind hio =>
    -- the autosize is skipped
    obtain ⟨hi, -⟩ := take_of_findIdx? hfind
    rw [length_slice] at hi
    have hroomy := @Roomy.consume s.io s.stack
      (s.io.readbuf.tail - readbytes + i + 1 - s.io.readbuf.head)
      { s.io.readFlags with untilDelim := false } (by omega) hfits hpos hsize hloop
      (fun hf => by simp [hnl] at hf) (fun _ hne => .inl ?_)
    · exact hroomy.congr hio (mem_cons_of_mem _)
    · by_contra hfull
      have := hdelim hflag (by omega) i hfind
      omega
  | delimWaits hnl hflag hfind =>
    exact ⟨hlt.le, hfits, hpos, hsize, fun heq => absurd heq hlt.ne, hloop, fun hf => (by simp [hnl] at hf),
      fun _ => .inr (mem_cons_self ..)⟩
  | plain hnl hnd hio =>
    rw [← consume_with_flags] at hio
    have hroomy := @Roomy.consume s.io (.handleRead :: s.stack) (s.io.readbuf.tail - s.io.readbuf.head)
      s.io.readFlags (by omega) hfits hpos hsize hloop (fun hf => by simp [hnl] at hf)
      (fun _ hne => absurd (by omega) hne)
    exact hroomy.congr hio (mem_cons_of_mem _)

theorem roomy_recv {seg : List UInt8} {again : Bool} (h : Roomy s.io s.stack) (hopen : s.io.closed = false)
    (hseg : seg ≠ []) (hlen : (seg.length : Int) ≤ nioReadLen s.io)
    (hok : FitsAllowed s (.recv (.data seg))) : let s' := handleRead { s with
      io := recvInto s.io seg, again, received := s.received ++ seg, stack } seg.length
    Roomy s'.io s'.stack := by
  have hle := h.le
  have hfits := h.fits
  rw [nioReadLen_eq h] at hlen
  have htail : (recvInto s.io seg).readbuf.tail = s.io.readbuf.tail + seg.length := rfl
  have hnew : s.io.readbuf.tail + seg.length ≤ s.io.readbuf.len ∧
      (s.io.readFlags.untilLength →
        s.io.readbuf.tail + seg.length - s.io.readbuf.head ≤ s.io.readUntilLength ∧
          s.io.readbuf.head + s.io.readUntilLength ≤ s.io.readbuf.len) := by
    split_ifs at hlen with hflag
    · obtain ⟨h1, h2⟩ := h.waits hflag
      exact ⟨by omega, fun _ => ⟨by omega, h2⟩⟩
    · exact ⟨by omega, fun hf => absurd hf hflag⟩
  refine roomy_handleRead hopen (length_pos_iff.2 hseg) ?_ hnew.1 h.size h.loop hnew.2 ?_
  · show s.io.readbuf.head + seg.length ≤ s.io.readbuf.tail + seg.length
    omega
  · intro hflag hfull i hfind
    refine hok hflag hfull i ?_
    have hslice := slice_recvInto s.io seg
    rwa [htail, Nat.add_sub_cancel, hslice] at hfind

/-! ## Autosize -/

theorem roomy_autosize (h : Roomy io (.handleRead :: stack))
    (hgrow : io.readbuf.head = 0 → io.readbuf.tail = io.readbuf.len →
      io.readbuf.len * 2 ≤ io.maxReadBufsize ∧ io.readbuf.len * 2 < 2 ^ 31)
    (hshrink : io.readFlags.untilLength → io.readbuf.tail < io.readbuf.len / 2 →
      io.smallReadbytesCnt ≥ 3 → io.readbuf.head + io.readUntilLength ≤ io.readbuf.len / 2)
    (hio : readbufAutosize io = .ok io') : Roomy io' stack := by
  have hle := h.le
  have hfits := h.fits
  have hpos := h.pos
  have hsize := h.size
  have hwaits := h.waits
  -- an empty buffer is rewound already
  have hrewound : rewound io = io := by
    rcases rewound_cases io with ⟨he, heq⟩ | ⟨-, heq⟩
    · rw [heq]
      show _ = { io with readbuf := { io.readbuf with head := io.readbuf.head, tail := io.readbuf.tail } }
      rw [he, h.empty he]
    · exact heq
  have hcases := readbufAutosize_cases hio
  rw [hrewound] at hcases
  rcases hcases with ⟨htail, hhead, ha⟩ | ⟨htail, hhead, rfl⟩ | ⟨hne, htail, hcnt, ha⟩ | ⟨hne, rfl⟩
  · obtain ⟨hmax, hint⟩ := hgrow hhead htail
    rw [Nat.mod_eq_of_lt (by omega)] at ha
    rcases hioAllocReadbuf_cases ha with ⟨hover, -⟩ | ⟨-, -, rfl⟩
    · omega
    · refine ⟨hle, ?_, ?_, hint, h.empty, nofun, fun hf => ?_, fun _ => .inl ?_⟩
      · show io.readbuf.tail ≤ io.readbuf.len * 2
        omega
      · show 0 < io.readbuf.len * 2
        omega
      · obtain ⟨h1, h2⟩ := hwaits hf
        omega
      · show io.readbuf.tail < io.readbuf.len * 2
        omega
  · obtain ⟨base, heq, -⟩ := hioMemmoveReadbuf_cases hle
    rw [heq]
    refine ⟨Nat.zero_le _, ?_, hpos, hsize, fun he => he.symm, h.loop, fun hf => ?_, fun _ => .inl ?_⟩
    · show io.readbuf.tail - io.readbuf.head ≤ io.readbuf.len
      omega
    · obtain ⟨h1, h2⟩ := hwaits hf
      omega
    · show io.readbuf.tail - io.readbuf.head < io.readbuf.len
      omega
  · rw [Nat.mod_eq_of_lt (by omega)] at ha
    rcases hioAllocReadbuf_cases ha with ⟨-, rfl⟩ | ⟨-, hint, rfl⟩
    · exact ⟨hle, hfits, hpos, hsize, h.empty, h.loop, hwaits, fun _ => .inl (by
        show io.readbuf.tail < io.readbuf.len
        omega)⟩
    · refine ⟨hle, Nat.le_of_lt htail, ?_, hint, h.empty, nofun, fun hf => ?_,
        fun _ => .inl htail⟩
      · show 0 < io.readbuf.len / 2
        omega
      · exact ⟨(hwaits hf).1, hshrink hf htail hcnt⟩
  · exact ⟨hle, hfits, hpos, hsize, h.empty, h.loop, hwaits, fun _ => .inl (by omega)⟩

/-! ## Runs -/

theorem roomy_step {act : ReadAct} (hopen : s.io.closed = false) (h : Roomy s.io s.stack)
    (hok : FitsAllowed s act) (hopen' : s'.io.closed = false) (hs : ReadCase s act s') : Roomy s'.io s'.stack := by
  have hle := h.le
  cases hs with
  | quiet stack again hio hstack => exact h.congr hio hstack
  | closed hc => simp [hopen'] at hc
  | remain act hflags hio =>
    exact (roomy_take h (by omega) fun _ => .inr (by omega)).congr hio (mem_cons_of_mem _)
  | @servedLength n io' hn hio =>
    rw [sizeSub, if_pos hle] at hn
    have htake : TakeFits s.io n := by
      rwa [FitsAllowed, if_pos hn] at hok
    exact (roomy_take h (by omega) htake).congr hio (mem_cons_of_mem _)
  | servedDelim hfind hio =>
    obtain ⟨hk, htake⟩ := roomy_servedDelim h hok.1 hok.2.1 hfind
    exact (roomy_take h hk htake).congr hio (mem_cons_of_mem _)
  | @armedLength n io₁ io' hpos hn hprep hio =>
    rw [sizeSub, if_pos hle] at hn
    rw [FitsAllowed, if_neg (by omega)] at hok
    exact (roomy_armedLength h hpos hn hok.1 hok.2 hprep).congr hio id
  | armedDelim hfind hprep hio =>
    exact (roomy_armedDelim h (hok.2.2 (findDelim_none hfind)) hprep).congr hio id
  | recv _ hseg hlen => exact roomy_recv h hopen hseg hlen hok
  | autosize hstack hio =>
    obtain ⟨hgrow, hshrink⟩ := hok (by rw [hstack]; rfl)
    rw [hstack] at h
    exact roomy_autosize h hgrow hshrink hio
  | loopReadbufUsed base hkind =>
    exact ⟨h.le, h.fits, h.pos, h.size, h.empty, h.loop, h.waits, h.room⟩

def FitsInit (s : ReadIo) : Prop := ReadInit s ∧ s.io.readbuf.len < 2 ^ 31

theorem roomy_init (h : FitsInit s) : Roomy s.io s.stack := by
  obtain ⟨⟨base, len, kind, maxReadBufsize, ssl, hpos, hloop, -, rfl⟩, hsize⟩ := h
  exact ⟨le_rfl, Nat.zero_le _, hpos, hsize, fun _ => rfl, fun hk => (hloop hk).le,
    nofun, fun _ => .inl hpos⟩

/-- In the runs that `FitsAllowed` admits, every read call of `nio_read` asks for at least one byte and
    for no more than the read buffer has room for. -/
theorem read_request_fits (h : Reachable readStep FitsAllowed FitsInit s) (hreads : s.reads = true) :
    0 < nioReadLen s.io ∧ s.io.readbuf.tail + nioReadLen s.io ≤ s.io.readbuf.len := by
  simp only [ReadIo.reads, Bool.and_eq_true, List.isEmpty_iff, Bool.not_eq_true'] at hreads
  obtain ⟨⟨hstack, hopen⟩, -⟩ := hreads
  have hroomy := open_invariant (I := fun s => Roomy s.io s.stack) (fun s hs => roomy_init hs)
    (fun s act s' hopen hs hok hopen' hcase => roomy_step hopen hs hok hopen' hcase) h hopen
  have hlt : s.io.readbuf.tail < s.io.readbuf.len :=
    hroomy.tail_lt.resolve_right (by rw [hstack]; exact List.not_mem_nil)
  rw [nioReadLen_eq hroomy]
  split_ifs with hflag
  · obtain ⟨h1, h2⟩ := hroomy.waits hflag
    omega
  · omega

theorem read_request_fits_partial :
    ∃ s, runFrom readStep readReady [.call (.hioReadUntilLength 10), .recv (.data [97, 98, 99, 100]),
        .resume, .resume] = some s ∧
      s.reads = true ∧ nioReadLen s.io = 6 ∧ s.io.readbuf.tail + nioReadLen s.io ≤ s.io.readbuf.len := by
  have h0 : Reachable readStep FitsAllowed FitsInit readReady := .start ⟨readInit_readReady, by decide⟩
  have hlength : FitsAllowed readReady (.call (.hioReadUntilLength 10)) := by
    exact ⟨by decide, fun _ => by decide⟩
  have h1 := step h0 hlength rfl
  have h2 := step (a := ReadAct.recv (.data [97, 98, 99, 100])) h1 nofun rfl
  have h3 := step (a := ReadAct.resume) h2
    (fun _ => ⟨fun _ htail => absurd htail (by decide), fun _ _ hcnt => absurd hcnt (by decide)⟩) rfl
  have h4 := step (a := ReadAct.resume) h3 nofun rfl
  exact ⟨_, rfl, rfl, rfl, (read_request_fits h4 rfl).2⟩

/-- Two of four buffered bytes are taken while `hio_read_until_length(10)` waits for ten: the next read
    asks for eight bytes behind the four, in a buffer of ten. -/
theorem read_request_overflows : ∃ s, Reachable readStep Always ReadInit s ∧ s.reads = true ∧
      s.io.readbuf.tail = 4 ∧ nioReadLen s.io = 8 ∧ s.io.readbuf.len = 10 := by
  exact ⟨_, run [.call (.hioReadUntilLength 10), .recv (.data [97, 98, 99, 100]), .resume, .resume,
    .call (.hioReadUntilLength 2), .ret, .call .hioReadOnce] (.start readInit_readReady) rfl, rfl, rfl, rfl, rfl⟩

end HvVerified.Event
