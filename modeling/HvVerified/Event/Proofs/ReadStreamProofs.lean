import HvVerified.Event.Proofs.ReadUntilProofs

/-!
# Proofs: reading loses no bytes

The slices passed to `read_cb` followed by the buffered bytes are the bytes received, and each slice is
what the request asked for, in the runs that avoid three things: `hio_read_until_delim` finds the
delimiter behind the buffered bytes, `hio_alloc_readbuf` replaces a buffer that it has not allocated
and that holds bytes, and a segment is received that does not fit in the buffer.
-/

namespace HvVerified.Event

open Lib Base List Hio Delivery Reachable

variable {len : Nat} {stack : List ReadCall} {io₁ : Hio} {delim : UInt8} {seg : List UInt8} {s s' : ReadIo}
  {io io' : Hio} {d r : List UInt8}

/-! ## The buffered bytes -/

theorem buffered_consume {k : Nat} (h : io.readbuf.head + k ≤ io.readbuf.tail) :
    slice io.readbuf.base io.readbuf.head (io.readbuf.head + k) ++ (consume io k).buffered = io.buffered := by
  rcases consume_cases io k with ⟨htail, heq⟩ | ⟨-, heq⟩
  · rw [heq, htail]
    simp [buffered]
  · rw [heq]
    exact slice_append _ _ (by omega) h

theorem buffered_recvInto (seg : List UInt8) (h : io.readbuf.head ≤ io.readbuf.tail) :
    (recvInto io seg).buffered = io.buffered ++ seg := by
  unfold recvInto buffered
  split_ifs
  · rw [slice_store_before _ _ le_rfl, slice_store_append _ _ h]
  · rw [slice_store_append _ _ h]

theorem slice_recvInto (io : Hio) (seg : List UInt8) :
    slice (recvInto io seg).readbuf.base io.readbuf.tail (io.readbuf.tail + seg.length) = seg := by
  unfold recvInto
  split_ifs
  · rw [slice_store_before _ _ le_rfl, slice_store_same]
  · rw [slice_store_same]

theorem hioMemmoveReadbuf_cases (h : io.readbuf.head ≤ io.readbuf.tail) : ∃ base, hioMemmoveReadbuf io = { io with
        readbuf := { io.readbuf with base, head := 0, tail := io.readbuf.tail - io.readbuf.head } } ∧
      slice base 0 (io.readbuf.tail - io.readbuf.head) = io.buffered := by
  unfold hioMemmoveReadbuf
  dsimp only
  split_ifs with h1 h2
  · refine ⟨io.readbuf.base, by rw [h1, Nat.sub_self], ?_⟩
    simp [buffered, h1]
  · refine ⟨_, rfl, ?_⟩
    have := slice_move io.readbuf.base 0 io.readbuf.head (io.readbuf.tail - io.readbuf.head)
    rw [Nat.zero_add] at this
    rw [this, buffered]
    congr 1
    omega
  · omega

/-- `hio_alloc_readbuf` keeps the buffered bytes: it copies them only from a buffer of its own. -/
def KeepsBytes (io : Hio) : Prop := io.kind = .alloced ∨ io.readbuf.head = io.readbuf.tail

theorem slice_allocBase {len : Nat} (h : KeepsBytes io) (hfits : io.readbuf.tail ≤ io.readbuf.len) :
    slice (allocBase io len) io.readbuf.head io.readbuf.tail = io.buffered := by
  unfold allocBase
  rcases h with hk | he
  · rw [if_pos hk]
    exact slice_hvRealloc _ hfits
  · rw [buffered, he]
    simp

/-! ## What every part of a step keeps -/

/-- The bytes `d` delivered and those in the buffer are the bytes `r` received. -/
structure Bytes (io : Hio) (d r : List UInt8) : Prop where
  le : io.readbuf.head ≤ io.readbuf.tail
  fits : io.readbuf.tail ≤ io.readbuf.len
  stream : d ++ io.buffered = r
  count : io.kind ≠ .alloced → io.smallReadbytesCnt = 0
  size : io.kind = .alloced → io.readbuf.len < 2 ^ 31

theorem SameRequest.buffered (h : SameRequest io io') : io'.buffered = io.buffered := by
  rw [Hio.buffered, Hio.buffered, h.readbuf]

theorem Bytes.congr (h : Bytes io d r) (hsame : SameRequest io io') : Bytes io' d r := by
  refine ⟨?_, ?_, ?_, fun hk => ?_, fun hk => ?_⟩
  · rw [hsame.readbuf]
    exact h.le
  · rw [hsame.readbuf]
    exact h.fits
  · rw [hsame.buffered]
    exact h.stream
  · rw [hsame.kind] at hk
    rw [hsame.count hk]
    exact h.count hk
  · rw [hsame.kind] at hk
    rw [hsame.readbuf]
    exact h.size hk

theorem Bytes.recv {seg : List UInt8} (h : Bytes io d r)
    (hseg : io.readbuf.tail + seg.length ≤ io.readbuf.len) : Bytes (recvInto io seg) d (r ++ seg) := by
  refine ⟨Nat.le_trans h.le (Nat.le_add_right _ _), hseg, ?_, h.count, h.size⟩
  rw [buffered_recvInto seg h.le, ← append_assoc, h.stream]

theorem Bytes.memmove (h : Bytes io d r) :
    Bytes (hioMemmoveReadbuf io) d r ∧ (hioMemmoveReadbuf io).buffered = io.buffered := by
  obtain ⟨base, heq, hslice⟩ := hioMemmoveReadbuf_cases h.le
  have hfits := h.fits
  rw [heq]
  refine ⟨⟨Nat.zero_le _, ?_, ?_, h.count, h.size⟩, hslice⟩
  · show io.readbuf.tail - io.readbuf.head ≤ io.readbuf.len
    omega
  · show d ++ slice base 0 (io.readbuf.tail - io.readbuf.head) = r
    rw [hslice]
    exact h.stream

theorem Bytes.alloc (h : Bytes io d r) (hkeeps : KeepsBytes io)
    (hlen : len < 2 ^ 31 → io.readbuf.tail ≤ len) (ha : hioAllocReadbuf io len = .ok io') :
    Bytes io' d r ∧ io'.buffered = io.buffered := by
  rcases hioAllocReadbuf_cases ha with ⟨-, rfl⟩ | ⟨-, hint, rfl⟩
  · exact ⟨⟨h.le, h.fits, h.stream, h.count, h.size⟩, rfl⟩
  · have hslice := @slice_allocBase io len hkeeps h.fits
    refine ⟨⟨h.le, hlen hint, ?_, fun hk => absurd rfl hk, fun _ => hint⟩, hslice⟩
    show d ++ slice (allocBase io len) io.readbuf.head io.readbuf.tail = r
    rw [hslice]
    exact h.stream

/-! ## The invariant -/

/-- The buffer of the loop holds no bytes between two steps, and while a delimiter is waited for none has
    been received. -/
structure Stream (io : Hio) (d r : List UInt8) : Prop extends Bytes io d r where
  loop : io.kind = .loop → io.readbuf.head = 0 ∧ io.readbuf.tail = 0
  plain : io.kind = .loop → io.readFlags.untilLength = false ∧ io.readFlags.untilDelim = false
  delim : io.readFlags.untilDelim → io.readUntilDelim ∉ io.buffered
  single : io.readFlags.untilLength → io.readFlags.untilDelim = false

theorem Stream.congr (h : Stream io d r) (hsame : SameRequest io io') : Stream io' d r := by
  refine ⟨h.toBytes.congr hsame, fun hk => ?_, fun hk => ?_, fun hf => ?_, fun hf => ?_⟩
  · rw [hsame.kind] at hk
    rw [hsame.readbuf]
    exact h.loop hk
  · rw [hsame.kind] at hk
    rw [hsame.untilLength, hsame.untilDelim]
    exact h.plain hk
  · rw [hsame.untilDelim] at hf
    rw [hsame.buffered, readUntilDelim, hsame.readUntilLength]
    exact h.delim hf
  · rw [hsame.untilLength] at hf
    rw [hsame.untilDelim]
    exact h.single hf

theorem Stream.consume {k : Nat} {flags : ReadFlags} (h : Bytes io d r) (hk : io.readbuf.head + k ≤ io.readbuf.tail)
    (hloop : io.kind = .loop → io.readbuf.head + k = io.readbuf.tail ∧
      flags.untilLength = false ∧ flags.untilDelim = false)
    (hdelim : flags.untilDelim → io.readUntilDelim ∉ io.buffered)
    (hsingle : flags.untilLength → flags.untilDelim = false) : Stream { consume io k with readFlags := flags }
      (d ++ slice io.readbuf.base io.readbuf.head (io.readbuf.head + k)) r := by
  have hstream := h.stream
  have hbuf := buffered_consume hk
  have hdelim' : flags.untilDelim → io.readUntilDelim ∉ (HvVerified.Event.consume io k).buffered := by
    intro hf hmem
    exact hdelim hf (hbuf ▸ mem_append_right _ hmem)
  rw [← hbuf, ← append_assoc] at hstream
  rcases consume_cases io k with ⟨-, heq⟩ | ⟨hne, heq⟩
  · rw [heq] at hstream hdelim' ⊢
    exact ⟨⟨le_rfl, Nat.zero_le _, hstream, h.count, h.size⟩, fun _ => ⟨rfl, rfl⟩,
      fun hl => (hloop hl).2, hdelim', hsingle⟩
  · rw [heq] at hstream hdelim' ⊢
    exact ⟨⟨hk, h.fits, hstream, h.count, h.size⟩, fun hl => absurd (hloop hl).1 hne,
      fun hl => (hloop hl).2, hdelim', hsingle⟩

theorem Stream.alloc (h : Stream io d r) (hkeeps : KeepsBytes io)
    (hlen : len < 2 ^ 31 → io.readbuf.tail ≤ len) (ha : hioAllocReadbuf io len = .ok io') : Stream io' d r := by
  obtain ⟨hbytes, hbuf⟩ := h.toBytes.alloc hkeeps hlen ha
  rcases hioAllocReadbuf_cases ha with ⟨-, rfl⟩ | ⟨-, -, rfl⟩
  · exact ⟨hbytes, h.loop, h.plain, h.delim, h.single⟩
  · refine ⟨hbytes, nofun, nofun, fun hf => ?_, h.single⟩
    rw [hbuf]
    exact h.delim hf

theorem Stream.memmove (h : Stream io d r) : Stream (hioMemmoveReadbuf io) d r := by
  obtain ⟨hbytes, hbuf⟩ := h.toBytes.memmove
  obtain ⟨base, heq, -⟩ := hioMemmoveReadbuf_cases h.le
  rw [heq] at hbytes hbuf ⊢
  refine ⟨hbytes, fun hl => ⟨rfl, ?_⟩, h.plain, fun hf => ?_, h.single⟩
  · show io.readbuf.tail - io.readbuf.head = 0
    have := h.loop hl
    omega
  · rw [hbuf]
    exact h.delim hf

theorem Stream.rewound (h : Stream io d r) : Stream (rewound io) d r := by
  rcases rewound_cases io with ⟨he, heq⟩ | ⟨-, heq⟩
  · have hnil : io.buffered = [] := by simp [buffered, he]
    have hstream := h.stream
    rw [hnil] at hstream
    rw [heq]
    exact ⟨⟨le_rfl, Nat.zero_le _, hstream, h.count, h.size⟩, fun _ => ⟨rfl, rfl⟩, h.plain,
      fun _ => by simp [buffered], h.single⟩
  · rw [heq]
    exact h

/-! ## The runs -/

def Delivery.Exact (d : Delivery) : Prop :=
  match d.mode with
  | .plain => True
  | .untilLength n => d.bytes.length = n
  | .untilDelim delim => ∃ bytes, d.bytes = bytes ++ [delim] ∧ delim ∉ bytes

/-- If the read buffer has to be allocated for `len` bytes, no buffered bytes are lost, and the buffer of
    the loop is not kept. -/
def AllocKeeps (io : Hio) (len : Nat) : Prop :=
  io.kind = .loop ∨ io.readbuf.len < intToSize len →
    KeepsBytes io ∧ (io.kind = .loop → len ≤ io.maxReadBufsize)

def StreamAllowed (s : ReadIo) : ReadAct → Prop
  | .call (.hioReadUntilLength n) =>
    sizeSub s.io.readbuf.tail s.io.readbuf.head < n →
      AllocKeeps (armUntilLength s.io n) (needLen (armUntilLength s.io n) n)
  | .call (.hioReadUntilDelim delim) =>
    (s.io.readbuf.head < s.io.readbuf.tail → delim ∉ s.io.buffered →
      s.io.readbuf.base s.io.readbuf.tail ≠ delim) ∧
    (delim ∉ s.io.buffered → AllocKeeps s.io hloopReadBufsize)
  | .recv (.data seg) => s.io.readbuf.tail + seg.length ≤ s.io.readbuf.len
  | .resume =>
    s.stack.head? = some .handleRead → s.io.readbuf.head < s.io.readbuf.tail →
      s.io.readbuf.head = 0 → s.io.readbuf.tail = s.io.readbuf.len → s.io.kind = .alloced
  | _ => True

structure Faithful (s : ReadIo) : Prop where
  stream : Stream s.io (s.deliveries.flatMap bytes) s.received
  exact : ∀ d ∈ s.deliveries, d.Exact

theorem faithful_taken {k : Nat} {flags : ReadFlags} {mode : ReadMode} (h : ∀ d ∈ s.deliveries, d.Exact)
    (hstream : Stream { consume s.io k with readFlags := flags } (s.deliveries.flatMap bytes ++
      slice s.io.readbuf.base s.io.readbuf.head (s.io.readbuf.head + k)) s.received)
    (hio : SameRequest { consume s.io k with readFlags := flags } io') (hexact : Delivery.Exact
      { mode, bytes := slice s.io.readbuf.base s.io.readbuf.head (s.io.readbuf.head + k) }) :
    Faithful (({ s with stack } : ReadIo).taken io' mode k) := by
  refine ⟨by simpa [ReadIo.taken] using hstream.congr hio, fun d hd => ?_⟩
  rcases mem_append.1 hd with hd | hd
  · exact h d hd
  · rw [mem_singleton.1 hd]
    exact hexact

theorem Bytes.prepare (h : Bytes io d r) (hloop : io.kind = .loop → io.readbuf.tail = 0)
    (hkeeps : AllocKeeps io len) (hp : prepareReadbuf io len = .ok io') :
    Bytes io' d r ∧ io'.buffered = io.buffered ∧ io'.kind ≠ .loop ∧ io'.readFlags = io.readFlags ∧
      io'.readUntilLength = io.readUntilLength := by
  unfold prepareReadbuf at hp
  split_ifs at hp with hneed
  · obtain ⟨hk, hmax⟩ := hkeeps hneed
    have htail : len < 2 ^ 31 → io.readbuf.tail ≤ len := by
      intro hint
      have hfits := h.fits
      rcases hneed with hl | hlt
      · rw [hloop hl]
        exact Nat.zero_le _
      · rw [intToSize, if_pos hint] at hlt
        omega
    obtain ⟨hbytes, hbuf⟩ := h.alloc hk htail hp
    rcases hioAllocReadbuf_cases hp with ⟨hover, rfl⟩ | ⟨-, -, rfl⟩
    · refine ⟨hbytes, hbuf, fun hl => ?_, rfl, rfl⟩
      have := hmax hl
      omega
    · exact ⟨hbytes, hbuf, by simp, rfl, rfl⟩
  · cases hp
    exact ⟨h, rfl, fun hl => hneed (.inl hl), rfl, rfl⟩

theorem armUntilLength_bytes (h : Bytes io d r) (n : Nat) :
    Bytes (armUntilLength io n) d r ∧ (armUntilLength io n).readFlags = { untilLength := true } ∧
      (armUntilLength io n).kind = io.kind ∧ (armUntilLength io n).readbuf.tail ≤ io.readbuf.tail := by
  have harm : Bytes { io with readFlags := { untilLength := true }, readUntilLength := n } d r :=
    ⟨h.le, h.fits, h.stream, h.count, h.size⟩
  unfold armUntilLength
  dsimp only
  split_ifs
  · refine ⟨harm.memmove.1, ?_⟩
    obtain ⟨base, heq, -⟩ := hioMemmoveReadbuf_cases harm.le
    rw [heq]
    exact ⟨rfl, rfl, Nat.sub_le _ _⟩
  · exact ⟨harm, rfl, rfl, le_rfl⟩

theorem faithful_armedLength {n : Nat} (h : Faithful s)
    (hkeeps : AllocKeeps (armUntilLength s.io n) (needLen (armUntilLength s.io n) n))
    (hprep : prepareReadbuf (armUntilLength s.io n) (needLen (armUntilLength s.io n) n) = .ok io₁)
    (hio : SameRequest io₁ io') : Faithful { s with io := io' } := by
  obtain ⟨hbytes, hflags, hkind, htail⟩ := armUntilLength_bytes h.stream.toBytes n
  have hloop : (armUntilLength s.io n).kind = .loop → (armUntilLength s.io n).readbuf.tail = 0 := by
    intro hl
    rw [hkind] at hl
    have := (h.stream.loop hl).2
    omega
  obtain ⟨hbytes', -, hnot, hflags', -⟩ := hbytes.prepare hloop hkeeps hprep
  rw [hflags] at hflags'
  have hstream : Stream io₁ (s.deliveries.flatMap bytes) s.received :=
    ⟨hbytes', fun hl => absurd hl hnot, fun hl => absurd hl hnot,
      fun hf => (by rw [hflags'] at hf; cases hf), fun _ => (by rw [hflags'])⟩
  exact ⟨hstream.congr hio, h.exact⟩

theorem findDelim_none (h : findDelim io delim = none) : delim ∉ io.buffered := by
  unfold findDelim at h
  split_ifs at h with hne
  · intro hmem
    refine notMem_of_findIdx? h ?_
    by_cases hle : io.readbuf.head ≤ io.readbuf.tail
    · rw [← slice_append _ io.readbuf.tail hle (Nat.le_succ _)]
      exact mem_append_left _ hmem
    · rw [buffered, slice_eq_nil (by omega)] at hmem
      cases hmem
  · rw [buffered, not_not.1 hne]
    simp

/-- A delimiter that is found is one of the buffered bytes, unless it is the byte behind them. -/
theorem findDelim_some {i : Nat} (hle : io.readbuf.head ≤ io.readbuf.tail)
    (hend : io.readbuf.head < io.readbuf.tail → delim ∉ io.buffered →
      io.readbuf.base io.readbuf.tail ≠ delim)
    (h : findDelim io delim = some i) : io.readbuf.head + (i + 1) ≤ io.readbuf.tail ∧
      ∃ bytes, slice io.readbuf.base io.readbuf.head (io.readbuf.head + (i + 1)) = bytes ++ [delim] ∧
        delim ∉ bytes := by
  unfold findDelim at h
  split_ifs at h with hne
  obtain ⟨hlt, bytes, htake, hnot⟩ := take_of_findIdx? h
  rw [length_slice] at hlt
  rw [take_slice _ (by omega)] at htake
  refine ⟨?_, bytes, htake, hnot⟩
  by_contra hgt
  -- the first delimiter is the byte behind the buffered ones
  have hi : io.readbuf.head + (i + 1) = io.readbuf.tail + 1 := by omega
  rw [hi, ← slice_append _ io.readbuf.tail hle (Nat.le_succ _), slice_succ _ (Nat.lt_succ_self _),
    slice_self] at htake
  obtain ⟨hbuf, hlast⟩ := append_inj' htake rfl
  exact hend (by omega) (by rw [buffered, hbuf]; exact hnot) (cons.inj hlast).1

theorem faithful_armedDelim (h : Faithful s)
    (hfind : findDelim s.io delim = none) (hkeeps : AllocKeeps s.io hloopReadBufsize)
    (hprep : prepareReadbuf (armUntilDelim s.io delim) hloopReadBufsize = .ok io₁)
    (hio : SameRequest io₁ io') : Faithful { s with io := io' } := by
  have hb := h.stream.toBytes
  have harm : Bytes (armUntilDelim s.io delim) (s.deliveries.flatMap bytes) s.received :=
    ⟨hb.le, hb.fits, hb.stream, hb.count, hb.size⟩
  obtain ⟨hbytes, hbuf, hnot, hflags, huntil⟩ := harm.prepare (fun hl => (h.stream.loop hl).2) hkeeps hprep
  have hstream : Stream io₁ (s.deliveries.flatMap bytes) s.received := by
    refine ⟨hbytes, fun hl => absurd hl hnot, fun hl => absurd hl hnot, fun _ => ?_, fun hf => ?_⟩
    · have hd : io₁.readUntilDelim = delim := by
        rw [readUntilDelim, huntil]
        exact UInt8.ofNat_toNat
      rw [hd, hbuf]
      exact findDelim_none hfind
    · rw [hflags] at hf
      cases hf
  exact ⟨hstream.congr hio, h.exact⟩

/-! ## Receiving -/

/-- `hio_handle_read` when the segment `seg` has just been appended to the bytes `old`. -/
theorem faithful_handleRead {old : List UInt8} (hopen : s.io.closed = false) (hexact : ∀ d ∈ s.deliveries, d.Exact)
    (hb : Bytes s.io (s.deliveries.flatMap bytes) s.received)
    (hold : old.length + seg.length = s.io.readbuf.tail - s.io.readbuf.head) (hbuf : s.io.buffered = old ++ seg)
    (hlast : slice s.io.readbuf.base (s.io.readbuf.tail - seg.length) s.io.readbuf.tail = seg)
    (hplain : s.io.kind = .loop → s.io.readFlags.untilLength = false ∧ s.io.readFlags.untilDelim = false)
    (hdelim : s.io.readFlags.untilDelim → s.io.readUntilDelim ∉ old)
    (hsingle : s.io.readFlags.untilLength → s.io.readFlags.untilDelim = false) :
    Faithful (handleRead s seg.length) := by
  have hle := hb.le
  have hcases := handleRead_cases hopen hle seg.length
  generalize handleRead s seg.length = s' at hcases
  cases hcases with
  | length hflag hn hio =>
    have hnd := hsingle hflag
    have hk : s.io.kind ≠ .loop := fun hl => by simp [(hplain hl).1] at hflag
    exact faithful_taken hexact (.consume hb (by omega) (fun hl => absurd hl hk) (fun hf => by simp [hnd] at hf)
      (fun hf => by cases hf)) hio (length_taken _ _)
  | lengthWaits hflag hn =>
    have hnd := hsingle hflag
    have hk : s.io.kind ≠ .loop := fun hl => by simp [(hplain hl).1] at hflag
    exact ⟨⟨hb, fun hl => absurd hl hk, hplain, fun hf => (by simp [hnd] at hf), hsingle⟩, hexact⟩
  | @delim i io' hlength hflag hfind hio =>
    have hk : s.io.kind ≠ .loop := fun hl => by simp [(hplain hl).2] at hflag
    rw [hlast] at hfind
    obtain ⟨hlt, bytes, htake, hnot⟩ := take_of_findIdx? hfind
    refine @faithful_taken s.stack _ _ _ _ _ hexact
      (.consume hb (by omega) (fun hl => absurd hl hk) (fun hf => by cases hf) (fun _ => rfl)) hio ⟨old ++ bytes, ?_, ?_⟩
    · show slice _ _ _ = _
      rw [← @take_slice _ _ _ s.io.readbuf.tail _ (by omega)]
      have htake' : s.io.buffered.take (old.length + (i + 1)) = old ++ seg.take (i + 1) := by
        rw [hbuf, take_length_add_append]
      rw [append_assoc, ← htake, ← htake', buffered]
      congr 1
      omega
    · simp only [mem_append, not_or]
      exact ⟨hdelim hflag, hnot⟩
  | delimWaits hlength hflag hfind =>
    have hk : s.io.kind ≠ .loop := fun hl => by simp [(hplain hl).2] at hflag
    rw [hlast] at hfind
    refine ⟨⟨hb, fun hl => absurd hl hk, hplain, fun _ => ?_, hsingle⟩, hexact⟩
    rw [hbuf]
    simp only [mem_append, not_or]
    exact ⟨hdelim hflag, notMem_of_findIdx? hfind⟩
  | plain hlength hnd hio =>
    rw [← consume_with_flags] at hio
    exact faithful_taken hexact (.consume hb (by omega) (fun _ => ⟨by omega, hlength, hnd⟩)
      (fun hf => by simp [hnd] at hf) hsingle) hio trivial

theorem faithful_recv (hopen : s.io.closed = false) (h : Faithful s)
    (hseg : s.io.readbuf.tail + seg.length ≤ s.io.readbuf.len) : Faithful (handleRead
      { s with io := recvInto s.io seg, again := false, received := s.received ++ seg, stack } seg.length) := by
  have hle := h.stream.le
  refine faithful_handleRead hopen h.exact (h.stream.toBytes.recv hseg) ?_ (buffered_recvInto seg hle) ?_
    h.stream.plain h.stream.delim h.stream.single
  · rw [buffered, length_slice]
    show _ = s.io.readbuf.tail + seg.length - s.io.readbuf.head
    omega
  · show slice _ (s.io.readbuf.tail + seg.length - seg.length) (s.io.readbuf.tail + seg.length) = seg
    rw [Nat.add_sub_cancel]
    exact slice_recvInto s.io seg

/-! ## Autosize -/

theorem faithful_autosize (h : Faithful s) (hok : s.io.readbuf.head < s.io.readbuf.tail → s.io.readbuf.head = 0 →
      s.io.readbuf.tail = s.io.readbuf.len → s.io.kind = .alloced)
    (hio : readbufAutosize s.io = .ok io') : Faithful { s with io := io', stack } := by
  have hstream := h.stream.rewound
  rcases readbufAutosize_cases hio with ⟨htail, hhead, ha⟩ | ⟨-, -, rfl⟩ | ⟨-, htail, hcnt, ha⟩ | ⟨-, rfl⟩
  · rcases rewound_cases s.io with ⟨-, heq⟩ | ⟨hne, heq⟩
    · -- the buffer is empty
      rw [heq] at ha hstream
      exact ⟨hstream.alloc (.inr rfl) (fun _ => Nat.zero_le _) ha, h.exact⟩
    · rw [heq] at ha hstream htail hhead
      have hk := hok (by omega) hhead htail
      have hsize := h.stream.size hk
      exact ⟨hstream.alloc (.inl hk) (fun _ => by omega) ha, h.exact⟩
  · exact ⟨hstream.memmove, h.exact⟩
  · have hk : s.io.kind = .alloced := by
      by_contra hk
      have := h.stream.count hk
      omega
    have hsize := h.stream.size hk
    have hkeeps : KeepsBytes (rewound s.io) := by
      rcases rewound_cases s.io with ⟨-, heq⟩ | ⟨-, heq⟩ <;> rw [heq] <;> exact .inl hk
    exact ⟨hstream.alloc hkeeps (fun _ => by omega) ha, h.exact⟩
  · exact ⟨hstream, h.exact⟩

/-! ## Runs -/

theorem faithful_step {act : ReadAct} (hopen : s.io.closed = false) (h : Faithful s)
    (hok : StreamAllowed s act) (hopen' : s'.io.closed = false) (hs : ReadCase s act s') : Faithful s' := by
  have hb := h.stream.toBytes
  have hle := hb.le
  have htaken : ∀ k, s.io.readbuf.head + k ≤ s.io.readbuf.tail →
      Stream { consume s.io k with readFlags := s.io.readFlags } (s.deliveries.flatMap bytes ++
        slice s.io.readbuf.base s.io.readbuf.head (s.io.readbuf.head + k)) s.received := by
    intro k hk
    refine .consume hb hk (fun hl => ⟨?_, h.stream.plain hl⟩) h.stream.delim h.stream.single
    have := h.stream.loop hl
    omega
  cases hs with
  | quiet stack again hio _ => exact ⟨h.stream.congr hio, h.exact⟩
  | closed hc => simp [hopen'] at hc
  | remain act hflags hio =>
    rw [← consume_with_flags] at hio
    exact @faithful_taken s.stack _ _ _ _ _ h.exact (htaken _ (by omega)) hio trivial
  | @servedLength n io' hn hio =>
    rw [sizeSub, if_pos hle] at hn
    rw [← consume_with_flags] at hio
    exact @faithful_taken s.stack _ _ _ _ _ h.exact (htaken n (by omega)) hio (length_taken _ _)
  | servedDelim hfind hio =>
    obtain ⟨hk, bytes, heq, hnot⟩ := findDelim_some hle hok.1 hfind
    rw [← consume_with_flags] at hio
    exact @faithful_taken s.stack _ _ _ _ _ h.exact (htaken _ hk) hio ⟨bytes, heq, hnot⟩
  | armedLength hpos hn hprep hio => exact faithful_armedLength h (hok hn) hprep hio
  | armedDelim hfind hprep hio =>
    exact faithful_armedDelim h hfind (hok.2 (findDelim_none hfind)) hprep hio
  | recv _ _ _ => exact faithful_recv hopen h hok
  | autosize hstack hio => exact faithful_autosize h (hok (by rw [hstack]; rfl)) hio
  | loopReadbufUsed base hkind =>
    -- there is nothing in the buffer that the other io could overwrite
    obtain ⟨hhead, htail⟩ := h.stream.loop hkind
    have hnil : ∀ base : BytePtr, slice base s.io.readbuf.head s.io.readbuf.tail = [] := by
      intro base
      rw [hhead, htail, slice_self]
    have hstream := hb.stream
    rw [buffered, hnil] at hstream
    refine ⟨⟨⟨hle, hb.fits, ?_, hb.count, hb.size⟩, h.stream.loop, h.stream.plain, fun _ => ?_,
      h.stream.single⟩, h.exact⟩
    · show _ ++ slice base s.io.readbuf.head s.io.readbuf.tail = _
      rw [hnil]
      exact hstream
    · show _ ∉ slice base s.io.readbuf.head s.io.readbuf.tail
      rw [hnil]
      simp

theorem faithful_init (h : ReadInit s) : Faithful s := by
  obtain ⟨base, len, kind, maxReadBufsize, ssl, -, -, hsize, rfl⟩ := h
  have hbytes : Bytes { hioReady with
      readbuf := { base, len, head := 0, tail := 0 }, kind, maxReadBufsize } [] [] :=
    ⟨le_rfl, Nat.zero_le _, by simp [buffered], fun _ => rfl, hsize⟩
  exact ⟨⟨hbytes, fun _ => ⟨rfl, rfl⟩, fun _ => ⟨rfl, rfl⟩, fun _ => by simp [buffered], fun _ => rfl⟩,
    fun d hd => by cases hd⟩

/-- In the runs that `StreamAllowed` admits, as long as the io is open: the slices passed to `read_cb`
    followed by the buffered bytes are the bytes received, `hio_read_until_length(n)` is answered by `n`
    bytes, and `hio_read_until_delim(delim)` by bytes that end with their only `delim`. -/
theorem read_stream_faithful (h : Reachable readStep StreamAllowed ReadInit s) (hopen : s.io.closed = false) :
    s.io.readbuf.head ≤ s.io.readbuf.tail ∧
      s.deliveries.flatMap Delivery.bytes ++ s.io.buffered = s.received ∧
      ∀ d ∈ s.deliveries, d.Exact := by
  have hinv := open_invariant (I := Faithful) (fun s hs => faithful_init hs)
    (fun s act s' hopen hs hok hopen' hcase => faithful_step hopen hs hok hopen' hcase) h hopen
  exact ⟨hinv.stream.le, hinv.stream.stream, hinv.exact⟩

def readReady : ReadIo := { io := hioReady }

theorem readInit_readReady : ReadInit readReady :=
  ⟨loopReadbuf.base, hloopReadBufsize, .loop, maxReadBufsizeDefault, false, by decide, fun _ => rfl,
    nofun, rfl⟩

/-- Of four bytes, two answer the first request; the next one is answered from the rest, and a byte is left. -/
theorem read_stream_faithful_two_bytes :
    ∃ s, runFrom readStep readReady [.call (.hioReadUntilDelim 2), .recv (.data [1, 2, 3, 4]),
        .call (.hioReadUntilLength 1)] = some s ∧
      s.deliveries = [{ mode := .untilDelim 2, bytes := [1, 2] }, { mode := .untilLength 1, bytes := [3] }] ∧
      s.io.buffered = [4] ∧ s.deliveries.flatMap Delivery.bytes ++ s.io.buffered = s.received := by
  have h0 : Reachable readStep StreamAllowed ReadInit readReady := .start readInit_readReady
  have hdelim : StreamAllowed readReady (.call (.hioReadUntilDelim 2)) :=
    ⟨fun h => absurd h (by decide), fun _ _ => ⟨.inr rfl, fun _ => by decide⟩⟩
  have h1 := step h0 hdelim rfl
  have h2 := step (a := ReadAct.recv (.data [1, 2, 3, 4])) h1 (show 0 + 4 ≤ hloopReadBufsize by decide) rfl
  have h3 := step (a := ReadAct.call (.hioReadUntilLength 1)) h2 (fun h => absurd h (by decide)) rfl
  exact ⟨_, rfl, rfl, rfl, (read_stream_faithful h3 rfl).2.1⟩

/-- `hio_read_until_delim(0)` on two buffered bytes finds the zero byte that `nio_read` has put behind
    them: it is delivered with them, and `head` is beyond `tail`. -/
theorem delim_found_behind_tail :
    ∃ s, Reachable readStep Always ReadInit s ∧ s.io.closed = false ∧ s.received = [97, 10, 98, 99] ∧
      s.deliveries = [{ mode := .untilDelim 10, bytes := [97, 10] },
        { mode := .untilDelim 0, bytes := [98, 99, 0] }] ∧
      s.io.readbuf.head = 5 ∧ s.io.readbuf.tail = 4 := by
  exact ⟨_, run [.call (.hioReadUntilDelim 10), .recv (.data [97, 10, 98, 99]), .call (.hioReadUntilDelim 0)]
    (.start readInit_readReady) rfl, rfl, rfl, rfl, rfl, rfl⟩

end HvVerified.Event
