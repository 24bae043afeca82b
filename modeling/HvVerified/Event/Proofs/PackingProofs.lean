import HvVerified.Event.NioRead

/-!
# Proofs: the read buffer of an io with an unpack setting

What the unpack modes have in common. Between two reads the buffer starts with the bytes that are not
consumed, and its size is at most the maximal package length (`Packing`); receiving, keeping the rest and
resizing preserve that and the buffered bytes.
-/

namespace HvVerified.Event

open Base Lib

variable {io : Hio}

def allocBase (io : Hio) (len : Nat) : BytePtr :=
  if io.kind = .alloced then hvRealloc io.readbuf.base len io.readbuf.len else fun _ => 0

theorem hioAllocReadbuf_eq {len : Nat} (hle : len ≤ io.maxReadBufsize) (hint : len < 2 ^ 31) :
    hioAllocReadbuf io len = .ok { io with
      readbuf := { io.readbuf with base := allocBase io len, len := len }
      kind := .alloced
      smallReadbytesCnt := 0 } := by
  unfold hioAllocReadbuf
  rw [if_neg (by omega), if_neg (by omega)]
  rfl

theorem hioAllocReadbuf_cases {io io' : Hio} {len : Nat} (h : hioAllocReadbuf io len = .ok io') :
    (io.maxReadBufsize < len ∧ io' = hioCloseAsync { io with error := .overLimit }) ∨
    (len ≤ io.maxReadBufsize ∧ len < 2 ^ 31 ∧ io' = { io with
      readbuf := { io.readbuf with base := allocBase io len, len := len }
      kind := .alloced
      smallReadbytesCnt := 0 }) := by
  by_cases hover : io.maxReadBufsize < len
  · unfold hioAllocReadbuf at h
    rw [if_pos hover] at h
    exact Or.inl ⟨hover, (Except.ok.inj h).symm⟩
  · by_cases hint : len < 2 ^ 31
    · rw [hioAllocReadbuf_eq (by omega) hint] at h
      exact Or.inr ⟨by omega, hint, (Except.ok.inj h).symm⟩
    · unfold hioAllocReadbuf at h
      rw [if_neg hover, if_pos (by omega)] at h
      cases h

theorem hioAllocReadbuf_bind_fuel {α : Type} {len : Nat} {f : Hio → α} :
    (do let io ← hioAllocReadbuf io len; Except.ok (f io)) ≠ .error .outOfFuel := by
  unfold hioAllocReadbuf
  split_ifs <;> simp [bind, Except.bind]

theorem slice_hvRealloc (base : BytePtr) {newsize oldsize lo hi : Nat} (h : hi ≤ oldsize) :
    slice (hvRealloc base newsize oldsize) lo hi = slice base lo hi := by
  apply slice_congr rfl
  intro i hi'
  unfold hvRealloc
  rw [if_neg (by omega)]

@[simp] theorem hioReadCb_readbuf (io : Hio) (bytes : List UInt8) : (hioReadCb io bytes).readbuf = io.readbuf := by
  unfold hioReadCb hioReadCbEnter callReadCb hioReadCbExit
  split_ifs <;> rfl

theorem hioReadCb_readCbs (io : Hio) (bytes : List UInt8) :
    (hioReadCb io bytes).readCbs = if io.closed then io.readCbs else io.readCbs ++ [bytes] := by
  unfold hioReadCb hioReadCbEnter callReadCb hioReadCbExit
  split_ifs <;> simp_all

theorem hioReadCb_last {bytes bytes' : List UInt8}
    (h : (hioReadCb io bytes).readCbs = io.readCbs ++ [bytes']) : bytes' = bytes := by
  rw [hioReadCb_readCbs] at h
  split_ifs at h
  · simp at h
  · simpa using h.symm

/-- `hio_read_cb` of an io that reads continuously only records the slice and counts for the autosize,
    which it only does for a buffer above the high water mark. -/
theorem hioReadCb_eq (hopen : io.closed = false) (honce : io.readFlags.once = false) (bytes : List UInt8) :
    ∃ c, hioReadCb io bytes = { io with readCbs := io.readCbs ++ [bytes], smallReadbytesCnt := c } ∧
      (c ≠ 0 → io.smallReadbytesCnt ≠ 0 ∨ readBufsizeHighWater < io.readbuf.len) := by
  unfold hioReadCb hioReadCbEnter callReadCb hioReadCbExit
  simp only [honce, Bool.false_eq_true, if_false, hopen]
  split_ifs with hw hs
  · exact ⟨_, rfl, fun _ => Or.inr hw.2⟩
  · exact ⟨_, rfl, fun h => absurd rfl h⟩
  · exact ⟨_, rfl, fun h => Or.inl h⟩


/-- An io that is cutting packages. With packages of a fixed length the buffer has exactly that size. -/
structure Packing (setting : UnpackSetting) (io : Hio) : Prop where
  opened : io.closed = false
  notAsync : io.closeAsync = false
  flags : io.readFlags = {}
  unpack : io.unpackSetting = some setting
  alloced : io.kind = .alloced
  head : io.readbuf.head = 0
  tailLe : io.readbuf.tail ≤ io.readbuf.len
  lenLe : io.readbuf.len ≤ setting.packageMaxLength.toNat
  maxSize : io.maxReadBufsize = setting.packageMaxLength.toNat
  count : io.smallReadbytesCnt ≠ 0 → readBufsizeHighWater < io.readbuf.len
  fixed : ∀ n, setting.mode = .byFixedLength n → io.readbuf.len = n.toNat ∧ io.smallReadbytesCnt = 0

variable {setting : UnpackSetting} {io : Hio}

theorem Packing.length_buffered (h : Packing setting io) : io.buffered.length = io.readbuf.tail := by
  simp [Hio.buffered, h.head]

theorem hioAllocReadbuf_packing (hmax : setting.packageMaxLength.toNat ≤ 2 ^ 30) (h : Packing setting io) (len : Nat)
    (hle : len ≤ setting.packageMaxLength.toNat) (htail : io.readbuf.tail ≤ len)
    (hfixed : ∀ n, setting.mode ≠ .byFixedLength n) :
    ∃ io', hioAllocReadbuf io len = .ok io' ∧ Packing setting io' ∧ io'.readbuf.len = len ∧
      io'.buffered = io.buffered ∧ io'.readCbs = io.readCbs := by
  rw [hioAllocReadbuf_eq (by rw [h.maxSize]; exact hle) (by omega)]
  refine ⟨_, rfl, ?_, rfl, ?_, rfl⟩
  · exact ⟨h.opened, h.notAsync, h.flags, h.unpack, rfl, h.head, htail, hle, h.maxSize,
      fun hc => absurd rfl hc, fun n hn => absurd hn (hfixed n)⟩
  · have hbase : allocBase io len = hvRealloc io.readbuf.base len io.readbuf.len := if_pos h.alloced
    show slice (allocBase io len) io.readbuf.head io.readbuf.tail = io.buffered
    rw [hbase, slice_hvRealloc _ h.tailLe]
    rfl

theorem reset_empty {buf : FifoBuf} (h0 : buf.head = 0) (ht : buf.tail = 0) :
    { buf with head := 0, tail := 0 } = buf := by
  cases buf
  simp_all

/-- The autosize of a buffer that is not full only ever halves one above the high water mark, and then it
    still holds the remaining bytes. -/
theorem readbufAutosize_packing (hmax : setting.packageMaxLength.toNat ≤ 2 ^ 30) (h : Packing setting io)
    (hlt : io.readbuf.tail < io.readbuf.len) :
    ∃ io', readbufAutosize io = .ok io' ∧ Packing setting io' ∧ io'.readbuf.tail < io'.readbuf.len ∧
      io'.buffered = io.buffered ∧ io'.readCbs = io.readCbs ∧
      (io'.readbuf.len = io.readbuf.len ∨ readBufsizeHighWater / 2 ≤ io'.readbuf.len) := by
  have hreset : (if io.readbuf.head = io.readbuf.tail then
      { io with readbuf := { io.readbuf with head := 0, tail := 0 } } else io) = io := by
    split_ifs with h0
    · rw [reset_empty h.head (by rw [← h0]; exact h.head)]
    · rfl
  unfold readbufAutosize
  simp only [hreset]
  rw [if_neg (by omega)]
  split_ifs with hsmall
  · have hcount := h.count (by omega)
    have hle := h.lenLe
    have hfixed : ∀ n, setting.mode ≠ .byFixedLength n := by
      intro n hn
      have := (h.fixed n hn).2
      omega
    obtain ⟨io', halloc, hp, hlen, hbuf, hcbs⟩ :=
      hioAllocReadbuf_packing hmax h (io.readbuf.len / 2) (by omega) (by omega) hfixed
    refine ⟨io', ?_, hp, ?_, hbuf, hcbs, Or.inr (by omega)⟩
    · rw [Nat.mod_eq_of_lt (by omega)]
      exact halloc
    · rw [hlen, ← hp.length_buffered, hbuf, h.length_buffered]
      exact hsmall.1
  · exact ⟨io, rfl, h, hlt, rfl, rfl, Or.inl rfl⟩

theorem keepRemain_packing {io' : Hio} {p remain c : Nat} {cbs : List (List UInt8)} (h : Packing setting io)
    (hio : io' = { io with readCbs := cbs, smallReadbytesCnt := c })
    (hc : c ≠ 0 → io.smallReadbytesCnt ≠ 0 ∨ readBufsizeHighWater < io.readbuf.len)
    (hfixed : ∀ n, setting.mode = .byFixedLength n → c = 0) (hend : p + remain = io.readbuf.tail) :
    Packing setting (keepRemain io' p remain) ∧
      (keepRemain io' p remain).buffered = slice io.readbuf.base p (p + remain) := by
  subst hio
  have htail := h.tailLe
  constructor
  · refine ⟨h.opened, h.notAsync, h.flags, h.unpack, h.alloced, rfl, ?_, h.lenLe, h.maxSize, ?_, ?_⟩
    · show remain ≤ io.readbuf.len
      omega
    · intro hc0
      rcases hc hc0 with h' | h'
      · exact h.count h'
      · exact h'
    · intro n hn
      exact ⟨(h.fixed n hn).1, hfixed n hn⟩
  · have := slice_move io.readbuf.base 0 p remain
    rw [Nat.zero_add] at this
    exact this

theorem recvInto_packing (h : Packing setting io) (seg : List UInt8)
    (hfit : io.readbuf.tail + seg.length ≤ io.readbuf.len) :
    Packing setting (recvInto io seg) ∧ (recvInto io seg).buffered = io.buffered ++ seg ∧
      (recvInto io seg).readCbs = io.readCbs := by
  refine ⟨⟨h.opened, h.notAsync, h.flags, h.unpack, h.alloced, h.head, hfit, h.lenLe, h.maxSize, h.count,
    h.fixed⟩, ?_, rfl⟩
  have hhead := h.head
  unfold Hio.buffered recvInto
  simp only
  split_ifs with hz
  · rw [slice_store_before _ _ le_rfl]
    exact slice_store_append _ _ (by omega)
  · exact slice_store_append _ _ (by omega)

theorem nioReadLen_packing (hmax : setting.packageMaxLength.toNat ≤ 2 ^ 30) (h : Packing setting io) :
    nioReadLen io = io.readbuf.len - io.readbuf.tail := by
  have hle := h.lenLe
  have htail := h.tailLe
  unfold nioReadLen
  rw [h.flags]
  simp only [Bool.false_eq_true, if_false]
  rw [Int.bmod_eq_of_le_mul_two (by omega) (by omega)]

end HvVerified.Event
