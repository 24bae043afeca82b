import HvVerified.Event.Proofs.LengthFieldProofs
import HvVerified.Event.Proofs.PackingProofs

/-!
# Proofs: framing by a length field does not depend on the segmentation

The read buffer of an io with a length-field setting always holds a proper prefix of the frame that
is being received, in less than its full length (`Framed`). One read keeps that, and hands out the
frames which the received bytes complete (`nioRead_framed`); from this a whole run is followed by
induction on its segments.
-/

namespace HvVerified.Event

open Base Lib List

variable {st : LengthFieldLoop} {fs : List (List UInt8)} {last fut : List UInt8} {fuel : Nat}
  {setting : UnpackSetting}

/-! ## The package loop -/

/-- The settings for which frames are cut as they should be: those of `hio_set_unpack`'s assertion
    with a field of up to four bytes, a header that fits the initial buffer, and a package length
    that does not come near the range of `int`. -/
structure FramingSetting (s : LengthFieldSetting) (maxLen : Nat) : Prop where
  field : s.lengthFieldOffset.toNat + s.lengthFieldBytes.toNat ≤ s.bodyOffset.toNat
  bytesPos : 1 ≤ s.lengthFieldBytes.toNat
  bytesLe : s.lengthFieldBytes.toNat ≤ 4
  minLen : hloopReadBufsize ≤ maxLen
  maxLen : maxLen ≤ 2 ^ 30
  body : s.bodyOffset.toNat + 130 ≤ hloopReadBufsize

/-- When the loop is left, `package_len` is either a leftover of what has been handed out, and little
    more than the header is there, or it is the length of the frame that is being received. -/
def PendingLen (s : LengthFieldSetting) (maxLen : Nat) (bound : Nat) (st : LengthFieldLoop) : Prop :=
  (st.packageLen.toNat ≤ bound ∧ st.remain < s.bodyOffset.toNat + 128) ∨
    (st.packageLen.toNat ≤ maxLen ∧ st.remain < st.packageLen.toNat)

variable {s : LengthFieldSetting} {maxLen : Nat}

theorem lengthFieldIter_framePrefix (hs : FramingSetting s maxLen)
    (hpre : IsFramePrefix s maxLen (slice st.io.readbuf.base st.p (st.p + st.remain))) :
    ∃ len, lengthFieldIter s st = .done ({ st with packageLen := len }, .ok) ∧
      PendingLen s maxLen st.packageLen.toNat { st with packageLen := len } := by
  have hmax := hs.maxLen
  have hbytes := hs.bytesPos
  have hfield := hs.field
  unfold lengthFieldIter
  by_cases hbo : st.remain ≥ s.bodyOffset.toNat
  · rw [if_pos hbo]
    rcases hpre with hnil | ⟨f, hf, hd, hlt⟩
    · have := congrArg length hnil
      simp at this
      omega
    · have hlt : st.remain < f.length := by simpa using hlt
      rcases readLengthField_framePrefix hs.field hs.bytesPos hs.bytesLe (by omega) hf hd hbo with
        ⟨hread, hshort⟩ | ⟨h, b, hread, hlen⟩
      · rw [hread]
        exact ⟨st.packageLen, rfl, Or.inl ⟨le_rfl, hshort⟩⟩
      · rw [hread]
        simp only
        rw [if_neg (by omega)]
        obtain ⟨pre, c, rest, v, -, -, -, -, -, hle⟩ := hf
        exact ⟨_, rfl, Or.inr ⟨by rw [hlen]; exact hle, by rw [hlen]; exact hlt⟩⟩
  · rw [if_neg hbo]
    exact ⟨st.packageLen, rfl, Or.inl ⟨le_rfl, by show st.remain < _; omega⟩⟩

theorem lengthFieldIter_frame (hs : FramingSetting s maxLen) {f : List UInt8}
    (hf : IsFrame s maxLen f) (hat : slice st.io.readbuf.base st.p (st.p + f.length) = f)
    (hle : f.length ≤ st.remain) : ∃ st', lengthFieldIter s st = .next st' ∧ st'.io = hioReadCb st.io f ∧
      st'.p = st.p + f.length ∧ st'.remain = st.remain - f.length ∧
      st'.packageLen.toNat = f.length := by
  have hmax := hs.maxLen
  obtain ⟨h, b, hread, hlen⟩ := readLengthField_frame hs.bytesPos hs.bytesLe (by omega) hf hat hle
  have hbo : st.remain ≥ s.bodyOffset.toNat := by
    obtain ⟨pre, c, rest, v, -, -, -, -, hge, -⟩ := hf
    omega
  unfold lengthFieldIter
  rw [if_pos hbo, hread]
  simp only
  rw [if_pos (by omega), hlen, hat]
  exact ⟨_, rfl, rfl, rfl, rfl, hlen⟩

/-- What the package loop has done when it is left: `k` frames have been handed out. -/
structure FramingDone (s : LengthFieldSetting) (maxLen : Nat) (fs : List (List UInt8))
    (last fut : List UInt8) (st st' : LengthFieldLoop) (k : Nat) : Prop where
  io : ∃ c, st'.io = { st.io with
      readCbs := st.io.readCbs ++ fs.take k, smallReadbytesCnt := c } ∧
    (c ≠ 0 → st.io.smallReadbytesCnt ≠ 0 ∨ readBufsizeHighWater < st.io.readbuf.len)
  bounds : st'.p + st'.remain = st.p + st.remain
  rest : slice st.io.readbuf.base st'.p (st'.p + st'.remain) ++ fut = (fs.drop k).flatten ++ last
  pending : ∀ f ∈ (fs.drop k).head?, st'.remain < f.length
  len : PendingLen s maxLen (max st.packageLen.toNat st.remain) st'

theorem framing_stop (hs : FramingSetting s maxLen)
    (hdata : slice st.io.readbuf.base st.p (st.p + st.remain) ++ fut = fs.flatten ++ last)
    (hpre : IsFramePrefix s maxLen (slice st.io.readbuf.base st.p (st.p + st.remain)))
    (hpending : ∀ f ∈ fs.head?, st.remain < f.length) (hfuel : 0 < fuel) :
    ∃ st', loopRun (lengthFieldIter s) fuel st = some (st', .ok) ∧
      FramingDone s maxLen fs last fut st st' 0 := by
  obtain ⟨len, hiter, hlen⟩ := lengthFieldIter_framePrefix hs hpre
  obtain ⟨n, rfl⟩ : ∃ n, fuel = n + 1 := ⟨fuel - 1, by omega⟩
  refine ⟨_, loopRun_done hiter n, ⟨st.io.smallReadbytesCnt, by simp, fun h => Or.inl h⟩, rfl, hdata,
    hpending, ?_⟩
  rcases hlen with ⟨h1, h2⟩ | h
  · exact Or.inl ⟨le_trans h1 (le_max_left _ _), h2⟩
  · exact Or.inr h

/-- The package loop on a buffer whose bytes, continued by those still to come, are the frames `fs`
    and a proper prefix of a frame. By induction on `fs`: an iteration hands out the first of them, or
    the loop is left. -/
theorem framing_loop (hs : FramingSetting s maxLen) (hlast : IsFramePrefix s maxLen last) :
    ∀ (fs : List (List UInt8)) (st : LengthFieldLoop) (fuel : Nat),
      (∀ f ∈ fs, IsFrame s maxLen f) →
      slice st.io.readbuf.base st.p (st.p + st.remain) ++ fut = fs.flatten ++ last →
      st.io.closed = false → st.io.readFlags.once = false → st.remain < fuel →
      ∃ st' k, loopRun (lengthFieldIter s) fuel st = some (st', .ok) ∧
        FramingDone s maxLen fs last fut st st' k := by
  intro fs
  induction fs with
  | nil =>
    intro st fuel _ hdata _ _ hfuel
    have hpre : IsFramePrefix s maxLen (slice st.io.readbuf.base st.p (st.p + st.remain)) := by
      have hd : slice st.io.readbuf.base st.p (st.p + st.remain) <+: last := ⟨fut, by simpa using hdata⟩
      rcases hlast with rfl | ⟨f, hf, hlf, hlt⟩
      · exact Or.inl (prefix_nil.mp hd)
      · exact Or.inr ⟨f, hf, hd.trans hlf, lt_of_le_of_lt hd.length_le hlt⟩
    obtain ⟨st', hrun, hdone⟩ := framing_stop hs hdata hpre (by simp)
      (Nat.lt_of_le_of_lt (Nat.zero_le _) hfuel)
    exact ⟨st', 0, hrun, hdone⟩
  | cons f fs ih =>
    intro st fuel hfs hdata hopen honce hfuel
    have hf := hfs f mem_cons_self
    by_cases hle : f.length ≤ st.remain
    · -- the first frame is complete
      have hsplit := hdata
      rw [← slice_append _ (st.p + f.length) (by omega) (by omega), flatten_cons,
        append_assoc, append_assoc] at hsplit
      obtain ⟨hat, hrest⟩ := append_inj hsplit (by simp)
      obtain ⟨st1, hiter, hio1, hp1, hremain1, hlen1⟩ := lengthFieldIter_frame hs hf hat hle
      obtain ⟨c, hcb, hc⟩ := hioReadCb_eq hopen honce f
      have hpos : 0 < f.length := by
        obtain ⟨pre, c, rest, v, -, -, -, -, hge, -⟩ := hf
        have := hs.field
        have := hs.bytesPos
        omega
      rw [hcb] at hio1
      have hend : st1.p + st1.remain = st.p + st.remain := by omega
      obtain ⟨n, rfl⟩ : ∃ n, fuel = n + 1 := ⟨fuel - 1, by omega⟩
      obtain ⟨st', k, hrun, ⟨c', hio, hc'⟩, hbounds, hrest', hpending, hplen⟩ := ih st1 n
        (fun g hg => hfs g (mem_cons_of_mem _ hg))
        (by rw [hend, hp1, hio1]; exact hrest)
        (by rw [hio1]; exact hopen) (by rw [hio1]; exact honce) (by omega)
      rw [hio1] at hio hc' hrest'
      refine ⟨st', k + 1, by rw [loopRun_next hiter]; exact hrun, ⟨c', by rw [hio]; simp, ?_⟩,
        hbounds.trans hend, hrest', hpending, ?_⟩
      · intro h
        rcases hc' h with h | h
        · exact hc h
        · exact Or.inr h
      · rcases hplen with ⟨h1, h2⟩ | h
        · exact Or.inl ⟨by omega, h2⟩
        · exact Or.inr h
    · -- the first frame is still being received
      have hd : slice st.io.readbuf.base st.p (st.p + st.remain) <+: f := by
        have hd : slice st.io.readbuf.base st.p (st.p + st.remain) <+: f ++ (fs.flatten ++ last) :=
          ⟨fut, by rw [hdata, flatten_cons, append_assoc]⟩
        exact prefix_of_prefix_length_le hd (prefix_append _ _) (by simp; omega)
      obtain ⟨st', hrun, hdone⟩ := framing_stop hs hdata
        (Or.inr ⟨f, hf, hd, by simp; omega⟩) (by simp; omega)
        (Nat.lt_of_le_of_lt (Nat.zero_le _) hfuel)
      exact ⟨st', 0, hrun, hdone⟩

/-! ## The read buffer between two reads -/

/-- An io that is cutting frames. Its read buffer has a size between the initial one and the maximal
    package length, and starts with the bytes that are not consumed. -/
structure Framed (s : LengthFieldSetting) (maxLen : UInt32) (io : Hio) : Prop where
  opened : io.closed = false
  notAsync : io.closeAsync = false
  flags : io.readFlags = {}
  setting : io.unpackSetting = some ⟨.byLengthField s, maxLen⟩
  alloced : io.kind = .alloced
  head : io.readbuf.head = 0
  tailLe : io.readbuf.tail ≤ io.readbuf.len
  lenGe : hloopReadBufsize ≤ io.readbuf.len
  lenLe : io.readbuf.len ≤ maxLen.toNat
  maxSize : io.maxReadBufsize = maxLen.toNat
  count : io.smallReadbytesCnt ≠ 0 → readBufsizeHighWater < io.readbuf.len

variable {maxLen : UInt32} {io : Hio}

theorem Framed.packing (h : Framed s maxLen io) : Packing ⟨.byLengthField s, maxLen⟩ io :=
  ⟨h.opened, h.notAsync, h.flags, h.setting, h.alloced, h.head, h.tailLe, h.lenLe, h.maxSize, h.count,
    fun n hn => by cases hn⟩

theorem framed_of_packing (h : Packing ⟨.byLengthField s, maxLen⟩ io) (hlen : hloopReadBufsize ≤ io.readbuf.len) :
    Framed s maxLen io :=
  ⟨h.opened, h.notAsync, h.flags, h.unpack, h.alloced, h.head, h.tailLe, hlen, h.lenLe, h.maxSize, h.count⟩

theorem Framed.length_buffered (h : Framed s maxLen io) : io.buffered.length = io.readbuf.tail :=
  h.packing.length_buffered

section

variable (hs : FramingSetting s maxLen.toNat)

include hs

theorem hioAllocReadbuf_framed (h : Framed s maxLen io) (len : Nat)
    (hge : hloopReadBufsize ≤ len) (hle : len ≤ maxLen.toNat) (htail : io.readbuf.tail ≤ len) :
    ∃ io', hioAllocReadbuf io len = .ok io' ∧ Framed s maxLen io' ∧ io'.readbuf.len = len ∧
      io'.buffered = io.buffered ∧ io'.readCbs = io.readCbs := by
  obtain ⟨io', halloc, hp, hlen, hbuf, hcbs⟩ :=
    hioAllocReadbuf_packing hs.maxLen h.packing len hle htail (fun n hn => by cases hn)
  exact ⟨io', halloc, framed_of_packing hp (by rw [hlen]; exact hge), hlen, hbuf, hcbs⟩

theorem readbufAutosize_framed (h : Framed s maxLen io) (hlt : io.readbuf.tail < io.readbuf.len) :
    ∃ io', readbufAutosize io = .ok io' ∧ Framed s maxLen io' ∧ io'.readbuf.tail < io'.readbuf.len ∧
      io'.buffered = io.buffered ∧ io'.readCbs = io.readCbs := by
  obtain ⟨io', hauto, hp, hlt', hbuf, hcbs, hlen⟩ := readbufAutosize_packing hs.maxLen h.packing hlt
  have hge : hloopReadBufsize ≤ io'.readbuf.len := by
    have hlen₀ := h.lenGe
    simp only [hloopReadBufsize, readBufsizeHighWater] at hlen hlen₀ ⊢
    omega
  exact ⟨io', hauto, framed_of_packing hp hge, hlt', hbuf, hcbs⟩

/-- `hio_unpack_by_length_field` hands out the frames that are complete, keeps the rest, and leaves
    room behind it. -/
theorem hioUnpackByLengthField_framed (h : Framed s maxLen io) (hfuel : maxLen.toNat < fuel)
    (hfs : ∀ f ∈ fs, IsFrame s maxLen.toNat f) (hlast : IsFramePrefix s maxLen.toNat last)
    (hdata : io.buffered ++ fut = fs.flatten ++ last) :
    ∃ io' handled k, hioUnpackByLengthField fuel s maxLen io = .ok (io', handled) ∧
      Framed s maxLen io' ∧ io'.readbuf.tail < io'.readbuf.len ∧
      io'.readCbs = io.readCbs ++ fs.take k ∧ io'.buffered ++ fut = (fs.drop k).flatten ++ last ∧
      ∀ f ∈ (fs.drop k).head?, io'.readbuf.tail < f.length := by
  have hlen := h.lenGe
  have hlenLe := h.lenLe
  have htail := h.tailLe
  have hbody := hs.body
  have hmax := hs.maxLen
  have hentry : io.readbuf.tail - io.readbuf.head = io.readbuf.tail := by rw [h.head]; rfl
  obtain ⟨st', k, hrun, ⟨c, hio, hc⟩, hbounds, hrest, hpending, hplen⟩ := framing_loop hs hlast fs
    (lengthFieldLoopEntry s io) fuel hfs
    (by
      show slice io.readbuf.base io.readbuf.head
        (io.readbuf.head + (io.readbuf.tail - io.readbuf.head)) ++ fut = _
      rw [hentry, h.head, Nat.zero_add]
      rw [Hio.buffered, h.head] at hdata
      exact hdata)
    h.opened (by show io.readFlags.once = false; rw [h.flags])
    (by show io.readbuf.tail - io.readbuf.head < fuel; omega)
  have hend : st'.p + st'.remain = io.readbuf.tail := by
    rw [hbounds]
    show io.readbuf.head + (io.readbuf.tail - io.readbuf.head) = _
    rw [hentry, h.head, Nat.zero_add]
  obtain ⟨hpacking, hbuf⟩ := keepRemain_packing h.packing hio hc (fun n hn => by cases hn) hend
  have hcbs : (keepRemain st'.io st'.p st'.remain).readCbs = io.readCbs ++ fs.take k := by
    rw [hio]; rfl
  have hklen : (keepRemain st'.io st'.p st'.remain).readbuf.len = io.readbuf.len := by rw [hio]; rfl
  have hkeep := framed_of_packing hpacking (by rw [hklen]; exact hlen)
  have hbound : max (lengthFieldLoopEntry s io).packageLen.toNat (lengthFieldLoopEntry s io).remain
      ≤ io.readbuf.len := by
    have hpl : (lengthFieldLoopEntry s io).packageLen.toNat = s.bodyOffset.toNat :=
      UInt16.toNat_toUInt32 _
    omega
  unfold hioUnpackByLengthField
  rw [hrun]
  simp only
  by_cases hgrow : st'.remain ≠ 0 ∧
      st'.packageLen.toNat > (keepRemain st'.io st'.p st'.remain).readbuf.len
  · -- the pending frame does not fit: the buffer grows, but not beyond the maximal package length
    rw [if_pos hgrow]
    obtain ⟨hple, hplt⟩ : st'.packageLen.toNat ≤ maxLen.toNat ∧ st'.remain < st'.packageLen.toNat := by
      rcases hplen with ⟨h1, -⟩ | h2
      · omega
      · exact h2
    rw [if_neg (by rw [gt_iff_lt, UInt32.lt_iff_toNat_lt]; omega), hklen]
    have hlimit : st'.packageLen.toNat ≤ limit st'.packageLen.toNat (io.readbuf.len * 2) maxLen.toNat ∧
        limit st'.packageLen.toNat (io.readbuf.len * 2) maxLen.toNat ≤ maxLen.toNat := by
      unfold limit
      split_ifs <;> omega
    rw [Nat.mod_eq_of_lt (by omega)]
    obtain ⟨io', halloc, hf, hl, hb, hcb⟩ := hioAllocReadbuf_framed hs hkeep _ (by omega)
      hlimit.2 (show st'.remain ≤ _ by omega)
    have ht : io'.readbuf.tail = st'.remain := by
      rw [← hf.length_buffered, hb, hkeep.length_buffered]; rfl
    refine ⟨io', st'.handled, k, by rw [halloc]; rfl, hf, by omega, by rw [hcb, hcbs],
      by rw [hb, hbuf]; exact hrest, ?_⟩
    rw [ht]
    exact hpending
  · rw [if_neg hgrow]
    refine ⟨_, _, k, rfl, hkeep, ?_, hcbs, by rw [hbuf]; exact hrest, hpending⟩
    rw [hklen]
    show st'.remain < io.readbuf.len
    rcases hplen with ⟨-, h2⟩ | ⟨-, h2⟩ <;> omega

end

/-! ## Reads -/

theorem nioRead_framed (hs : FramingSetting s maxLen.toNat) (h : Framed s maxLen io)
    (hlt : io.readbuf.tail < io.readbuf.len) {seg : List UInt8} (hfuel : maxLen.toNat < fuel)
    (hfs : ∀ f ∈ fs, IsFrame s maxLen.toNat f) (hlast : IsFramePrefix s maxLen.toNat last)
    (hfit : (seg.length : Int) ≤ nioReadLen io) (hdata : io.buffered ++ (seg ++ fut) = fs.flatten ++ last) :
    ∃ io' k, nioRead fuel io (.data seg) = .ok io' ∧
      Framed s maxLen io' ∧ io'.readbuf.tail < io'.readbuf.len ∧
      io'.readCbs = io.readCbs ++ fs.take k ∧ io'.buffered ++ fut = (fs.drop k).flatten ++ last ∧
      ∀ f ∈ (fs.drop k).head?, io'.readbuf.tail < f.length := by
  have hlen := nioReadLen_packing hs.maxLen h.packing
  obtain ⟨hpacking, hbuf, hcbs⟩ := recvInto_packing h.packing seg (by omega)
  have hrecv := framed_of_packing hpacking h.lenGe
  obtain ⟨io1, handled, k, hunpack, hf1, hlt1, hcbs1, hdata1, hpending1⟩ :=
    hioUnpackByLengthField_framed hs hrecv hfuel hfs hlast
      (by rw [hbuf, append_assoc]; exact hdata)
  obtain ⟨io', hauto, hf', hlt', hbuf', hcbs'⟩ := readbufAutosize_framed hs hf1 hlt1
  have htail : io'.readbuf.tail = io1.readbuf.tail := by
    rw [← hf'.length_buffered, hbuf', hf1.length_buffered]
  refine ⟨io', k, ?_, hf', hlt', by rw [hcbs', hcbs1, hcbs], by rw [hbuf']; exact hdata1, ?_⟩
  · unfold nioRead
    rw [if_neg (by omega)]
    simp only [hioHandleRead, hrecv.setting, hioUnpack, hunpack]
    exact hauto
  · rw [htail]; exact hpending1

/-- A sequence of reads, with the bytes `fut` still to come. The induction is on the segments; the
    frames `fs` are those not handed out yet. -/
theorem nioReads_framed (hs : FramingSetting s maxLen.toNat)
    (hfuel : maxLen.toNat < fuel) (hlast : IsFramePrefix s maxLen.toNat last) :
    ∀ (segs : List (List UInt8)) (fs : List (List UInt8)) (fut : List UInt8) (io : Hio),
      Framed s maxLen io → io.readbuf.tail < io.readbuf.len →
      (∀ f ∈ fs, IsFrame s maxLen.toNat f) → ReadsFit fuel io segs →
      (∀ f ∈ fs.head?, io.readbuf.tail < f.length) →
      io.buffered ++ (segs.flatten ++ fut) = fs.flatten ++ last →
      ∃ io' k, nioReads fuel io segs = .ok io' ∧ Framed s maxLen io' ∧
        io'.readCbs = io.readCbs ++ fs.take k ∧ io'.buffered ++ fut = (fs.drop k).flatten ++ last ∧
        ∀ f ∈ (fs.drop k).head?, io'.readbuf.tail < f.length := by
  intro segs
  induction segs with
  | nil =>
    intro fs fut io h hlt hfs _ hpending hdata
    exact ⟨io, 0, rfl, h, by simp, by simpa using hdata, hpending⟩
  | cons seg segs ih =>
    intro fs fut io h hlt hfs hfits _ hdata
    obtain ⟨-, hfit, hrest⟩ := hfits
    rw [flatten_cons, append_assoc] at hdata
    obtain ⟨io1, k1, hread, h1, hlt1, hcbs1, hdata1, hpending1⟩ :=
      nioRead_framed hs h hlt hfuel hfs hlast hfit hdata
    obtain ⟨io', k, hreads, h', hcbs, hdata', hpending⟩ := ih (fs.drop k1) fut io1 h1 hlt1
      (fun f hf => hfs f (mem_of_mem_drop hf)) (hrest io1 hread) hpending1 hdata1
    rw [drop_drop] at hdata' hpending
    refine ⟨io', k1 + k, ?_, h', ?_, hdata', hpending⟩
    · rw [nioReads, hread]; exact hreads
    · rw [hcbs, hcbs1, append_assoc, take_add]

theorem ReadsFit.take {fuel : Nat} : ∀ (n : Nat) {io : Hio} {segs : List (List UInt8)}, ReadsFit fuel io segs →
      ReadsFit fuel io (segs.take n) := by
  intro n
  induction n with
  | zero => intro io segs _; exact trivial
  | succ n ih =>
    intro io segs h
    cases segs with
    | nil => exact trivial
    | cons seg segs =>
      obtain ⟨h1, h2, h3⟩ := h
      exact ⟨h1, h2, fun io' hread => ih (h3 io' hread)⟩

/-! ## From `hio_set_unpack` on -/

structure Fresh (io : Hio) : Prop where
  opened : io.closed = false
  notAsync : io.closeAsync = false
  flags : io.readFlags = {}
  head : io.readbuf.head = 0
  tail : io.readbuf.tail = 0
  readCbs : io.readCbs = []

theorem fresh_hioReady : Fresh hioReady := ⟨rfl, rfl, rfl, rfl, rfl, rfl⟩

theorem Fresh.unset {io : Hio} (h : Fresh io) : Fresh (hioUnsetUnpack io) := by
  obtain ⟨h1, h2, h3, h4, h5, h6⟩ := h
  unfold hioUnsetUnpack hioFreeReadbuf
  split_ifs <;> exact ⟨h1, h2, h3, h4, h5, h6⟩

theorem completeSetting_field (h : completeSetting setting = .ok ⟨.byLengthField s, maxLen⟩) :
    s.lengthFieldOffset.toNat + s.lengthFieldBytes.toNat ≤ s.bodyOffset.toNat := by
  unfold completeSetting at h
  cases hm : setting.mode with
  | none | byDelimiter => simp [hm] at h
  | byFixedLength n => simp only [hm] at h; split_ifs at h <;> simp at h
  | byLengthField s' =>
    simp only [hm] at h
    split_ifs at h with hb <;> cases h <;> exact hb

theorem hioSetUnpack_framed {io io0 : Hio} (hio : Fresh io) (hset : hioSetUnpack io setting = .ok io0)
    (hsetting : io0.unpackSetting = some ⟨.byLengthField s, maxLen⟩) (hmin : hloopReadBufsize ≤ maxLen.toNat) :
    Framed s maxLen io0 ∧ io0.readbuf.tail = 0 ∧ io0.readCbs = [] ∧
      s.lengthFieldOffset.toNat + s.lengthFieldBytes.toNat ≤ s.bodyOffset.toNat := by
  obtain ⟨h1, h2, h3, h4, h5, h6⟩ := hio.unset
  unfold hioSetUnpack at hset
  cases hc : completeSetting setting with
  | error e => rw [hc] at hset; cases hset
  | ok c =>
    rw [hc] at hset
    simp only [bind, Except.bind] at hset
    have hsome : io0.unpackSetting = some c := by
      rcases hioAllocReadbuf_cases hset with ⟨-, rfl⟩ | ⟨-, -, rfl⟩ <;> rfl
    obtain rfl : c = ⟨.byLengthField s, maxLen⟩ := Option.some.inj (hsome.symm.trans hsetting)
    have hlen : min hloopReadBufsize maxLen.toNat = hloopReadBufsize := min_eq_left hmin
    simp only [hlen] at hset
    rcases hioAllocReadbuf_cases hset with ⟨hover, -⟩ | ⟨-, -, rfl⟩
    · exact absurd hmin (by simpa using hover)
    · exact ⟨⟨h1, h2, h3, rfl, rfl, h4, by simp [h5], le_rfl, hmin, rfl, fun h => absurd rfl h⟩, h5, h6,
        completeSetting_field hc⟩

/-- Segmentation independence of length-field framing. The stream `frames.flatten ++ last` may be
    received in any segments that the reads can return: the packages handed to `read_cb` are the
    frames, the io stays open after each read, and what is left in the buffer is `last`. -/
theorem length_field_segmentation_independence {io io0 : Hio} {setting : UnpackSetting}
    (hio : Fresh io) (hset : hioSetUnpack io setting = .ok io0)
    (hsetting : io0.unpackSetting = some ⟨.byLengthField s, maxLen⟩)
    (hbytes : 1 ≤ s.lengthFieldBytes.toNat ∧ s.lengthFieldBytes.toNat ≤ 4)
    (hmax : 8192 ≤ maxLen.toNat ∧ maxLen.toNat ≤ 2 ^ 30) (hbody : s.bodyOffset.toNat + 130 ≤ 8192)
    {fuel : Nat} (hfuel : maxLen.toNat < fuel) {frames segs : List (List UInt8)} {last : List UInt8}
    (hframes : ∀ f ∈ frames, IsFrame s maxLen.toNat f) (hlast : IsFramePrefix s maxLen.toNat last)
    (hstream : segs.flatten = frames.flatten ++ last) (hfit : ReadsFit fuel io0 segs) :
    (∃ io', nioReads fuel io0 segs = .ok io' ∧ io'.readCbs = frames ∧ io'.readbuf.head = 0 ∧
      slice io'.readbuf.base 0 io'.readbuf.tail = last) ∧
    ∀ n, ∃ io', nioReads fuel io0 (segs.take n) = .ok io' ∧ io'.closed = false ∧
      io'.closeAsync = false := by
  obtain ⟨h0, htail, hcbs0, hfield⟩ := hioSetUnpack_framed hio hset hsetting hmax.1
  have hs : FramingSetting s maxLen.toNat := ⟨hfield, hbytes.1, hbytes.2, hmax.1, hmax.2, hbody⟩
  have hlt : io0.readbuf.tail < io0.readbuf.len := by
    have := h0.lenGe
    simp only [hloopReadBufsize] at this
    omega
  have hbuf0 : io0.buffered = [] := by
    rw [← length_eq_zero_iff, h0.length_buffered, htail]
  have hpending : ∀ f ∈ frames.head?, io0.readbuf.tail < f.length := by
    intro f hf
    obtain ⟨pre, c, rest, v, -, -, -, -, hge, -⟩ := hframes f (mem_of_mem_head? hf)
    omega
  constructor
  · obtain ⟨io', k, hrun, h', hcbs, hdata, hpend⟩ := nioReads_framed hs hfuel hlast segs frames [] io0
      h0 hlt hframes hfit hpending (by rw [hbuf0, hstream]; simp)
    -- a frame that was not handed out would have been received completely
    have hdone : frames.drop k = [] := by
      cases hd : frames.drop k with
      | nil => rfl
      | cons f fs =>
        have hl := congrArg length hdata
        have hlf := hpend f (by rw [hd]; rfl)
        rw [hd] at hl
        simp only [append_nil, flatten_cons, length_append, h'.length_buffered] at hl
        omega
    have hframes' : frames.take k = frames := by
      have := take_append_drop k frames
      rw [hdone, append_nil] at this
      exact this
    refine ⟨io', hrun, by rw [hcbs, hcbs0, hframes', nil_append], h'.head, ?_⟩
    rw [hdone] at hdata
    simp only [append_nil, flatten_nil, nil_append] at hdata
    rw [Hio.buffered, h'.head] at hdata
    exact hdata
  · intro n
    obtain ⟨io', k, hrun, h', -⟩ := nioReads_framed hs hfuel hlast (segs.take n) frames
      (segs.drop n).flatten io0 h0 hlt hframes (hfit.take n) hpending (by
        rw [hbuf0, ← flatten_append, take_append_drop, hstream]; simp)
    exact ⟨io', hrun, h'.opened, h'.notAsync⟩

def headerSetting : LengthFieldSetting :=
  { bodyOffset := 4, lengthFieldOffset := 0, lengthFieldBytes := 4, lengthAdjustment := 0
    lengthFieldCoding := .bigEndian }

def headerIo : Hio :=
  { hioReady with
    unpackSetting := some ⟨.byLengthField headerSetting, 8192⟩
    kind := .alloced
    maxReadBufsize := 8192 }

/-- A frame with the body `"A"` and the beginning of another one, received in two segments that end
    in the middle of a header and in the middle of the next one. -/
theorem length_field_two_segments : hioSetUnpack hioReady ⟨.byLengthField headerSetting, 8192⟩ = .ok headerIo ∧
      ∃ io', nioReads 8193 headerIo [[0, 0, 0], [1, 65, 0, 0]] = .ok io' ∧
        io'.readCbs = [[0, 0, 0, 1, 65]] ∧ io'.readbuf.head = 0 ∧
        slice io'.readbuf.base 0 io'.readbuf.tail = [0, 0] := by
  have hset : hioSetUnpack hioReady ⟨.byLengthField headerSetting, 8192⟩ = .ok headerIo := rfl
  refine ⟨hset, (length_field_segmentation_independence fresh_hioReady hset rfl (by decide) (by decide)
    (by decide) (by decide) ?_ ?_ rfl ?_).1⟩
  · intro f hf
    obtain rfl := mem_singleton.mp hf
    exact ⟨[], [0, 0, 0, 1], [65], 1, rfl, rfl, ⟨rfl, rfl⟩, by decide, by decide, by decide⟩
  · exact Or.inr ⟨[0, 0, 0, 0], ⟨[], [0, 0, 0, 0], [], 0, rfl, rfl, ⟨rfl, rfl⟩, by decide, by decide,
      by decide⟩, by decide, by decide⟩
  · refine ⟨by decide, by decide, ?_⟩
    intro io' h
    cases h
    exact ⟨by decide, by decide, fun _ _ => trivial⟩

end HvVerified.Event
