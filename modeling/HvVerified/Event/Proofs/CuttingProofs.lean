import HvVerified.Lib.Cut
import HvVerified.Event.Proofs.FramingProofs

/-!
# Proofs: framing by a delimiter or a fixed length does not depend on the segmentation

Each call of `hio_unpack` cuts the buffered bytes as `cut` does and keeps what is left. The search for the
delimiter starts with the last `delimiter_bytes - 1` of the bytes that were there before: no match starts
earlier, since what is left of a cut has none in it.
-/

namespace HvVerified.Event

open Base Lib List DelimiterSetting

/-! ## Reads -/

section

variable {setting : UnpackSetting} {io : Hio} {full : List UInt8 → Bool} {ok : List UInt8 → Prop} {fuel : Nat}

/-- `hio_unpack` cuts the buffered bytes, of which the last `readbytes` are new, if what is left is `ok`. -/
def UnpackCuts (fuel : Nat) (setting : UnpackSetting) (full : List UInt8 → Bool) (ok : List UInt8 → Prop) : Prop :=
  ∀ (io : Hio) (readbytes : Nat), Packing setting io → 0 < io.readbuf.len → readbytes ≤ io.readbuf.tail →
    Pending full (io.buffered.take (io.readbuf.tail - readbytes)) → ok (cut full io.buffered).2 →
    ∃ io' handled, hioUnpack fuel setting io readbytes = .ok (io', handled) ∧ Packing setting io' ∧
      io'.readbuf.tail < io'.readbuf.len ∧ io'.readCbs = io.readCbs ++ (cut full io.buffered).1 ∧
      io'.buffered = (cut full io.buffered).2

theorem nioRead_cut (hcuts : UnpackCuts fuel setting full ok) (hmax : setting.packageMaxLength.toNat ≤ 2 ^ 30)
    (h : Packing setting io) (hlt : io.readbuf.tail < io.readbuf.len) (hpending : Pending full io.buffered)
    {seg : List UInt8} (hfit : (seg.length : Int) ≤ nioReadLen io) (hok : ok (cut full (io.buffered ++ seg)).2) :
    ∃ io', nioRead fuel io (.data seg) = .ok io' ∧ Packing setting io' ∧ io'.readbuf.tail < io'.readbuf.len ∧
      io'.readCbs = io.readCbs ++ (cut full (io.buffered ++ seg)).1 ∧
      io'.buffered = (cut full (io.buffered ++ seg)).2 := by
  have hlen := nioReadLen_packing hmax h
  obtain ⟨hrecv, hbuf, hcbs⟩ := recvInto_packing h seg (by omega)
  have htail : (recvInto io seg).readbuf.tail - seg.length = io.buffered.length := by
    rw [h.length_buffered]
    exact Nat.add_sub_cancel _ _
  obtain ⟨io₁, handled, hunpack, h₁, hlt₁, hcbs₁, hbuf₁⟩ := hcuts (recvInto io seg) seg.length hrecv
    (show 0 < io.readbuf.len by omega) (Nat.le_add_left _ _)
    (by rw [htail, hbuf, take_left]; exact hpending) (by rw [hbuf]; exact hok)
  obtain ⟨io', hauto, h', hlt', hbuf', hcbs', -⟩ := readbufAutosize_packing hmax h₁ hlt₁
  rw [hbuf] at hcbs₁ hbuf₁
  refine ⟨io', ?_, h', hlt', by rw [hcbs', hcbs₁, hcbs], by rw [hbuf', hbuf₁]⟩
  unfold nioRead
  rw [if_neg (by omega)]
  simp only [hioHandleRead, hrecv.unpack, hunpack]
  exact hauto

/-- A sequence of reads, by induction on the segments: what is left of one read is cut together with the
    bytes of the next. -/
theorem nioReads_cut (hcuts : UnpackCuts fuel setting full ok) (hmax : setting.packageMaxLength.toNat ≤ 2 ^ 30) :
    ∀ (segs : List (List UInt8)) (io : Hio), Packing setting io → io.readbuf.tail < io.readbuf.len →
      Pending full io.buffered → ReadsFit fuel io segs →
      (∀ pre, pre <+: segs.flatten → ok (cut full (io.buffered ++ pre)).2) →
      ∃ io', nioReads fuel io segs = .ok io' ∧ Packing setting io' ∧
        io'.readCbs = io.readCbs ++ (cut full (io.buffered ++ segs.flatten)).1 ∧
        io'.buffered = (cut full (io.buffered ++ segs.flatten)).2 := by
  intro segs
  induction segs with
  | nil =>
    intro io h _ hpending _ _
    have hcut : cut full (io.buffered ++ [].flatten) = ([], io.buffered) := by
      rw [flatten_nil, append_nil]
      exact cut_of_pending hpending
    rw [hcut]
    exact ⟨io, rfl, h, (append_nil _).symm, rfl⟩
  | cons seg segs ih =>
    intro io h hlt hpending hfits hok
    obtain ⟨-, hfit, hrest⟩ := hfits
    have hprefix : seg <+: (seg :: segs).flatten := prefix_append _ _
    obtain ⟨io₁, hread, h₁, hlt₁, hcbs₁, hbuf₁⟩ := nioRead_cut hcuts hmax h hlt hpending hfit (hok seg hprefix)
    have hnext : ∀ rest, cut full (io.buffered ++ (seg ++ rest)) =
        ((cut full (io.buffered ++ seg)).1 ++ (cut full (io₁.buffered ++ rest)).1,
          (cut full (io₁.buffered ++ rest)).2) := by
      intro rest
      rw [← append_assoc, cut_append, hbuf₁]
    have hpending₁ : Pending full io₁.buffered := by
      rw [hbuf₁]
      exact pending_cut _
    have hok₁ : ∀ pre, pre <+: segs.flatten → ok (cut full (io₁.buffered ++ pre)).2 := by
      intro pre hpre
      have := hok (seg ++ pre) ((prefix_append_right_inj seg).2 hpre)
      rw [hnext] at this
      exact this
    obtain ⟨io', hreads, h', hcbs', hbuf'⟩ := ih io₁ h₁ hlt₁ hpending₁ (hrest io₁ hread) hok₁
    rw [flatten_cons, hnext]
    refine ⟨io', ?_, h', ?_, hbuf'⟩
    · rw [nioReads, hread]
      exact hreads
    · rw [hcbs', hcbs₁, append_assoc]

end

/-! ## Fixed lengths -/

theorem hioReadCb_large {io : Hio} (hopen : io.closed = false) (honce : io.readFlags.once = false)
    (hcount : io.smallReadbytesCnt = 0) {bytes : List UInt8} (hlarge : io.readbuf.len / 2 ≤ bytes.length) :
    hioReadCb io bytes = { io with readCbs := io.readCbs ++ [bytes] } := by
  unfold hioReadCb hioReadCbEnter callReadCb hioReadCbExit
  simp only [honce, Bool.false_eq_true, if_false, hopen]
  split_ifs with hw hs
  · omega
  · rw [hcount]
  · rfl

theorem fixedLength_loop {n : Nat} (hn : 0 < n) :
    ∀ (fuel : Nat) (st : PackageLoop), st.io.closed = false → st.io.readFlags.once = false →
      st.io.smallReadbytesCnt = 0 → st.io.readbuf.len / 2 ≤ n → st.remain < fuel →
      ∃ st', loopRun (fixedLengthIter n) fuel st = some st' ∧ st'.remain < n ∧
        st'.p + st'.remain = st.p + st.remain ∧
        st'.io = { st.io with
          readCbs := st.io.readCbs ++ (cutByLength n (slice st.io.readbuf.base st.p (st.p + st.remain))).1 } ∧
        slice st.io.readbuf.base st'.p (st'.p + st'.remain) =
          (cutByLength n (slice st.io.readbuf.base st.p (st.p + st.remain))).2 := by
  intro fuel
  induction fuel with
  | zero =>
    intro st _ _ _ _ hfuel
    omega
  | succ fuel ih =>
    intro st hopen honce hcount hlarge hfuel
    by_cases hle : n ≤ st.remain
    · -- one package is handed out
      have hsplit : (slice st.io.readbuf.base st.p (st.p + st.remain)).take n =
          slice st.io.readbuf.base st.p (st.p + n) := take_slice _ (by omega)
      have hrest : (slice st.io.readbuf.base st.p (st.p + st.remain)).drop n =
          slice st.io.readbuf.base (st.p + n) (st.p + st.remain) := drop_slice _ (by omega)
      have hcut := cutByLength_of_le hn (s := slice st.io.readbuf.base st.p (st.p + st.remain)) (by simp; omega)
      rw [hsplit, hrest] at hcut
      have hcb : hioReadCb st.io (slice st.io.readbuf.base st.p (st.p + n)) =
          { st.io with readCbs := st.io.readCbs ++ [slice st.io.readbuf.base st.p (st.p + n)] } :=
        hioReadCb_large hopen honce hcount (by simpa using hlarge)
      obtain ⟨st₁, hiter, hio₁, hp₁, hremain₁⟩ : ∃ st₁, fixedLengthIter n st = .next st₁ ∧
          st₁.io = { st.io with readCbs := st.io.readCbs ++ [slice st.io.readbuf.base st.p (st.p + n)] } ∧
          st₁.p = st.p + n ∧ st₁.remain = st.remain - n := by
        unfold fixedLengthIter
        rw [if_pos hle, hcb]
        exact ⟨_, rfl, rfl, rfl, rfl⟩
      have hend : st₁.p + st₁.remain = st.p + st.remain := by omega
      obtain ⟨st', hrun, hlt, hbounds, hio, hslice⟩ := ih st₁ (by rw [hio₁]; exact hopen)
        (by rw [hio₁]; exact honce) (by rw [hio₁]; exact hcount) (by rw [hio₁]; exact hlarge) (by omega)
      rw [hend, hio₁, hp₁] at hio hslice
      refine ⟨st', by rw [loopRun_next hiter]; exact hrun, hlt, hbounds.trans hend, ?_, ?_⟩
      · rw [hio, hcut]
        simp
      · rw [hslice, hcut]
    · have hiter : fixedLengthIter n st = .done st := by
        unfold fixedLengthIter
        rw [if_neg hle]
      have hcut := cutByLength_of_lt (n := n) (s := slice st.io.readbuf.base st.p (st.p + st.remain)) (by simp; omega)
      refine ⟨st, loopRun_done hiter fuel, by omega, rfl, ?_, ?_⟩
      · rw [hcut]
        simp
      · rw [hcut]

theorem unpackCuts_fixedLength {fuel : Nat} {n maxLen : UInt32} (hn : 0 < n.toNat) (hfuel : maxLen.toNat < fuel) :
    UnpackCuts fuel ⟨.byFixedLength n, maxLen⟩ (fun p => p.length == n.toNat) (fun _ => True) := by
  intro io readbytes h _ _ _ _
  obtain ⟨hlen, hcount⟩ := h.fixed n rfl
  have htail := h.tailLe
  have hmax : io.readbuf.len ≤ maxLen.toNat := h.lenLe
  have hentry : io.readbuf.head + (io.readbuf.tail - io.readbuf.head) = io.readbuf.tail := by
    rw [h.head]
    omega
  obtain ⟨st', hrun, hlt, hbounds, hio, hslice⟩ := fixedLength_loop hn fuel (packageLoopEntry io) h.opened
    (by show io.readFlags.once = false; rw [h.flags]) hcount (by show io.readbuf.len / 2 ≤ n.toNat; omega)
    (by show io.readbuf.tail - io.readbuf.head < fuel; omega)
  simp only [packageLoopEntry, hentry] at hbounds hio hslice
  have hfold : slice io.readbuf.base io.readbuf.head io.readbuf.tail = io.buffered := rfl
  obtain ⟨hkeep, hbuf⟩ := keepRemain_packing (c := io.smallReadbytesCnt) h hio (fun hc => .inl hc)
    (fun _ _ => hcount) hbounds
  refine ⟨keepRemain st'.io st'.p st'.remain, st'.handled, ?_, hkeep, ?_, ?_, hbuf.trans hslice⟩
  · simp only [hioUnpack, hioUnpackByFixedLength]
    rw [if_neg (by omega), hrun]
  · rw [hio]
    show st'.remain < io.readbuf.len
    omega
  · rw [hio]
    rfl

/-! ## Delimiters -/

section

variable {s : DelimiterSetting}

theorem length_bytes : s.bytes.length = s.delimiterBytes.toNat := by
  simp [bytes]

theorem delimiterMatch_iff (base : BytePtr) (p : Nat) : delimiterMatch s (fun i => base (p + i)) ↔
      slice base p (p + s.delimiterBytes.toNat) = s.bytes := by
  simp only [delimiterMatch, all_eq_true, mem_range, beq_iff_eq]
  constructor
  · intro h
    refine slice_congr (by omega) fun i hi => ?_
    rw [Nat.zero_add]
    exact h i (by omega)
  · intro h i hi
    have hget := congrArg (fun l => l[i]?) h
    simp only [bytes, getElem?_slice] at hget
    rw [if_pos (by omega), if_pos (by omega), Nat.zero_add] at hget
    exact Option.some_inj.1 hget

theorem bytes_prefix_iff (base : BytePtr) {sp p e : Nat} (hsp : sp ≤ p) (he : p + s.delimiterBytes.toNat ≤ e) :
    s.bytes <+: (slice base sp e).drop (p - sp) ↔ delimiterMatch s (fun i => base (p + i)) := by
  have hdrop : (slice base sp e).drop (p - sp) = slice base p e := by
    rw [drop_slice _ (by omega), Nat.add_sub_cancel' hsp]
  rw [hdrop, prefix_iff_eq_take, length_bytes, take_slice _ he, delimiterMatch_iff]
  exact eq_comm

/-- The loop of `hio_unpack_by_delimiter` from a state in which no match starts before `p`. -/
theorem delimiter_loop (hs : 0 < s.delimiterBytes.toNat) (e : Nat) :
    ∀ (fuel : Nat) (st : DelimiterLoop), st.io.closed = false → st.io.readFlags.once = false →
      st.sp ≤ st.p → st.p ≤ e → st.remain = (e : Int) - st.p → e - st.p < fuel →
      (∀ j < st.p - st.sp, ¬ s.bytes <+: (slice st.io.readbuf.base st.sp e).drop j) →
      ∃ st' c, loopRun (delimiterIter s) fuel st = some st' ∧ st'.sp ≤ e ∧
        st'.io = { st.io with
          readCbs := st.io.readCbs ++ (cutAtDelimiter s.bytes (slice st.io.readbuf.base st.sp e)).1
          smallReadbytesCnt := c } ∧
        (c ≠ 0 → st.io.smallReadbytesCnt ≠ 0 ∨ readBufsizeHighWater < st.io.readbuf.len) ∧
        slice st.io.readbuf.base st'.sp e = (cutAtDelimiter s.bytes (slice st.io.readbuf.base st.sp e)).2 := by
  have hbytes : s.bytes ≠ [] := length_pos_iff.1 (by rw [length_bytes]; exact hs)
  intro fuel
  induction fuel with
  | zero =>
    intro st _ _ _ _ _ hfuel
    omega
  | succ fuel ih =>
    intro st hopen honce hsp hp hremain hfuel hnone
    by_cases hle : st.p + s.delimiterBytes.toNat ≤ e
    · have hge : st.remain ≥ s.delimiterBytes.toNat := by omega
      by_cases hmatch : delimiterMatch s (fun i => st.io.readbuf.base (st.p + i))
      · -- the leftmost match
        have hfirst : s.bytes <+: (slice st.io.readbuf.base st.sp e).drop (st.p - st.sp) :=
          (bytes_prefix_iff _ hsp hle).2 hmatch
        have hcut := cutAtDelimiter_of_match hbytes hfirst hnone
        rw [length_bytes, take_slice _ (by omega), drop_slice _ (by omega)] at hcut
        have hend : st.sp + (st.p - st.sp + s.delimiterBytes.toNat) = st.p + s.delimiterBytes.toNat := by omega
        rw [hend] at hcut
        obtain ⟨c₁, hcb, hc₁⟩ :=
          hioReadCb_eq hopen honce (slice st.io.readbuf.base st.sp (st.p + s.delimiterBytes.toNat))
        obtain ⟨st₁, hiter, hio₁, hsp₁, hp₁, hremain₁⟩ : ∃ st₁, delimiterIter s st = .next st₁ ∧
            st₁.io = { st.io with
              readCbs := st.io.readCbs ++ [slice st.io.readbuf.base st.sp (st.p + s.delimiterBytes.toNat)]
              smallReadbytesCnt := c₁ } ∧
            st₁.sp = st.p + s.delimiterBytes.toNat ∧ st₁.p = st.p + s.delimiterBytes.toNat ∧
            st₁.remain = st.remain - s.delimiterBytes.toNat := by
          unfold delimiterIter
          rw [if_pos hge, if_pos hmatch]
          exact ⟨_, rfl, hcb, rfl, rfl, rfl⟩
        obtain ⟨st', c, hrun, hle', hio, hc, hslice⟩ := ih st₁ (by rw [hio₁]; exact hopen)
          (by rw [hio₁]; exact honce) (by omega) (by omega) (by omega) (by omega) (by omega)
        rw [hio₁, hsp₁] at hio hslice
        rw [hio₁] at hc
        refine ⟨st', c, by rw [loopRun_next hiter]; exact hrun, hle', ?_, ?_, ?_⟩
        · rw [hio, hcut]
          simp
        · intro hc0
          rcases hc hc0 with h | h
          · exact hc₁ h
          · exact .inr h
        · rw [hslice, hcut]
      · -- no match at `p`
        have hiter : delimiterIter s st = .next { st with p := st.p + 1, remain := st.remain - 1 } := by
          unfold delimiterIter
          rw [if_pos hge, if_neg hmatch]
        have hnone' : ∀ j < st.p + 1 - st.sp, ¬ s.bytes <+: (slice st.io.readbuf.base st.sp e).drop j := by
          intro j hj
          by_cases hlast : j = st.p - st.sp
          · rw [hlast, bytes_prefix_iff _ hsp hle]
            exact hmatch
          · exact hnone j (by omega)
        obtain ⟨st', c, hrun, hrest⟩ := ih { st with p := st.p + 1, remain := st.remain - 1 } hopen honce
          (by show st.sp ≤ st.p + 1; omega) (by show st.p + 1 ≤ e; omega)
          (by show st.remain - 1 = (e : Int) - (st.p + 1 : Nat); omega)
          (by show e - (st.p + 1) < fuel; omega) hnone'
        exact ⟨st', c, by rw [loopRun_next hiter]; exact hrun, hrest⟩
    · -- too little is left for a match
      have hiter : delimiterIter s st = .done st := by
        unfold delimiterIter
        rw [if_neg (by omega)]
      have hcut : cutAtDelimiter s.bytes (slice st.io.readbuf.base st.sp e) =
          ([], slice st.io.readbuf.base st.sp e) := by
        apply cutAtDelimiter_of_not_match
        intro j hj
        have hlen := hj.length_le
        rw [length_drop, length_slice, length_bytes] at hlen
        exact hnone j (by omega) hj
      refine ⟨st, st.io.smallReadbytesCnt, loopRun_done hiter fuel, by omega, ?_, fun hc => .inl hc, ?_⟩
      · rw [hcut]
        simp
      · rw [hcut]

theorem unpackCuts_delimiter {fuel : Nat} {maxLen : UInt32} (hs : 0 < s.delimiterBytes.toNat)
    (hmax : maxLen.toNat ≤ 2 ^ 30) (hfuel : maxLen.toNat < fuel) :
    UnpackCuts fuel ⟨.byDelimiter s, maxLen⟩ (fun p => decide (s.bytes <:+ p)) (fun r => r.length < maxLen.toNat) := by
  intro io readbytes h hpos hread hpending hok
  have hbytes : s.bytes ≠ [] := length_pos_iff.1 (by rw [length_bytes]; exact hs)
  have htail := h.tailLe
  have hlen : io.readbuf.len ≤ maxLen.toNat := h.lenLe
  have hbuffered : slice io.readbuf.base 0 io.readbuf.tail = io.buffered := by rw [Hio.buffered, h.head]
  obtain ⟨st, hst, hio₀, hsp₀, hp₀, hremain₀⟩ : ∃ st, delimiterLoopEntry s io readbytes = st ∧ st.io = io ∧
      st.sp = 0 ∧ st.p = io.readbuf.tail - readbytes + 1 - s.delimiterBytes.toNat ∧
      st.remain = (io.readbuf.tail : Int) - st.p :=
    ⟨_, rfl, rfl, h.head, by simp only [delimiterLoopEntry, h.head, Nat.zero_max], rfl⟩
  -- a match before the start of the scan would be one in the bytes that were there before
  have hnone : ∀ j < st.p - st.sp, ¬ s.bytes <+: (slice st.io.readbuf.base st.sp io.readbuf.tail).drop j := by
    intro j hj hmatch
    rw [hio₀, hsp₀, hbuffered] at hmatch
    apply not_match_of_pending hbytes hpending j
    rw [drop_take, prefix_take_iff, length_bytes]
    exact ⟨hmatch, by omega⟩
  obtain ⟨st', c, hrun, hsp, hio, hc, hslice⟩ := delimiter_loop hs io.readbuf.tail fuel st
    (by rw [hio₀]; exact h.opened) (by rw [hio₀, h.flags]) (by omega) (by omega) hremain₀ (by omega) hnone
  rw [hio₀, hsp₀, hbuffered] at hio hslice
  rw [hio₀] at hc
  have hend : st'.sp + (io.readbuf.tail - st'.sp) = io.readbuf.tail := by omega
  obtain ⟨hkeep, hbuf⟩ := keepRemain_packing h hio hc (fun n hn => by cases hn) hend
  rw [hend] at hbuf
  have hrest := hbuf.trans hslice
  have hremain : io.readbuf.tail - st'.sp < maxLen.toNat := by
    have hshort : (slice io.readbuf.base st'.sp io.readbuf.tail).length < maxLen.toNat := by
      rw [hslice]
      exact hok
    simpa using hshort
  have hklen : (keepRemain st'.io st'.sp (io.readbuf.tail - st'.sp)).readbuf.len = io.readbuf.len := by
    rw [hio]
    rfl
  have hktail : (keepRemain st'.io st'.sp (io.readbuf.tail - st'.sp)).readbuf.tail = io.readbuf.tail - st'.sp := rfl
  have hkcbs : (keepRemain st'.io st'.sp (io.readbuf.tail - st'.sp)).readCbs =
      io.readCbs ++ (cutAtDelimiter s.bytes io.buffered).1 := by
    rw [hio]
    rfl
  simp only [hioUnpack, hioUnpackByDelimiter, hst, hrun, hklen, hktail]
  by_cases hgrow : io.readbuf.tail - st'.sp ≠ 0 ∧ io.readbuf.tail - st'.sp = io.readbuf.len
  · -- the buffer is full: it grows, since the package is not over the limit
    rw [if_pos hgrow, if_neg (by omega), Nat.mod_eq_of_lt (by omega)]
    obtain ⟨io', halloc, h', hlen', hbuf', hcbs'⟩ := hioAllocReadbuf_packing hmax hkeep
      (min (io.readbuf.len * 2) maxLen.toNat) (Nat.min_le_right _ _) (by rw [hktail]; omega)
      (fun n hn => by cases hn)
    have htail' : io'.readbuf.tail = io.readbuf.tail - st'.sp := by
      rw [← h'.length_buffered, hbuf', hkeep.length_buffered]
      rfl
    refine ⟨io', st'.handled, by rw [halloc]; rfl, h', by omega, by rw [hcbs', hkcbs]; rfl, by rw [hbuf', hrest]; rfl⟩
  · rw [if_neg hgrow]
    exact ⟨_, _, rfl, hkeep, by omega, hkcbs, hrest⟩

end

/-! ## From `hio_set_unpack` on -/

/-- The packages `r.1` are handed to `read_cb`, the io stays open after each read, and what is left in the
    buffer is `r.2`. -/
def Unpacked (fuel : Nat) (io : Hio) (segs : List (List UInt8)) (r : List (List UInt8) × List UInt8) : Prop :=
  (∃ io', nioReads fuel io segs = .ok io' ∧ io'.readCbs = r.1 ∧ io'.readbuf.head = 0 ∧
    slice io'.readbuf.base 0 io'.readbuf.tail = r.2) ∧
  ∀ n, ∃ io', nioReads fuel io (segs.take n) = .ok io' ∧ io'.closed = false ∧ io'.closeAsync = false

theorem unpacked_of_cuts {fuel : Nat} {setting : UnpackSetting} {io : Hio} {full : List UInt8 → Bool}
    {ok : List UInt8 → Prop} {segs : List (List UInt8)} (hcuts : UnpackCuts fuel setting full ok)
    (hmax : setting.packageMaxLength.toNat ≤ 2 ^ 30) (h : Packing setting io) (htail : io.readbuf.tail = 0)
    (hlen : 0 < io.readbuf.len) (hcbs : io.readCbs = []) (hfit : ReadsFit fuel io segs)
    (hok : ∀ pre, pre <+: segs.flatten → ok (cut full pre).2) : Unpacked fuel io segs (cut full segs.flatten) := by
  have hbuf : io.buffered = [] := by
    rw [← length_eq_zero_iff, h.length_buffered, htail]
  have hpending : Pending full io.buffered := by
    rw [hbuf]
    exact pending_nil
  have hok' : ∀ pre, pre <+: segs.flatten → ok (cut full (io.buffered ++ pre)).2 := by
    rw [hbuf]
    exact hok
  constructor
  · obtain ⟨io', hreads, h', hcbs', hbuf'⟩ := nioReads_cut hcuts hmax segs io h (by omega) hpending hfit hok'
    rw [hbuf, nil_append] at hcbs' hbuf'
    rw [Hio.buffered, h'.head] at hbuf'
    exact ⟨io', hreads, by rw [hcbs', hcbs, nil_append], h'.head, hbuf'⟩
  · intro n
    have hprefix : (segs.take n).flatten <+: segs.flatten := by
      refine ⟨(segs.drop n).flatten, ?_⟩
      rw [← flatten_append, take_append_drop]
    obtain ⟨io', hreads, h', -⟩ := nioReads_cut hcuts hmax (segs.take n) io h (by omega) hpending (hfit.take n)
      (fun pre hpre => hok' pre (hpre.trans hprefix))
    exact ⟨io', hreads, h'.opened, h'.notAsync⟩

theorem fixedLength_of_completeSetting {setting : UnpackSetting} {n maxLen : UInt32}
    (h : completeSetting setting = .ok ⟨.byFixedLength n, maxLen⟩) : 0 < n.toNat ∧ n.toNat ≤ maxLen.toNat := by
  unfold completeSetting at h
  cases hm : setting.mode with
  | none | byDelimiter => simp [hm] at h
  | byFixedLength k =>
    simp only [hm] at h
    generalize (if setting.packageMaxLength = 0 then defaultPackageMaxLength else setting.packageMaxLength) = m at h
    by_cases hk : k ≠ 0 ∧ k ≤ m
    · rw [if_pos hk] at h
      cases h
      exact ⟨Nat.pos_of_ne_zero fun h0 => hk.1 (UInt32.toNat_inj.1 h0), UInt32.le_iff_toNat_le.1 hk.2⟩
    · rw [if_neg hk] at h
      cases h
  | byLengthField s =>
    simp only [hm] at h
    split_ifs at h <;> simp at h

def firstReadbufLen (setting : UnpackSetting) : Nat :=
  match setting.mode with
  | .byFixedLength fixedLength => fixedLength.toNat
  | _ => min hloopReadBufsize setting.packageMaxLength.toNat

theorem hioSetUnpack_packing {io : Hio} {setting setting' : UnpackSetting} (hio : Fresh io)
    (hset : completeSetting setting = .ok setting') (hpos : 1 ≤ setting'.packageMaxLength.toNat)
    (hmax : setting'.packageMaxLength.toNat ≤ 2 ^ 30) :
    ∃ io', hioSetUnpack io setting = .ok io' ∧ Packing setting' io' ∧ io'.readbuf.tail = 0 ∧ 0 < io'.readbuf.len ∧
      io'.readCbs = [] := by
  obtain ⟨hopened, hasync, hflags, hhead, htail, hcbs⟩ := hio.unset
  obtain ⟨len, hlen⟩ : ∃ len, firstReadbufLen setting' = len := ⟨_, rfl⟩
  have hbounds : 0 < len ∧ len ≤ setting'.packageMaxLength.toNat := by
    obtain ⟨mode, maxLen⟩ := setting'
    dsimp only at hpos hmax ⊢
    rw [← hlen]
    cases mode with
    | byFixedLength n => exact fixedLength_of_completeSetting hset
    | none | byDelimiter | byLengthField =>
      simp only [firstReadbufLen, hloopReadBufsize]
      omega
  have hfixed : ∀ n, setting'.mode = .byFixedLength n → len = n.toNat := by
    intro n hn
    rw [← hlen, firstReadbufLen, hn]
  have hrun : hioSetUnpack io setting = hioAllocReadbuf { hioUnsetUnpack io with
      unpackSetting := some setting'
      readbuf := { (hioUnsetUnpack io).readbuf with len := len }
      maxReadBufsize := setting'.packageMaxLength.toNat } len := by
    rw [← hlen]
    unfold hioSetUnpack
    rw [hset]
    rfl
  rw [hrun, hioAllocReadbuf_eq hbounds.2 (by omega)]
  refine ⟨_, rfl, ?_, htail, hbounds.1, hcbs⟩
  exact ⟨hopened, hasync, hflags, rfl, rfl, hhead, by simp [htail], hbounds.2, rfl, fun hc => absurd rfl hc,
    fun n hn => ⟨hfixed n hn, rfl⟩⟩

/-- Segmentation independence of framing by a delimiter and by a fixed length. The stream may be received in
    any segments that the reads can return: the packages handed to `read_cb` are those of the whole stream, the
    io stays open, and what is left in the buffer is what is left of the stream. -/
theorem cutting_segmentation_independence {io : Hio} {setting : UnpackSetting} {mode : UnpackMode} {maxLen : UInt32}
    (hio : Fresh io) (hset : completeSetting setting = .ok ⟨mode, maxLen⟩)
    (hmax : 1 ≤ maxLen.toNat ∧ maxLen.toNat ≤ 2 ^ 30) {fuel : Nat} (hfuel : maxLen.toNat < fuel) :
    ∃ io₀, hioSetUnpack io setting = .ok io₀ ∧ ∀ segs, ReadsFit fuel io₀ segs →
      (∀ n, mode = .byFixedLength n → Unpacked fuel io₀ segs (cutByLength n.toNat segs.flatten)) ∧
      (∀ s, mode = .byDelimiter s → s.bytes ≠ [] → Short maxLen.toNat (cutAtDelimiter s.bytes segs.flatten) →
        Unpacked fuel io₀ segs (cutAtDelimiter s.bytes segs.flatten)) := by
  obtain ⟨io₀, hset₀, h, htail, hlen, hcbs⟩ := hioSetUnpack_packing hio hset hmax.1 hmax.2
  refine ⟨io₀, hset₀, fun segs hfit => ⟨?_, ?_⟩⟩
  · rintro n rfl
    have hn := (fixedLength_of_completeSetting hset).1
    exact unpacked_of_cuts (unpackCuts_fixedLength hn hfuel) hmax.2 h htail hlen hcbs hfit (fun _ _ => trivial)
  · rintro s rfl hbytes hshort
    have hs : 0 < s.delimiterBytes.toNat := by
      rw [← length_bytes]
      exact length_pos_iff.2 hbytes
    refine unpacked_of_cuts (unpackCuts_delimiter hs hmax.2 hfuel) hmax.2 h htail hlen hcbs hfit ?_
    rintro pre ⟨rest, hrest⟩
    rw [← hrest] at hshort
    exact hshort.left

def semicolonSetting : DelimiterSetting := { delimiter := fun _ => 59, delimiterBytes := 2 }

def semicolonIo : Hio :=
  { hioReady with
    readbuf := { loopReadbuf with len := 8 }
    unpackSetting := some ⟨.byDelimiter semicolonSetting, 8⟩
    kind := .alloced
    maxReadBufsize := 8 }

/-- `"a;;;b"`, received in segments that end within the delimiter and behind a semicolon of the next package. -/
theorem semicolons_in_three_segments :
    hioSetUnpack hioReady ⟨.byDelimiter semicolonSetting, 8⟩ = .ok semicolonIo ∧
      Unpacked 9 semicolonIo [[97, 59], [59, 59], [98]] ([[97, 59, 59]], [59, 98]) := by
  have hset : hioSetUnpack hioReady ⟨.byDelimiter semicolonSetting, 8⟩ = .ok semicolonIo := rfl
  have hcomplete : completeSetting ⟨.byDelimiter semicolonSetting, 8⟩ = .ok ⟨.byDelimiter semicolonSetting, 8⟩ := rfl
  obtain ⟨io₀, hset₀, hall⟩ := cutting_segmentation_independence fresh_hioReady hcomplete (by decide)
    (show (8 : UInt32).toNat < 9 by decide)
  obtain rfl : semicolonIo = io₀ := Except.ok.inj (hset.symm.trans hset₀)
  refine ⟨hset, (hall [[97, 59], [59, 59], [98]] ?_).2 semicolonSetting rfl (by decide) ?_⟩
  · refine ⟨by decide, by decide, ?_⟩
    intro io' h
    cases h
    refine ⟨by decide, by decide, ?_⟩
    intro io' h
    cases h
    exact ⟨by decide, by decide, fun _ _ => trivial⟩
  · exact ⟨by decide, by decide⟩

end HvVerified.Event
