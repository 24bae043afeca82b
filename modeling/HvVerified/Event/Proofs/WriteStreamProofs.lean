import HvVerified.Event.Proofs.NioWriteProofs

/-!
# Proofs: the write path loses and reorders nothing

As long as the io is open and no `hio_write` has failed, what the kernel has accepted, followed by what
is queued, is what was passed to `hio_write`. The direct write of `hio_write` and the drain of
`nio_write` meet in the queue: while `nio_write` waits for `write_cb`, the buffer it has just written
is still the first of the queue, with nothing left to send.
-/

namespace HvVerified.Event

open Lib List OffsetBuf

variable {io io' : WriteIo} {r : SendResult}

def queued (io : WriteIo) : List UInt8 := (io.writeQueue.map unsent).flatten

structure Flow (io : WriteIo) : Prop where
  stream : io.failed = false → io.accepted ++ queued io = io.calls.flatten
  bufsize : io.writeBufsize = (queued io).length
  writing : io.writeQueue ≠ [] → io.writing
  front : ∀ base, .nioWrite base true ∈ io.stack →
    ∃ pbuf queue, io.writeQueue = pbuf :: queue ∧ pbuf.base = base ∧ pbuf.unsent = []

theorem length_unsent (b : OffsetBuf) : b.unsent.length = b.bytes.length - b.offset :=
  length_drop

theorem flow_direct (buf : List UInt8) {n : Nat} (hf : Flow io) (hq : io.writeQueue = [] ∨ n = 0)
    (hok : io.failed = false) :
    io.accepted ++ buf.take n ++ (queued io ++ buf.drop n) = (io.calls ++ [buf]).flatten := by
  have hcomm : buf.take n ++ queued io = queued io ++ buf.take n := by
    rcases hq with hq | hq
    · simp [queued, hq]
    · simp [hq]
  rw [append_assoc, ← append_assoc (buf.take n), hcomm, append_assoc, take_append_drop, ← append_assoc, hf.stream hok]
  simp

theorem flow_sent (hf : Flow io) {pbuf : OffsetBuf} {queue : List OffsetBuf} {n : Nat}
    (hq : io.writeQueue = pbuf :: queue) (hn : n ≤ pbuf.bytes.length - pbuf.offset)
    (hstack : io.stack = []) : Flow (sentIo io pbuf queue n) := by
  have hunsent : ({ pbuf with offset := pbuf.offset + n } : OffsetBuf).unsent = pbuf.unsent.drop n := by
    simp [unsent, drop_drop]
  have hsplit : pbuf.unsent.take n ++ queued (sentIo io pbuf queue n) = queued io := by
    simp only [queued, sentIo, hq, map_cons, flatten_cons, hunsent]
    rw [← append_assoc, take_append_drop]
  have hlen := congrArg length hsplit
  rw [length_append, length_take, length_unsent] at hlen
  refine ⟨fun hok => ?_, ?_, fun _ => hf.writing (by simp [hq]), ?_⟩
  · show (io.accepted ++ pbuf.unsent.take n) ++ queued (sentIo io pbuf queue n) = io.calls.flatten
    rw [append_assoc, hsplit, hf.stream hok]
  · show io.writeBufsize - n = _
    have := hf.bufsize
    omega
  · intro base hbase
    have hmem : (.nioWrite base true : WriteCall) ∈
        .nioWrite pbuf.base (n = pbuf.bytes.length - pbuf.offset) :: io.stack := hbase
    rw [hstack, mem_singleton, WriteCall.nioWrite.injEq] at hmem
    refine ⟨_, _, rfl, hmem.1.symm, ?_⟩
    have hfull : n = pbuf.bytes.length - pbuf.offset := by simpa using hmem.2.symm
    rw [hunsent, drop_eq_nil_iff, length_unsent]
    omega

theorem flow_move {bad : Prop} (hm : Move bad io io') (h : io.closed = false → Flow io) (hopen : io'.closed = false) :
    Flow io' := by
  cases hm with
  | flags => exact ⟨(h hopen).stream, (h hopen).bufsize, (h hopen).writing, (h hopen).front⟩
  | idle hq => exact ⟨(h hopen).stream, (h hopen).bufsize, fun hne => absurd hq hne, (h hopen).front⟩
  | refused _ _ _ _ hw =>
    refine ⟨nofun, (h hopen).bufsize, fun hne => ?_, (h hopen).front⟩
    rcases hw with rfl | ⟨-, hw⟩
    · exact (h hopen).writing hne
    · exact hw
  | @direct buf n writing _ hq hw hn =>
    refine ⟨fun hok => ?_, (h hopen).bufsize, fun hne => ?_, fun base hmem => (h hopen).front base (mem_pushed hmem)⟩
    · have := flow_direct buf (h hopen) hq hok
      rwa [drop_eq_nil_iff.mpr hn, append_nil] at this
    · rcases hw with rfl | hw
      · exact (h hopen).writing hne
      · exact hw
  | @enqueued buf n writing _ hq hw =>
    have hqueued : queued (enqueuedIo (directIo io buf n writing) (buf.drop n)) = queued io ++ buf.drop n := by
      simp [queued, enqueuedIo, directIo, unsent]
    refine ⟨fun hok => ?_, ?_, fun _ => ?_, fun base hmem => ?_⟩
    · rw [hqueued]
      exact flow_direct buf (h hopen) hq hok
    · rw [hqueued, length_append, ← (h hopen).bufsize]
      rfl
    · rcases hw with ⟨rfl, hne⟩ | hw
      · exact (h hopen).writing hne
      · exact hw
    · obtain ⟨pbuf, queue, hq', hb⟩ := (h hopen).front base (mem_pushed hmem)
      exact ⟨pbuf, _, congrArg (· ++ _) hq', hb⟩
  | sent _ hq hn hstack => exact flow_sent (h hopen) hq hn hstack
  | returned hstack =>
    refine ⟨(h hopen).stream, (h hopen).bufsize, (h hopen).writing, fun base hmem => (h hopen).front base ?_⟩
    rw [hstack]
    exact mem_cons_of_mem _ hmem
  | @freed base pbuf queue _ hstack hq =>
    obtain ⟨_, _, hq', -, hsent⟩ := (h hopen).front base (by simp [hstack])
    cases hq'.symm.trans hq
    have hqueued : queued io = (queue.map unsent).flatten := by simp [queued, hq, hsent]
    refine ⟨fun hok => ?_, ?_, fun _ => (h hopen).writing (by simp [hq]), fun _ => nofun⟩
    · rw [← (h hopen).stream hok, hqueued]
      rfl
    · exact (h hopen).bufsize.trans (congrArg length hqueued)
  | popEmpty hstack hq =>
    -- the buffer that was sent is still in the queue of an open io
    obtain ⟨_, _, hq', -⟩ := (h hopen).front _ (by rw [hstack]; exact mem_cons_self)
    cases hq.symm.trans hq'
  | closed => cases hopen

/-! ## Runs -/

theorem writeWf_init (h : WriteInit io) : WriteWf io := by
  obtain ⟨m, rfl⟩ := h
  exact writeWf_of_open List.Pairwise.nil rfl rfl

theorem stream_invariant {ok : WriteIo → WriteAct → Prop} (h : Reachable writeStep ok WriteInit io) :
    WriteWf io ∧ (io.closed = false → Flow io) := by
  refine h.invariant (I := fun io => WriteWf io ∧ (io.closed = false → Flow io)) ?_ ?_
  · intro io hinit
    refine ⟨writeWf_init hinit, fun _ => ?_⟩
    obtain ⟨m, rfl⟩ := hinit
    exact ⟨fun _ => rfl, rfl, fun hne => absurd rfl hne, fun base hmem => by cases hmem⟩
  · intro io act io' hinv _ hs
    exact ⟨writeWf_step hinv.1 hs, Moves.keeps flow_move (moves_step hinv.1 hs) hinv.2⟩

theorem length_queued (io : WriteIo) :
    (queued io).length = (io.writeQueue.map fun b => b.bytes.length - b.offset).sum := by
  unfold queued
  rw [length_flatten, map_map]
  exact congrArg sum (map_congr_left fun b _ => length_unsent b)

/-- The write path is loss-free and ordered: in every run, while the io is open and no `hio_write` has
    failed, the bytes accepted by the kernel followed by the unsent parts of the queued buffers are the
    buffers passed to `hio_write`, in order; `write_bufsize` counts the unsent bytes, and a queue that is
    not empty is watched for `HV_WRITE`. -/
theorem write_path_ordered (h : Reachable writeStep Always WriteInit io) (hopen : io.closed = false)
    (hok : io.failed = false) :
    io.accepted ++ (io.writeQueue.map unsent).flatten = io.calls.flatten ∧
      io.writeBufsize = (io.writeQueue.map fun b => b.bytes.length - b.offset).sum ∧
      (io.writeQueue ≠ [] → io.writing = true) := by
  have hf := (stream_invariant h).2 hopen
  exact ⟨hf.stream hok, by rw [hf.bufsize, length_queued], hf.writing⟩

/-- Three bytes of which the kernel accepts one, a second write from inside `write_cb`, and a writable
    event that sends the two bytes left over; its `write_cb` has not returned. -/
def writeRun : List WriteAct :=
  [.write [1, 2, 3] (.wrote 1), .write [4] .again, .ret .again, .writable (.wrote 2)]

theorem write_path_ordered_run :
    ∃ io, runFrom writeStep (writeReady 16) writeRun = some io ∧ io.accepted = [1, 2, 3] ∧
      io.accepted ++ (io.writeQueue.map unsent).flatten = [1, 2, 3, 4] ∧
      io.writeBufsize = 1 := by
  obtain ⟨io, hrun, hsent, hopen, hok, hcalls, hsize⟩ :
      ∃ io, runFrom writeStep (writeReady 16) writeRun = some io ∧ io.accepted = [1, 2, 3] ∧
        io.closed = false ∧ io.failed = false ∧ io.calls = [[1, 2, 3], [4]] ∧ io.writeBufsize = 1 :=
    ⟨_, rfl, rfl, rfl, rfl, rfl, rfl⟩
  have hr : Reachable writeStep Always WriteInit io := Reachable.run writeRun (.start ⟨16, rfl⟩) hrun
  obtain ⟨hstream, -, -⟩ := write_path_ordered hr hopen hok
  rw [hcalls] at hstream
  exact ⟨io, hrun, hsent, hstream, hsize⟩

end HvVerified.Event
