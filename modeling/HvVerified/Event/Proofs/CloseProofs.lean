import HvVerified.Event.Proofs.NioWriteProofs

/-!
# Proofs: the close protocol

The buffer that `nio_write` has written completely stays in the queue while `write_cb` runs, and is
freed afterwards. If `hio_close` closes the io meanwhile, `hio_done` frees it too, and the `pop_front`
of `nio_write` finds an empty queue.
-/

namespace HvVerified.Event

open Lib List Reachable

variable {io io' : WriteIo} {r : SendResult}

/-- `hio_close` is not called in the `write_cb` of a buffer that `nio_write` has written completely,
    if it would not defer the close. -/
def CloseAllowed (io : WriteIo) (act : WriteAct) : Prop :=
  act = .close → (∃ base, .nioWrite base true ∈ io.stack) → io.close = false ∧ io.error = false

def queuedBases (io : WriteIo) : List Nat := io.writeQueue.map OffsetBuf.base

/-- Each allocation is either queued or released, once; `close_cb` has been called if the io is closed. -/
structure Owned (io : WriteIo) : Prop where
  bases : ∀ x, io.released.count x + (queuedBases io).count x = if x < io.nextBase then 1 else 0
  pops : io.popEmpty = false
  closeCbs : io.closeCbs = if io.closed then 1 else 0
  front : ∀ base, .nioWrite base true ∈ io.stack →
    ∃ pbuf queue, io.writeQueue = pbuf :: queue ∧ pbuf.base = base

theorem owned_move {bad : Prop} (hbad : ¬ bad) (hm : Move bad io io') (h : Owned io) : Owned io' := by
  cases hm with
  | flags | idle | refused => exact ⟨h.bases, h.pops, h.closeCbs, h.front⟩
  | direct => exact ⟨h.bases, h.pops, h.closeCbs, fun base hmem => h.front base (mem_pushed hmem)⟩
  | @enqueued buf n writing =>
    refine ⟨fun x => ?_, h.pops, h.closeCbs, fun base hmem => ?_⟩
    · have := h.bases x
      show io.released.count x + ((io.writeQueue ++ [(⟨io.nextBase, _, 0⟩ : OffsetBuf)]).map OffsetBuf.base).count x =
        if x < io.nextBase + 1 then 1 else 0
      simp only [map_append, map_cons, map_nil, count_append, count_singleton, beq_iff_eq]
      simp only [queuedBases] at this
      split_ifs at this ⊢ <;> omega
    · obtain ⟨pbuf, queue, hq, hb⟩ := h.front base (mem_pushed hmem)
      exact ⟨pbuf, _, congrArg (· ++ _) hq, hb⟩
  | @sent pbuf queue n _ hq _ hstack =>
    refine ⟨fun x => ?_, h.pops, h.closeCbs, fun base hmem => ?_⟩
    · have := h.bases x
      rw [queuedBases, hq] at this
      exact this
    · have hmem : (.nioWrite base true : WriteCall) ∈
          .nioWrite pbuf.base (n = pbuf.bytes.length - pbuf.offset) :: io.stack := hmem
      rw [hstack, mem_singleton, WriteCall.nioWrite.injEq] at hmem
      exact ⟨_, _, rfl, hmem.1.symm⟩
  | returned hstack =>
    refine ⟨h.bases, h.pops, h.closeCbs, fun base hmem => h.front base ?_⟩
    rw [hstack]
    exact mem_cons_of_mem _ hmem
  | freed _ hstack hq =>
    obtain ⟨_, _, hq', rfl⟩ := h.front _ (by rw [hstack]; exact mem_cons_self)
    cases hq'.symm.trans hq
    refine ⟨fun x => ?_, h.pops, h.closeCbs, fun _ => nofun⟩
    have := h.bases x
    simp only [queuedBases, hq, map_cons, count_cons, count_append, count_nil] at this ⊢
    omega
  | popEmpty hstack hq =>
    obtain ⟨_, _, hq', -⟩ := h.front _ (by rw [hstack]; exact mem_cons_self)
    cases hq.symm.trans hq'
  | closed hopen hno =>
    have hcbs := h.closeCbs
    rw [hopen] at hcbs
    refine ⟨fun x => ?_, h.pops, by simp [hcbs], fun base hmem => ?_⟩
    · simpa [queuedBases, count_append] using h.bases x
    · rcases mem_cons.1 hmem with hmem | hmem
      · cases hmem
      · exact absurd hmem (hno.resolve_left hbad base)

theorem not_closesInWriteCb {act : WriteAct} (h : Owned io) (hok : CloseAllowed io act) : ¬ ClosesInWriteCb io act := by
  rintro ⟨hact, hclose, base, hmem⟩
  obtain ⟨hc, he⟩ := hok hact ⟨base, hmem⟩
  obtain ⟨pbuf, queue, hq, -⟩ := h.front base hmem
  simp [hq, hc, he] at hclose

/-! ## Runs -/

theorem owned_invariant (h : Reachable writeStep CloseAllowed WriteInit io) : WriteWf io ∧ Owned io := by
  refine h.invariant (I := fun io => WriteWf io ∧ Owned io) ?_ ?_
  · intro io hinit
    obtain ⟨m, rfl⟩ := hinit
    exact ⟨writeWf_of_open List.Pairwise.nil rfl rfl, fun _ => rfl, rfl, rfl, fun base hmem => by cases hmem⟩
  · intro io act io' hinv hok hs
    exact ⟨writeWf_step hinv.1 hs,
      Moves.keeps (owned_move (not_closesInWriteCb hinv.2 hok)) (moves_step hinv.1 hs) hinv.2⟩

/-- In every run in which `hio_close` is called as allowed, `close_cb` is called at most once,
    `pop_front` never finds an empty queue, and every buffer is either queued or has been released
    exactly once; when the io is closed, all of them have been released. -/
theorem close_protocol (h : Reachable writeStep CloseAllowed WriteInit io) :
    io.closeCbs ≤ 1 ∧ io.popEmpty = false ∧
      (∀ base < io.nextBase, io.released.count base +
        (io.writeQueue.map OffsetBuf.base).count base = 1) ∧
      (io.closed = true → ∀ base < io.nextBase, io.released.count base = 1) := by
  obtain ⟨hwf, hown⟩ := owned_invariant h
  have hbases : ∀ base < io.nextBase, io.released.count base +
      (io.writeQueue.map OffsetBuf.base).count base = 1 := by
    intro base hlt
    have := hown.bases base
    rw [if_pos hlt] at this
    exact this
  refine ⟨?_, hown.pops, hbases, fun hc base hlt => ?_⟩
  · rw [hown.closeCbs]
    split_ifs <;> omega
  · have := hbases base hlt
    rw [(hwf.stopped hc).2] at this
    simpa using this

/-- A close that is deferred because one byte is still queued, and carried out when it has been sent. -/
theorem close_protocol_deferred : ∃ io, runFrom writeStep (writeReady 16)
        [.write [1, 2] (.wrote 1), .ret .again, .close, .writable (.wrote 1), .ret .again] = some io ∧
      io.closed = true ∧ io.nextBase = 1 ∧ io.closeCbs ≤ 1 ∧ io.released.count 0 = 1 := by
  have h0 : Reachable writeStep CloseAllowed WriteInit (writeReady 16) := .start ⟨16, rfl⟩
  have h1 := step (a := .write [1, 2] (.wrote 1)) h0 nofun rfl
  have h2 := step (a := .ret .again) h1 nofun rfl
  have h3 := step (a := .close) h2 (fun _ _ => ⟨rfl, rfl⟩) rfl
  have h4 := step (a := .writable (.wrote 1)) h3 nofun rfl
  have h5 := step (a := .ret .again) h4 nofun rfl
  obtain ⟨hcbs, -, -, hrel⟩ := close_protocol h5
  exact ⟨_, rfl, rfl, rfl, hcbs, hrel rfl 0 (by decide)⟩

/-- The same, but `write_cb` of the last byte calls `hio_close` again: the buffer is released twice, and
    `pop_front` is called on the empty queue. -/
theorem close_in_write_cb_releases_twice :
    ∃ io, Reachable writeStep Always WriteInit io ∧ io.nextBase = 1 ∧ io.released = [0, 0] ∧
      io.popEmpty = true := by
  exact ⟨_, run [.write [1, 2] (.wrote 1), .ret .again, .close, .writable (.wrote 1), .close, .ret .again,
    .ret .again] (.start ⟨16, rfl⟩) rfl, rfl, rfl, rfl⟩

end HvVerified.Event
